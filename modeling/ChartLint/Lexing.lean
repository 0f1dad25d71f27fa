import ChartLint.Text.Basic

/-!
# Comments and literals

The scanner walks a script once and tells, for every character, whether it belongs to the code
proper, to a comment or to a literal. Its rules, of which the first that applies is taken:

* `//` opens a line comment, which ends in front of a line terminator;
* `/*` opens a block comment, which ends behind `*/`;
* `@"`, `$@"` and `@$"` open a verbatim literal, in which a doubled quote stands for one quote;
* `"`, `$"` and a single quote open an ordinary literal, in which a backslash guards the next
  character; it ends behind the same quote, or in front of a line terminator.

What is still open at the end of the text ends there.

`mask` blanks comments and literals and keeps the layout, so an offset or a line found in the
masked text is valid for the script. `uncomment` blanks the comments alone.
-/

namespace ChartLint.Lexing

/-- What a character that is not code belongs to. -/
inductive Kind where
  | comment
  | literal
deriving DecidableEq, Repr

/-- The place of a character in the lexical structure; `first` marks the character that opens its
comment or literal. -/
inductive Region where
  | code
  | token (kind : Kind) (first : Bool)
deriving DecidableEq, Repr

/-- What the scanner is inside of. -/
inductive Mode where
  | ground
  | lineComment
  | blockComment
  /-- In front of the slash that closes a block comment. -/
  | blockEnd
  | verbatim
  | quoted (quote : Char)
deriving DecidableEq, Repr

/-- The region of a character that the scanner reads in a mode and that opens nothing. -/
def Mode.region : Mode → Region
  | .ground => .code
  | .lineComment | .blockComment | .blockEnd => .token .comment false
  | .verbatim | .quoted _ => .token .literal false

/-- The state of the scanner: what it is inside of, and how many of the characters ahead belong to
that whatever they are. -/
structure State where
  mode : Mode
  held : Nat
deriving DecidableEq, Repr

/-- The state outside of comments and literals. -/
def State.ground : State :=
  ⟨.ground, 0⟩

/-- Assigns one character outside of comments and literals; `rest` is what follows it. -/
def stepGround (c : Char) (rest : Text) : Region × State :=
  match c, rest with
  | '/', '/' :: _ => (.token .comment true, ⟨.lineComment, 1⟩)
  | '/', '*' :: _ => (.token .comment true, ⟨.blockComment, 1⟩)
  | '@', '"' :: _ => (.token .literal true, ⟨.verbatim, 1⟩)
  | '@', '$' :: '"' :: _ => (.token .literal true, ⟨.verbatim, 2⟩)
  | '$', '@' :: '"' :: _ => (.token .literal true, ⟨.verbatim, 2⟩)
  | '$', '"' :: _ => (.token .literal true, ⟨.quoted '"', 1⟩)
  | '"', _ => (.token .literal true, ⟨.quoted '"', 0⟩)
  | '\'', _ => (.token .literal true, ⟨.quoted '\'', 0⟩)
  | _, _ => (.code, .ground)

/-- Whether a backslash guards the first character of `rest`: any but a line terminator. -/
def guards : Text → Bool
  | [] => false
  | c :: _ => !Text.isTerminator c

/-- The state behind a character that belongs to what the scanner is inside of. -/
def stepInside (mode : Mode) (c : Char) (rest : Text) : State :=
  match mode with
  | .ground | .blockEnd => .ground
  | .lineComment => ⟨.lineComment, 0⟩
  | .blockComment =>
    if c == '*' && rest.head? == some '/' then ⟨.blockEnd, 0⟩ else ⟨.blockComment, 0⟩
  | .verbatim =>
    if c != '"' then ⟨.verbatim, 0⟩
    else if rest.head? == some '"' then ⟨.verbatim, 1⟩
    else .ground
  | .quoted quote =>
    if c == '\\' then ⟨.quoted quote, if guards rest then 1 else 0⟩
    else if c == quote then .ground
    else ⟨.quoted quote, 0⟩

/-- Whether a line terminator ends what the scanner is inside of. -/
def Mode.endsWithLine : Mode → Bool
  | .lineComment | .quoted _ => true
  | _ => false

/-- Assigns one character and moves on; `rest` is what follows it. -/
def step (s : State) (c : Char) (rest : Text) : Region × State :=
  match s.held, s.mode with
  | held + 1, mode => (mode.region, ⟨mode, held⟩)
  | 0, .ground => stepGround c rest
  | 0, mode =>
    if mode.endsWithLine && Text.isTerminator c then (.code, .ground)
    else (mode.region, stepInside mode c rest)

/-- The regions of the characters of a text, read on from a state. -/
def regionsFrom : State → Text → List Region
  | _, [] => []
  | s, c :: rest =>
    let (region, next) := step s c rest
    region :: regionsFrom next rest

/-- The region of every character of a script. -/
def regions (t : Text) : List Region :=
  regionsFrom .ground t

theorem length_regionsFrom (s : State) (t : Text) : (regionsFrom s t).length = t.length := by
  induction t generalizing s with
  | nil => rfl
  | cons c rest ih => simp [regionsFrom, ih]

/-- Every character has its region. -/
theorem length_regions (t : Text) : (regions t).length = t.length :=
  length_regionsFrom .ground t

/-- A blank in place of a character; line terminators stay. -/
def blankOut (c : Char) : Char :=
  if Text.isTerminator c then c else ' '

/-- Blanks the characters whose region is in a class. -/
def blankWhere (cls : Region → Bool) (t : Text) : Text :=
  List.zipWith (fun c region => if cls region then blankOut c else c) t (regions t)

/-- Blanking keeps the length. -/
theorem length_blankWhere (cls : Region → Bool) (t : Text) :
    (blankWhere cls t).length = t.length := by
  simp [blankWhere, length_regions]

/-- The script with comments and literals blanked. -/
def mask (t : Text) : Text :=
  blankWhere (· != .code) t

theorem length_mask (t : Text) : (mask t).length = t.length :=
  length_blankWhere (· != .code) t

theorem count_zipWith_blankOut {cls : Region → Bool} {t : Text} {rs : List Region}
    (h : rs.length = t.length) :
    (List.zipWith (fun c region => if cls region then blankOut c else c) t rs).count '\n'
      = t.count '\n' := by
  induction t generalizing rs with
  | nil => rfl
  | cons c t ih =>
    cases rs with
    | nil => cases h
    | cons region rs =>
      have hfeed : ∀ d : Char, (blankOut d == '\n') = (d == '\n') := by
        intro d
        unfold blankOut Text.isTerminator
        split <;> simp_all
      have hfirst : ((if cls region then blankOut c else c) == '\n') = (c == '\n') := by
        split
        · exact hfeed c
        · rfl
      rw [List.zipWith_cons_cons, List.count_cons, List.count_cons, ih (Nat.succ.inj h), hfirst]

/-- The masked twin has as many lines as the script. -/
theorem length_lines_mask (t : Text) : (Text.lines (mask t)).length = (Text.lines t).length := by
  rw [Text.length_lines, Text.length_lines, mask, blankWhere,
    count_zipWith_blankOut (length_regions t)]

/-- The script with comments blanked and literals kept. -/
def uncomment (t : Text) : Text :=
  blankWhere (fun region => region matches .token .comment _) t

/-- The pieces of a text that has its regions beside it: the comments and literals, each with its
exact text. -/
def tokensOf : List (Char × Region) → List Text
  | [] => []
  | (c, .token _ true) :: rest =>
    (c :: (rest.takeWhile (fun p => p.2 matches .token _ false)).map (·.1)) :: tokensOf rest
  | _ :: rest => tokensOf rest

/-- The comments and literals of a script, from the left. -/
def tokens (t : Text) : List Text :=
  tokensOf (t.zip (regions t))

end ChartLint.Lexing
