import ChartLint.Pattern.Search
import ChartLint.Text.Blank
import ChartLint.Text.Digit

/-!
# Building patterns

The words in which the rules spell their patterns: literal text, gaps of blanks, words, digits,
and alternatives. Literal text and `++` read as written: `"public" ++ gap ++ word`.
-/

namespace ChartLint.Pattern

/-! ## Sequence and choice -/

/-- One pattern after the other, nested to the right, so that a search sees the first part of the
whole sequence at once. -/
def followedBy : Pattern → Pattern → Pattern
  | .seq p q, r => .seq p (q.followedBy r)
  | p, r => .seq p r

instance : Append Pattern := ⟨followedBy⟩

/-- Nesting to the right keeps the meaning of a sequence. -/
theorem ends_followedBy (p q : Pattern) (c : Cursor) :
    (p ++ q).ends c = (Pattern.seq p q).ends c := by
  change (p.followedBy q).ends c = _
  induction p generalizing c with
  | seq a b _ ihb =>
    simp [followedBy, ends, ihb, List.flatMap_assoc, List.flatMap_map, List.map_flatMap,
      Ending.andThen_andThen, Function.comp_def]
  | _ => rfl

/-- Exactly the given characters. -/
def literal : Text → Pattern
  | [] => .empty
  | [x] => .one (· == x)
  | x :: rest => .seq (.one (· == x)) (literal rest)

/-- Exactly the given string. -/
def text (s : String) : Pattern :=
  literal s.toList

instance : Coe String Pattern := ⟨text⟩

/-- One of several patterns, an earlier one preferred; of no patterns, the empty text. -/
def anyOf : List Pattern → Pattern
  | [] => .empty
  | [p] => p
  | p :: rest => .alt p (anyOf rest)

/-- One of several strings. -/
def anyWord (names : List String) : Pattern :=
  anyOf (names.map text)

/-- The pattern or nothing, the pattern preferred. -/
def maybe (p : Pattern) : Pattern :=
  .alt p .empty

/-- The lower case form under which letters are compared without regard to case. Besides the two
cases of an ASCII letter, the dotted capital i and the dotless i count as i, the long s as s, and
the Kelvin sign as k. -/
def foldCase (c : Char) : Char :=
  if c = 'İ' ∨ c = 'ı' then 'i'
  else if c = 'ſ' then 's'
  else if c = '\u212a' then 'k'
  else c.toLower

/-- Exactly the given string of ASCII characters, without regard to case. -/
def anyCase (s : String) : Pattern :=
  s.toList.foldr (fun x p => .seq (.one (fun c => foldCase c == foldCase x)) p) .empty

/-! ## Runs -/

/-- Any number of characters of a class, as many as possible. -/
def many (cls : Char → Bool) : Pattern :=
  .run .eager cls

/-- At least one character of a class, as many as possible. -/
def many1 (cls : Char → Bool) : Pattern :=
  .one cls ++ many cls

/-- Any number of characters of a class, as few as possible. -/
def few (cls : Char → Bool) : Pattern :=
  .run .reluctant cls

/-- At least one character of a class, as few as possible. -/
def few1 (cls : Char → Bool) : Pattern :=
  .one cls ++ few cls

/-- Blanks, or none. -/
def blanks : Pattern :=
  many Text.isBlank

/-- At least one blank. -/
def gap : Pattern :=
  many1 Text.isBlank

/-- A word: letters, numerals and underscores. -/
def word : Pattern :=
  many1 Text.isWord

/-- A word or nothing. -/
def wordTail : Pattern :=
  many Text.isWord

/-- A run of decimal digits. -/
def digits : Pattern :=
  many1 Text.isDecimal

/-! ## Classes -/

/-- One of the given characters. -/
def oneOf (cs : List Char) (c : Char) : Bool :=
  cs.contains c

/-- None of the given characters. -/
def noneOf (cs : List Char) (c : Char) : Bool :=
  !cs.contains c

/-- A word character or a dot: what stands in front of a member name or inside an identifier. -/
def isPathChar (c : Char) : Bool :=
  Text.isWord c || c == '.'

/-- The start of a name that is neither a member of something nor the rest of a longer word. -/
def unqualified : Pattern :=
  .notAfter isPathChar

end ChartLint.Pattern
