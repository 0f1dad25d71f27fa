import ChartLint.Lexing
import Mathlib.Data.List.Infix

/-!
# The lexical grammar

The scanner of `ChartLint.Lexing` decides character by character. Here stands the grammar it
implements, said without the scanner: four rules with their openers, and for each rule the lexemes
that it takes from the front of a text. `Segments` reads a text from the left, at each place by the
first rule that opens there, and takes one plain character where none does.

The bridge is `regionsFrom_lexeme`: behind a lexeme the scanner is outside of comments and literals
again, and every character in it has been given to its token. Existence of a segmentation, its
uniqueness and the masked text (`existsUnique_segments_mask`) all ride on it.
-/

namespace ChartLint.Lexing

/-! ## The rules -/

/-- The rules that take a comment or a literal. -/
inductive TokenRule where
  | lineComment
  | blockComment
  | verbatim
  | ordinary
deriving DecidableEq, Repr

namespace TokenRule

/-- The rules, an earlier one before a later one. -/
def all : List TokenRule :=
  [.lineComment, .blockComment, .verbatim, .ordinary]

/-- What a rule takes. -/
def kind : TokenRule → Kind
  | .lineComment | .blockComment => .comment
  | .verbatim | .ordinary => .literal

/-- What a token of a rule starts with. -/
def openers : TokenRule → List Text
  | .lineComment => [['/', '/']]
  | .blockComment => [['/', '*']]
  | .verbatim => [['@', '"'], ['$', '@', '"'], ['@', '$', '"']]
  | .ordinary => [['$', '"'], ['"'], ['\'']]

/-- Whether a rule applies at the front of a text. -/
def opens (rule : TokenRule) (t : Text) : Bool :=
  rule.openers.any (fun opener => opener.isPrefixOf t)

/-- The first rule that applies at the front of a text. -/
def first? (t : Text) : Option TokenRule :=
  all.find? (fun rule => rule.opens t)

end TokenRule

/-- The text is at its end or at a line terminator. -/
def AtLineEnd (t : Text) : Prop :=
  t = [] ∨ ∃ c rest, t = c :: rest ∧ Text.isTerminator c = true

/-- The inside of a verbatim literal: quotes come in pairs. -/
inductive VerbatimBody : Text → Prop
  | nil : VerbatimBody []
  | char {c : Char} {t : Text} : c ≠ '"' → VerbatimBody t → VerbatimBody (c :: t)
  | pair {t : Text} : VerbatimBody t → VerbatimBody ('"' :: '"' :: t)

/-- The inside of an ordinary literal: a backslash with the character it guards, or a character
that is neither a backslash nor the quote, and no line terminator. -/
inductive OrdinaryBody (quote : Char) : Text → Prop
  | nil : OrdinaryBody quote []
  | guarded {c : Char} {t : Text} :
      Text.isTerminator c = false → OrdinaryBody quote t → OrdinaryBody quote ('\\' :: c :: t)
  | char {c : Char} {t : Text} :
      c ≠ '\\' → c ≠ quote → Text.isTerminator c = false →
      OrdinaryBody quote t → OrdinaryBody quote (c :: t)

/-- **The lexemes of a rule.** `Lexeme rule lexeme rest` says that the rule takes exactly `lexeme`
from the front of `lexeme ++ rest`. -/
inductive Lexeme : TokenRule → Text → Text → Prop
  /-- To the end of the line. -/
  | lineComment {body rest : Text} :
      (∀ c ∈ body, Text.isTerminator c = false) → AtLineEnd rest →
      Lexeme .lineComment ('/' :: '/' :: body) rest
  /-- Up to the first `*/` behind the opener. -/
  | blockComment {body rest : Text} :
      ¬ ['*', '/'] <:+: body ++ ['*'] →
      Lexeme .blockComment ('/' :: '*' :: (body ++ ['*', '/'])) rest
  | openBlockComment {body : Text} :
      ¬ ['*', '/'] <:+: body → Lexeme .blockComment ('/' :: '*' :: body) []
  /-- Up to the first quote that is not the first half of a pair. -/
  | verbatim {opener body rest : Text} :
      opener ∈ TokenRule.verbatim.openers → VerbatimBody body → rest.head? ≠ some '"' →
      Lexeme .verbatim (opener ++ body ++ ['"']) rest
  | openVerbatim {opener body : Text} :
      opener ∈ TokenRule.verbatim.openers → VerbatimBody body →
      Lexeme .verbatim (opener ++ body) []
  /-- Up to the first quote of its kind that no backslash guards. -/
  | ordinary {opener body rest : Text} {quote : Char} :
      opener ∈ TokenRule.ordinary.openers → opener.getLast? = some quote →
      OrdinaryBody quote body → Lexeme .ordinary (opener ++ body ++ [quote]) rest
  /-- Or to the end of the line, where a backslash may guard nothing. -/
  | openOrdinary {opener body tail rest : Text} {quote : Char} :
      opener ∈ TokenRule.ordinary.openers → opener.getLast? = some quote →
      OrdinaryBody quote body → tail = [] ∨ tail = ['\\'] → AtLineEnd rest →
      Lexeme .ordinary (opener ++ body ++ tail) rest

/-- A piece of a segmented text. -/
inductive Piece where
  | plain (c : Char)
  | token (rule : TokenRule) (lexeme : Text)
deriving DecidableEq, Repr

/-- What masking leaves of a piece. -/
def Piece.masked : Piece → Text
  | .plain c => [c]
  | .token _ lexeme => lexeme.map blankOut

/-- **Segmentation from the left.** The first rule that applies takes its lexeme; where none
applies, one character is plain. -/
inductive Segments : Text → List Piece → Prop
  | done : Segments [] []
  | plain {c : Char} {rest : Text} {ps : List Piece} :
      TokenRule.first? (c :: rest) = none → Segments rest ps →
      Segments (c :: rest) (.plain c :: ps)
  | token {rule : TokenRule} {lexeme rest : Text} {ps : List Piece} :
      TokenRule.first? (lexeme ++ rest) = some rule → Lexeme rule lexeme rest →
      Segments rest ps → Segments (lexeme ++ rest) (.token rule lexeme :: ps)

/-! ## The scanner inside of a token -/

/-- The regions of a token of `n` characters. -/
def tokenRegions (kind : Kind) : Nat → List Region
  | 0 => []
  | n + 1 => .token kind true :: List.replicate n (.token kind false)

/-- **One step of the scanner**, as an equation on the regions. -/
theorem regionsFrom_cons (s : State) (c : Char) (rest : Text) :
    regionsFrom s (c :: rest) = (step s c rest).1 :: regionsFrom (step s c rest).2 rest :=
  rfl

/-- Characters that are held belong to the token, whatever they are. -/
theorem regionsFrom_held (mode : Mode) (t rest : Text) :
    regionsFrom ⟨mode, t.length⟩ (t ++ rest)
      = List.replicate t.length mode.region ++ regionsFrom ⟨mode, 0⟩ rest := by
  induction t with
  | nil => rfl
  | cons c t ih =>
    simp only [List.cons_append, List.length_cons, regionsFrom_cons, step, ih,
      List.replicate_succ]

/-- What ends with its line ends at the end of the line. -/
theorem regionsFrom_atLineEnd (mode : Mode) {rest : Text} (hmode : mode.endsWithLine = true)
    (h : AtLineEnd rest) : regionsFrom ⟨mode, 0⟩ rest = regionsFrom .ground rest := by
  obtain rfl | ⟨c, tail, rfl, hc⟩ := h
  · rfl
  · have hground : stepGround c tail = (.code, .ground) := by
      rcases (by simpa [Text.isTerminator] using hc : c = '\n' ∨ c = '\r') with rfl | rfl <;> rfl
    have hinside : step ⟨mode, 0⟩ c tail = (.code, .ground) := by
      cases mode <;> simp_all [step, Mode.endsWithLine]
    rw [regionsFrom_cons, regionsFrom_cons, hinside]
    simp only [step, State.ground, hground]

theorem regionsFrom_lineBody {body : Text} (rest : Text)
    (h : ∀ c ∈ body, Text.isTerminator c = false) :
    regionsFrom ⟨.lineComment, 0⟩ (body ++ rest)
      = List.replicate body.length (.token .comment false)
        ++ regionsFrom ⟨.lineComment, 0⟩ rest := by
  induction body with
  | nil => rfl
  | cons c body ih =>
    have hc : Text.isTerminator c = false := h c (by simp)
    have hstep : step ⟨.lineComment, 0⟩ c (body ++ rest)
        = (.token .comment false, ⟨.lineComment, 0⟩) := by
      simp [step, Mode.endsWithLine, hc, Mode.region, stepInside]
    rw [List.cons_append, regionsFrom_cons, hstep, ih (fun x hx => h x (by simp [hx]))]
    rfl

/-- A character of a block comment at which no `*/` starts leaves the scanner in the comment. -/
theorem step_blockComment {c : Char} {rest : Text} (h : ¬ ['*', '/'] <+: c :: rest) :
    step ⟨.blockComment, 0⟩ c rest = (.token .comment false, ⟨.blockComment, 0⟩) := by
  have hno : (c == '*' && rest.head? == some '/') = false := by
    rw [Bool.eq_false_iff]
    intro hc
    simp only [Bool.and_eq_true, beq_iff_eq] at hc
    obtain ⟨rfl, hhead⟩ := hc
    obtain ⟨tail, rfl⟩ := List.head?_eq_some_iff.mp hhead
    exact h ⟨tail, rfl⟩
  simp [step, Mode.endsWithLine, Mode.region, stepInside, hno]

theorem regionsFrom_openBlockBody {body : Text} (h : ¬ ['*', '/'] <:+: body) :
    regionsFrom ⟨.blockComment, 0⟩ body = List.replicate body.length (.token .comment false) := by
  induction body with
  | nil => rfl
  | cons c body ih =>
    have hstep := step_blockComment (fun hp => h hp.isInfix)
    rw [regionsFrom_cons, hstep, ih (fun hi => h (hi.trans (List.suffix_cons c body).isInfix))]
    rfl

theorem regionsFrom_blockBody {body : Text} (rest : Text) (h : ¬ ['*', '/'] <:+: body ++ ['*']) :
    regionsFrom ⟨.blockComment, 0⟩ (body ++ '*' :: '/' :: rest)
      = List.replicate (body.length + 2) (.token .comment false) ++ regionsFrom .ground rest := by
  induction body with
  | nil => rfl
  | cons c body ih =>
    have hopen : ¬ ['*', '/'] <+: c :: (body ++ '*' :: '/' :: rest) := by
      intro hp
      refine h (List.IsPrefix.isInfix ?_)
      -- the two characters of a closer at `c` lie in front of the slash of the real one
      cases body with
      | nil => simp at hp
      | cons d body =>
        obtain ⟨tail, ht⟩ := hp
        simp only [List.cons_append, List.nil_append, List.cons.injEq] at ht
        exact ⟨body ++ ['*'], by simp [← ht.1, ← ht.2.1]⟩
    have htail : ¬ ['*', '/'] <:+: body ++ ['*'] :=
      fun hi => h (hi.trans (List.suffix_cons c (body ++ ['*'])).isInfix)
    rw [List.cons_append, regionsFrom_cons, step_blockComment hopen, ih htail]
    rfl

theorem regionsFrom_verbatimBody {body : Text} (rest : Text) (h : VerbatimBody body) :
    regionsFrom ⟨.verbatim, 0⟩ (body ++ rest)
      = List.replicate body.length (.token .literal false)
        ++ regionsFrom ⟨.verbatim, 0⟩ rest := by
  induction h with
  | nil => rfl
  | @char c body hc _ ih =>
    have hstep : step ⟨.verbatim, 0⟩ c (body ++ rest)
        = (.token .literal false, ⟨.verbatim, 0⟩) := by
      simp [step, Mode.endsWithLine, Mode.region, stepInside, hc]
    rw [List.cons_append, regionsFrom_cons, hstep, ih]
    rfl
  | @pair body _ ih =>
    have hheld := regionsFrom_held .verbatim ['"'] (body ++ rest)
    rw [List.cons_append, List.cons_append, regionsFrom_cons]
    simp only [List.length_cons, List.length_nil, Nat.zero_add, List.singleton_append] at hheld
    simp only [step, Mode.endsWithLine, Bool.false_and, Bool.false_eq_true, if_false, stepInside,
      bne_self_eq_false, List.head?_cons, beq_self_eq_true, if_true, hheld, ih, List.length_cons,
      List.replicate_succ, Mode.region]
    rfl

theorem regionsFrom_ordinaryBody {quote : Char} {body : Text} (rest : Text)
    (h : OrdinaryBody quote body) :
    regionsFrom ⟨.quoted quote, 0⟩ (body ++ rest)
      = List.replicate body.length (.token .literal false)
        ++ regionsFrom ⟨.quoted quote, 0⟩ rest := by
  induction h with
  | nil => rfl
  | @guarded c body hc _ ih =>
    have hstep : step ⟨.quoted quote, 0⟩ '\\' (c :: (body ++ rest))
        = (.token .literal false, ⟨.quoted quote, 1⟩) := by
      have hback : Text.isTerminator '\\' = false := rfl
      simp [step, Mode.endsWithLine, Mode.region, stepInside, guards, hc, hback]
    have hheld := regionsFrom_held (.quoted quote) [c] (body ++ rest)
    rw [List.cons_append, List.cons_append, regionsFrom_cons, hstep]
    simp only [List.length_cons, List.length_nil, Nat.zero_add, List.singleton_append] at hheld
    simp only [hheld, ih, List.length_cons, List.replicate_succ, Mode.region]
    rfl
  | @char c body hback hquote hterm _ ih =>
    have hstep : step ⟨.quoted quote, 0⟩ c (body ++ rest)
        = (.token .literal false, ⟨.quoted quote, 0⟩) := by
      simp [step, Mode.endsWithLine, Mode.region, stepInside, hback, hquote, hterm]
    rw [List.cons_append, regionsFrom_cons, hstep, ih]
    rfl

/-- The quotes of ordinary literals are visible characters other than the backslash. -/
theorem quote_of_opener {opener : Text} {quote : Char}
    (hopener : opener ∈ TokenRule.ordinary.openers) (hlast : opener.getLast? = some quote) :
    quote = '"' ∨ quote = '\'' := by
  simp only [TokenRule.openers, List.mem_cons, List.not_mem_nil, or_false] at hopener
  rcases hopener with rfl | rfl | rfl <;> cases Option.some.inj hlast <;> decide

/-- Behind the opener of a verbatim literal the scanner is inside of it. -/
theorem regionsFrom_verbatimOpener {opener : Text} (t : Text)
    (h : opener ∈ TokenRule.verbatim.openers) :
    regionsFrom .ground (opener ++ t)
      = tokenRegions .literal opener.length ++ regionsFrom ⟨.verbatim, 0⟩ t := by
  simp only [TokenRule.openers, List.mem_cons, List.not_mem_nil, or_false] at h
  rcases h with rfl | rfl | rfl <;> rfl

/-- Behind the opener of an ordinary literal the scanner is inside of it. -/
theorem regionsFrom_ordinaryOpener {opener : Text} {quote : Char} (t : Text)
    (h : opener ∈ TokenRule.ordinary.openers) (hlast : opener.getLast? = some quote) :
    regionsFrom .ground (opener ++ t)
      = tokenRegions .literal opener.length ++ regionsFrom ⟨.quoted quote, 0⟩ t := by
  simp only [TokenRule.openers, List.mem_cons, List.not_mem_nil, or_false] at h
  rcases h with rfl | rfl | rfl <;> cases Option.some.inj hlast <;> rfl

/-- A token goes on with the regions of its inside. -/
theorem tokenRegions_append (kind : Kind) {n : Nat} (k : Nat) (h : 0 < n) :
    tokenRegions kind n ++ List.replicate k (.token kind false) = tokenRegions kind (n + k) := by
  obtain ⟨m, rfl⟩ := Nat.exists_eq_add_one_of_ne_zero (Nat.ne_of_gt h)
  simp only [tokenRegions, List.cons_append, ← List.replicate_add, Nat.add_right_comm]

theorem opener_pos {rule : TokenRule} {opener : Text} (h : opener ∈ rule.openers) :
    0 < opener.length := by
  cases rule <;> simp only [TokenRule.openers, List.mem_cons, List.not_mem_nil, or_false] at h <;>
    rcases h with rfl | rfl | rfl <;> decide

/-- Two stretches of the inside of a token, one behind the other, are one. -/
theorem regionsFrom_inside {s s' : State} {kind : Kind} {body closing rest : Text}
    (hbody : regionsFrom s (body ++ (closing ++ rest))
      = List.replicate body.length (.token kind false) ++ regionsFrom s' (closing ++ rest))
    (hclosing : regionsFrom s' (closing ++ rest)
      = List.replicate closing.length (.token kind false) ++ regionsFrom .ground rest) :
    regionsFrom s (body ++ closing ++ rest)
      = List.replicate (body ++ closing).length (.token kind false)
        ++ regionsFrom .ground rest := by
  rw [List.append_assoc, hbody, hclosing, ← List.append_assoc, ← List.replicate_add,
    List.length_append]

/-- An opener and the inside behind it make a token. -/
theorem regionsFrom_opened {s : State} {kind : Kind} {opener inside rest : Text}
    (hpos : 0 < opener.length)
    (hopener : regionsFrom .ground (opener ++ (inside ++ rest))
      = tokenRegions kind opener.length ++ regionsFrom s (inside ++ rest))
    (hinside : regionsFrom s (inside ++ rest)
      = List.replicate inside.length (.token kind false) ++ regionsFrom .ground rest) :
    regionsFrom .ground (opener ++ inside ++ rest)
      = tokenRegions kind (opener ++ inside).length ++ regionsFrom .ground rest := by
  rw [List.append_assoc, hopener, hinside, ← List.append_assoc, tokenRegions_append kind _ hpos,
    List.length_append]

/-- A quote that is not the first half of a pair closes a verbatim literal. -/
theorem regionsFrom_verbatimClose {rest : Text} (hrest : rest.head? ≠ some '"') :
    regionsFrom ⟨.verbatim, 0⟩ ('"' :: rest) = .token .literal false :: regionsFrom .ground rest := by
  have hno : (rest.head? == some '"') = false := by simpa using hrest
  rw [regionsFrom_cons]
  simp [step, Mode.endsWithLine, Mode.region, stepInside, hno]

/-- At the end of its line an ordinary literal ends too, and a backslash there guards nothing. -/
theorem regionsFrom_ordinaryTail {quote : Char} {tail rest : Text} (htail : tail = [] ∨ tail = ['\\'])
    (hend : AtLineEnd rest) :
    regionsFrom ⟨.quoted quote, 0⟩ (tail ++ rest)
      = List.replicate tail.length (.token .literal false) ++ regionsFrom .ground rest := by
  rw [← regionsFrom_atLineEnd (.quoted quote) rfl hend]
  rcases htail with rfl | rfl
  · rfl
  · have hguards : guards rest = false := by
      obtain rfl | ⟨c, t, rfl, hc⟩ := hend
      · rfl
      · simp [guards, hc]
    have hback : Text.isTerminator '\\' = false := rfl
    rw [List.singleton_append, regionsFrom_cons]
    simp [step, Mode.endsWithLine, Mode.region, stepInside, hguards, hback]

/-- **The scanner takes a lexeme whole** and is outside of comments and literals behind it. -/
theorem regionsFrom_lexeme {rule : TokenRule} {lexeme rest : Text} (h : Lexeme rule lexeme rest) :
    regionsFrom .ground (lexeme ++ rest)
      = tokenRegions rule.kind lexeme.length ++ regionsFrom .ground rest := by
  cases h with
  | @lineComment body rest hbody hend =>
    have hinside := regionsFrom_lineBody rest hbody
    rw [regionsFrom_atLineEnd .lineComment rfl hend] at hinside
    have hpos : 0 < ['/', '/'].length := by decide
    exact regionsFrom_opened hpos rfl hinside
  | @blockComment body rest hbody =>
    have hinside : regionsFrom ⟨.blockComment, 0⟩ (body ++ ['*', '/'] ++ rest)
        = List.replicate (body ++ ['*', '/']).length (.token .comment false)
          ++ regionsFrom .ground rest := by
      rw [List.append_assoc, List.length_append]
      exact regionsFrom_blockBody rest hbody
    have hpos : 0 < ['/', '*'].length := by decide
    exact regionsFrom_opened hpos rfl hinside
  | @openBlockComment body hbody =>
    have hinside : regionsFrom ⟨.blockComment, 0⟩ (body ++ [])
        = List.replicate body.length (.token .comment false) ++ regionsFrom .ground [] := by
      rw [List.append_nil, regionsFrom_openBlockBody hbody]
      exact (List.append_nil _).symm
    have hpos : 0 < ['/', '*'].length := by decide
    exact regionsFrom_opened hpos rfl hinside
  | @verbatim opener body rest hopener hbody hrest =>
    have hinside := regionsFrom_inside (regionsFrom_verbatimBody (['"'] ++ rest) hbody)
      (regionsFrom_verbatimClose hrest)
    rw [List.append_assoc opener]
    exact regionsFrom_opened (opener_pos hopener) (regionsFrom_verbatimOpener _ hopener) hinside
  | @openVerbatim opener body hopener hbody =>
    -- an open literal goes on to the end of the text, where no character is left to close it
    exact regionsFrom_opened (opener_pos hopener) (regionsFrom_verbatimOpener _ hopener)
      (regionsFrom_verbatimBody [] hbody)
  | @ordinary opener body rest quote hopener hlast hbody =>
    have hclose : regionsFrom ⟨.quoted quote, 0⟩ (quote :: rest)
        = .token .literal false :: regionsFrom .ground rest := by
      rcases quote_of_opener hopener hlast with rfl | rfl <;> rfl
    have hinside := regionsFrom_inside (regionsFrom_ordinaryBody ([quote] ++ rest) hbody) hclose
    rw [List.append_assoc opener]
    exact regionsFrom_opened (opener_pos hopener) (regionsFrom_ordinaryOpener _ hopener hlast)
      hinside
  | @openOrdinary opener body tail rest quote hopener hlast hbody htail hend =>
    have hinside := regionsFrom_inside (regionsFrom_ordinaryBody (tail ++ rest) hbody)
      (regionsFrom_ordinaryTail htail hend)
    rw [List.append_assoc opener]
    exact regionsFrom_opened (opener_pos hopener) (regionsFrom_ordinaryOpener _ hopener hlast)
      hinside

/-! ## Every text has a segmentation -/

theorem exists_lineBody (t : Text) :
    ∃ body rest, t = body ++ rest ∧ (∀ c ∈ body, Text.isTerminator c = false)
      ∧ AtLineEnd rest := by
  induction t with
  | nil => exact ⟨[], [], rfl, by simp, .inl rfl⟩
  | cons c t ih =>
    cases hc : Text.isTerminator c with
    | true => exact ⟨[], c :: t, rfl, by simp, .inr ⟨c, t, rfl, hc⟩⟩
    | false =>
      obtain ⟨body, rest, rfl, hbody, hend⟩ := ih
      exact ⟨c :: body, rest, rfl, by simpa [hc] using hbody, hend⟩

/-- A text holds a first `*/` or none. -/
theorem exists_blockBody (t : Text) :
    (∃ body rest, t = body ++ '*' :: '/' :: rest ∧ ¬ ['*', '/'] <:+: body ++ ['*'])
      ∨ ¬ ['*', '/'] <:+: t := by
  induction t with
  | nil => exact .inr (by simp)
  | cons c t ih =>
    by_cases hp : ['*', '/'] <+: c :: t
    · obtain ⟨rest, hrest⟩ := hp
      exact .inl ⟨[], rest, hrest.symm, by decide⟩
    · rcases ih with ⟨body, rest, rfl, hbody⟩ | hno
      · refine .inl ⟨c :: body, rest, rfl, ?_⟩
        rw [List.cons_append, List.infix_cons_iff]
        rintro (hfront | hi)
        · refine hp (hfront.trans ?_)
          exact ⟨'/' :: rest, by simp⟩
        · exact hbody hi
      · exact .inr (fun hi => (List.infix_cons_iff.mp hi).elim hp hno)

/-- A verbatim literal is closed by a first lone quote, or by none. -/
theorem exists_verbatimBody (t : Text) :
    (∃ body rest, t = body ++ '"' :: rest ∧ VerbatimBody body ∧ rest.head? ≠ some '"')
      ∨ VerbatimBody t := by
  -- a pair takes two characters at once, so the induction is on the length
  induction hn : t.length using Nat.strong_induction_on generalizing t with
  | _ n ih =>
    match t with
    | [] => exact .inr .nil
    | c :: t =>
      simp only [List.length_cons] at hn
      by_cases hc : c = '"'
      · subst hc
        by_cases hpair : t.head? = some '"'
        · obtain ⟨t, rfl⟩ := List.head?_eq_some_iff.mp hpair
          simp only [List.length_cons] at hn
          rcases ih t.length (by omega) t rfl with ⟨body, rest, rfl, hbody, hrest⟩ | hall
          · exact .inl ⟨'"' :: '"' :: body, rest, rfl, .pair hbody, hrest⟩
          · exact .inr (.pair hall)
        · exact .inl ⟨[], t, rfl, .nil, hpair⟩
      · rcases ih t.length (by omega) t rfl with ⟨body, rest, rfl, hbody, hrest⟩ | hall
        · exact .inl ⟨c :: body, rest, rfl, .char hc hbody, hrest⟩
        · exact .inr (.char hc hall)

/-- An ordinary literal is closed by its first quote that is not guarded, or it ends with its
line. -/
theorem exists_ordinaryBody (quote : Char) (t : Text) :
    (∃ body rest, t = body ++ quote :: rest ∧ OrdinaryBody quote body)
      ∨ ∃ body tail rest, t = body ++ tail ++ rest ∧ OrdinaryBody quote body
        ∧ (tail = [] ∨ tail = ['\\']) ∧ AtLineEnd rest := by
  -- on the length, since a backslash takes the character behind it along
  induction hn : t.length using Nat.strong_induction_on generalizing t with
  | _ n ih =>
    match t with
    | [] => exact .inr ⟨[], [], [], rfl, .nil, .inl rfl, .inl rfl⟩
    | c :: t =>
      simp only [List.length_cons] at hn
      cases hterm : Text.isTerminator c with
      | true => exact .inr ⟨[], [], c :: t, rfl, .nil, .inl rfl, .inr ⟨c, t, rfl, hterm⟩⟩
      | false =>
        by_cases hquote : c = quote
        · exact .inl ⟨[], t, by rw [hquote]; rfl, .nil⟩
        by_cases hback : c = '\\'
        · subst hback
          match t with
          | [] => exact .inr ⟨[], ['\\'], [], rfl, .nil, .inr rfl, .inl rfl⟩
          | d :: t =>
            simp only [List.length_cons] at hn
            cases hd : Text.isTerminator d with
            | true =>
              exact .inr ⟨[], ['\\'], d :: t, rfl, .nil, .inr rfl, .inr ⟨d, t, rfl, hd⟩⟩
            | false =>
              rcases ih t.length (by omega) t rfl with
                ⟨body, rest, rfl, hbody⟩ | ⟨body, tail, rest, rfl, hbody, htail, hend⟩
              · exact .inl ⟨'\\' :: d :: body, rest, rfl, .guarded hd hbody⟩
              · exact .inr ⟨'\\' :: d :: body, tail, rest, rfl, .guarded hd hbody, htail, hend⟩
        · rcases ih t.length (by omega) t rfl with
            ⟨body, rest, rfl, hbody⟩ | ⟨body, tail, rest, rfl, hbody, htail, hend⟩
          · exact .inl ⟨c :: body, rest, rfl, .char hback hquote hterm hbody⟩
          · exact .inr ⟨c :: body, tail, rest, rfl, .char hback hquote hterm hbody, htail, hend⟩

/-- **A rule that applies takes a lexeme.** -/
theorem exists_lexeme {rule : TokenRule} {t : Text} (h : rule.opens t = true) :
    ∃ lexeme rest, t = lexeme ++ rest ∧ Lexeme rule lexeme rest := by
  obtain ⟨opener, hopener, hp⟩ := List.any_eq_true.mp h
  obtain ⟨inside, rfl⟩ := List.isPrefixOf_iff_prefix.mp hp
  cases rule with
  | lineComment =>
    obtain rfl := List.mem_singleton.mp hopener
    obtain ⟨body, rest, rfl, hbody, hend⟩ := exists_lineBody inside
    exact ⟨_, rest, rfl, .lineComment hbody hend⟩
  | blockComment =>
    obtain rfl := List.mem_singleton.mp hopener
    rcases exists_blockBody inside with ⟨body, rest, rfl, hbody⟩ | hno
    · exact ⟨'/' :: '*' :: (body ++ ['*', '/']), rest, by simp, .blockComment hbody⟩
    · exact ⟨'/' :: '*' :: inside, [], by simp, .openBlockComment hno⟩
  | verbatim =>
    rcases exists_verbatimBody inside with ⟨body, rest, rfl, hbody, hrest⟩ | hall
    · exact ⟨opener ++ body ++ ['"'], rest, by simp, .verbatim hopener hbody hrest⟩
    · exact ⟨opener ++ inside, [], by simp, .openVerbatim hopener hall⟩
  | ordinary =>
    have hne : opener ≠ [] := List.length_pos_iff.mp (opener_pos hopener)
    have hlast := List.getLast?_eq_some_getLast hne
    rcases exists_ordinaryBody (opener.getLast hne) inside with
      ⟨body, rest, rfl, hbody⟩ | ⟨body, tail, rest, rfl, hbody, htail, hend⟩
    · exact ⟨opener ++ body ++ [opener.getLast hne], rest, by simp, .ordinary hopener hlast hbody⟩
    · exact ⟨opener ++ body ++ tail, rest, by simp, .openOrdinary hopener hlast hbody htail hend⟩

/-- No lexeme is empty. -/
theorem lexeme_ne_nil {rule : TokenRule} {lexeme rest : Text} (h : Lexeme rule lexeme rest) :
    lexeme ≠ [] := by
  cases h with
  | lineComment | blockComment | openBlockComment => simp
  | verbatim | ordinary => simp
  | openVerbatim hopener _ => simp [List.length_pos_iff.mp (opener_pos hopener)]
  | openOrdinary hopener _ _ _ _ => simp [List.length_pos_iff.mp (opener_pos hopener)]

/-- The first rule that applies does apply. -/
theorem opens_of_first? {rule : TokenRule} {t : Text} (h : TokenRule.first? t = some rule) :
    rule.opens t = true := by
  have hfound := List.find?_some h
  exact hfound

theorem exists_segments (t : Text) : ∃ ps, Segments t ps := by
  induction hn : t.length using Nat.strong_induction_on generalizing t with
  | _ n ih =>
    cases hrule : TokenRule.first? t with
    | none =>
      cases t with
      | nil => exact ⟨[], .done⟩
      | cons c rest =>
        obtain ⟨ps, hps⟩ := ih rest.length (by simp [← hn]) rest rfl
        exact ⟨.plain c :: ps, .plain hrule hps⟩
    | some rule =>
      obtain ⟨lexeme, rest, rfl, hlexeme⟩ := exists_lexeme (opens_of_first? hrule)
      have hpos : 0 < lexeme.length := List.length_pos_iff.mpr (lexeme_ne_nil hlexeme)
      have hlt : rest.length < n := by
        rw [← hn, List.length_append]
        omega
      obtain ⟨ps, hps⟩ := ih rest.length hlt rest rfl
      exact ⟨.token rule lexeme :: ps, .token hrule hlexeme hps⟩

/-! ## It is the only one, and the mask follows it -/

/-- Where no rule applies the scanner reads code. -/
theorem stepGround_of_first?_eq_none {c : Char} {rest : Text}
    (h : TokenRule.first? (c :: rest) = none) : stepGround c rest = (.code, .ground) := by
  have hno : ∀ rule ∈ TokenRule.all, ¬ rule.opens (c :: rest) = true := List.find?_eq_none.mp h
  simp only [TokenRule.all, List.mem_cons, List.not_mem_nil, or_false, forall_eq_or_imp, forall_eq,
    TokenRule.opens, TokenRule.openers, List.any_cons, List.any_nil] at hno
  unfold stepGround
  split <;> simp_all [List.isPrefixOf]

/-- Outside of comments and literals the scanner never goes on with a token. -/
theorem head_regionsFrom_ground (t : Text) (kind : Kind) :
    (regionsFrom .ground t).head? ≠ some (.token kind false) := by
  cases t with
  | nil => simp [regionsFrom]
  | cons c rest =>
    rw [regionsFrom_cons, List.head?_cons]
    simp only [step, State.ground]
    unfold stepGround
    split <;> simp

/-- A run of one region in front of another region has one length. -/
theorem replicate_append_inj {α : Type} {x : α} {m n : Nat} {s t : List α}
    (hs : s.head? ≠ some x) (ht : t.head? ≠ some x)
    (h : List.replicate m x ++ s = List.replicate n x ++ t) : m = n := by
  induction m generalizing n with
  | zero =>
    cases n with
    | zero => rfl
    | succ n => exact absurd (by rw [show s = _ from h]; rfl) hs
  | succ m ih =>
    cases n with
    | zero => exact absurd (by rw [show t = _ from h.symm]; rfl) ht
    | succ n =>
      simp only [List.replicate_succ, List.cons_append, List.cons.injEq, true_and] at h
      rw [ih h]

/-- **A rule takes one lexeme only:** two readings of one text by one rule cut it at one place. -/
theorem lexeme_unique {rule : TokenRule} {lexeme rest lexeme' rest' : Text}
    (h : Lexeme rule lexeme rest) (h' : Lexeme rule lexeme' rest')
    (heq : lexeme ++ rest = lexeme' ++ rest') : lexeme = lexeme' ∧ rest = rest' := by
  obtain ⟨n, hn⟩ := Nat.exists_eq_add_one_of_ne_zero
    (Nat.ne_of_gt (List.length_pos_iff.mpr (lexeme_ne_nil h)))
  obtain ⟨n', hn'⟩ := Nat.exists_eq_add_one_of_ne_zero
    (Nat.ne_of_gt (List.length_pos_iff.mpr (lexeme_ne_nil h')))
  have hregions : tokenRegions rule.kind lexeme.length ++ regionsFrom .ground rest
      = tokenRegions rule.kind lexeme'.length ++ regionsFrom .ground rest' := by
    rw [← regionsFrom_lexeme h, ← regionsFrom_lexeme h', heq]
  simp only [hn, hn', tokenRegions, List.cons_append, List.cons.injEq, true_and] at hregions
  have hlen : n = n' := replicate_append_inj (head_regionsFrom_ground rest rule.kind)
    (head_regionsFrom_ground rest' rule.kind) hregions
  exact List.append_inj heq (by rw [hn, hn', hlen])

theorem segments_unique {t : Text} {ps qs : List Piece} (hp : Segments t ps)
    (hq : Segments t qs) : ps = qs := by
  induction hp generalizing qs with
  | done =>
    generalize hnil : ([] : Text) = t at hq
    cases hq with
    | done => rfl
    | plain => cases hnil
    | token _ hlexeme _ =>
      exact absurd (List.append_eq_nil_iff.mp hnil.symm).1 (lexeme_ne_nil hlexeme)
  | @plain c rest ps hnone _ ih =>
    generalize ht : c :: rest = t at hq
    cases hq with
    | done => cases ht
    | plain _ htail =>
      obtain ⟨rfl, rfl⟩ := List.cons.inj ht
      rw [ih htail]
    | token hsome _ _ =>
      rw [← ht, hnone] at hsome
      cases hsome
  | @token rule lexeme rest ps hsome hlexeme _ ih =>
    generalize ht : lexeme ++ rest = t at hq
    cases hq with
    | done => exact absurd (List.append_eq_nil_iff.mp ht).1 (lexeme_ne_nil hlexeme)
    | plain hnone _ =>
      rw [← ht, hsome] at hnone
      cases hnone
    | token hsome' hlexeme' htail =>
      rw [← ht, hsome] at hsome'
      obtain rfl := Option.some.inj hsome'
      obtain ⟨rfl, rfl⟩ := lexeme_unique hlexeme hlexeme' ht
      rw [ih htail]

/-- Blanking a token blanks all of its characters. -/
theorem zipWith_tokenRegions (kind : Kind) (lexeme : Text) :
    List.zipWith (fun c (region : Region) => if region != .code then blankOut c else c) lexeme
      (tokenRegions kind lexeme.length) = lexeme.map blankOut := by
  have hinside : ∀ t : Text,
      List.zipWith (fun c (region : Region) => if region != .code then blankOut c else c) t
        (List.replicate t.length (.token kind false)) = t.map blankOut := by
    intro t
    induction t with
    | nil => rfl
    | cons c t ih =>
      rw [List.length_cons, List.replicate_succ, List.zipWith_cons_cons, ih]
      rfl
  cases lexeme with
  | nil => rfl
  | cons c t =>
    rw [List.length_cons, tokenRegions, List.zipWith_cons_cons, hinside]
    rfl

/-- The mask of a segmented text is put together from its pieces. -/
theorem mask_of_segments {t : Text} {ps : List Piece} (h : Segments t ps) :
    mask t = ps.flatMap Piece.masked := by
  induction h with
  | done => rfl
  | @plain c rest ps hnone _ ih =>
    have hstep : regionsFrom .ground (c :: rest) = .code :: regionsFrom .ground rest := by
      rw [regionsFrom_cons]
      simp only [step, State.ground, stepGround_of_first?_eq_none hnone]
    rw [List.flatMap_cons, ← ih]
    simp only [mask, blankWhere, regions, hstep, List.zipWith_cons_cons]
    rfl
  | @token rule lexeme rest ps _ hlexeme _ ih =>
    have hlen : lexeme.length = (tokenRegions rule.kind lexeme.length).length := by
      cases lexeme <;> simp [tokenRegions]
    rw [List.flatMap_cons, ← ih]
    simp only [mask, blankWhere, regions, regionsFrom_lexeme hlexeme]
    rw [List.zipWith_append hlen, zipWith_tokenRegions]
    rfl

/-- **The mask implements the grammar.** Every text has exactly one segmentation into plain
characters and tokens, and its mask keeps the plain characters and blanks the tokens. -/
theorem existsUnique_segments_mask (t : Text) :
    ∃ ps, Segments t ps ∧ (∀ qs, Segments t qs → qs = ps) ∧ mask t = ps.flatMap Piece.masked := by
  obtain ⟨ps, hps⟩ := exists_segments t
  exact ⟨ps, hps, fun _ hqs => segments_unique hqs hps, mask_of_segments hps⟩

end ChartLint.Lexing
