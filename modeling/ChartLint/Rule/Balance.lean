import ChartLint.Rule.Basic
import ChartLint.Text.Blank

/-!
# Balance of delimiters and regions

Braces, parentheses and brackets are counted apart from each other. A closer without opener is
reported where it stands and forgotten; openers that are still open at the end are reported there,
one report for each kind. Region markers follow the same law line by line; since they only fold
text, their imbalance is a warning.
-/

namespace ChartLint.Rule.Balance

/-! ## Delimiters -/

/-- A kind of paired delimiter. -/
inductive Delimiter where
  | brace
  | parenthesis
  | bracket
deriving DecidableEq, Repr

namespace Delimiter

/-- The three kinds, in the order of the final reports. -/
def all : List Delimiter :=
  [.brace, .parenthesis, .bracket]

/-- The character that opens a pair. -/
def opener : Delimiter → Char
  | .brace => '{'
  | .parenthesis => '('
  | .bracket => '['

/-- The character that closes a pair. -/
def closer : Delimiter → Char
  | .brace => '}'
  | .parenthesis => ')'
  | .bracket => ']'

/-- The word for a delimiter in messages. -/
def label : Delimiter → String
  | .brace => "brace"
  | .parenthesis => "parenthesis"
  | .bracket => "bracket"

/-- The kind that a character opens. -/
def ofOpener? (c : Char) : Option Delimiter :=
  all.find? (fun d => d.opener == c)

/-- The kind that a character closes. -/
def ofCloser? (c : Char) : Option Delimiter :=
  all.find? (fun d => d.closer == c)

end Delimiter

/-- How many delimiters of each kind are open. -/
structure Depths where
  brace : Nat
  parenthesis : Nat
  bracket : Nat
deriving DecidableEq, Repr

namespace Depths

/-- Nothing is open. -/
def zero : Depths :=
  ⟨0, 0, 0⟩

/-- The depth of one kind. -/
def get (depths : Depths) : Delimiter → Nat
  | .brace => depths.brace
  | .parenthesis => depths.parenthesis
  | .bracket => depths.bracket

/-- The depths with another depth of one kind. -/
def set (depths : Depths) (d : Delimiter) (n : Nat) : Depths :=
  match d with
  | .brace => { depths with brace := n }
  | .parenthesis => { depths with parenthesis := n }
  | .bracket => { depths with bracket := n }

theorem get_set (depths : Depths) (d e : Delimiter) (n : Nat) :
    (depths.set d n).get e = if e = d then n else depths.get e := by
  cases d <;> cases e <;> rfl

/-- The depths behind a character. A closer without opener leaves its depth at zero. -/
def after (depths : Depths) (c : Char) : Depths :=
  match Delimiter.ofOpener? c, Delimiter.ofCloser? c with
  | some d, _ => depths.set d (depths.get d + 1)
  | none, some d => depths.set d (depths.get d - 1)
  | none, none => depths

end Depths

/-- A closer without opener. -/
structure Stray where
  delimiter : Delimiter
  line : Nat
deriving DecidableEq, Repr

/-- The stray that a character is, if it is one. -/
def strayAt? (depths : Depths) (line : Nat) (c : Char) : Option Stray :=
  match Delimiter.ofCloser? c with
  | some d => if depths.get d = 0 then some ⟨d, line⟩ else none
  | none => none

/-- The closers without opener, from the left. -/
def straysFrom : Depths → Nat → Text → List Stray
  | _, _, [] => []
  | depths, line, c :: rest =>
    (strayAt? depths line c).toList
      ++ straysFrom (depths.after c) (if c = '\n' then line + 1 else line) rest

/-- What is open at the end of a text. -/
def openAtEnd (t : Text) : Depths :=
  t.foldl Depths.after Depths.zero

/-- The report on a stray closer. -/
def Stray.finding (s : Stray) : Finding :=
  .error s.line s!"Unmatched closing {s.delimiter.label} '{s.delimiter.closer}'"

/-- The report on the openers of one kind that are never closed. -/
def unclosed? (depths : Depths) (last : Nat) (d : Delimiter) : Option Finding :=
  let n := depths.get d
  if n = 0 then none
  else some (.error last s!"{n} unclosed {d.label}(s) '{d.opener}' at end of file")

/-- The reports on delimiters. -/
def delimiterFindings (masked : Text) : List Finding :=
  (straysFrom .zero 1 masked).map Stray.finding
    ++ Delimiter.all.filterMap (unclosed? (openAtEnd masked) (Text.lines masked).length)

/-! ## Regions -/

/-- A line that opens or closes a region. -/
inductive RegionMarker where
  | opens
  | closes
deriving DecidableEq, Repr

/-- The region marker on a line. -/
def regionMarker? (line : Text) : Option RegionMarker :=
  let stripped := Text.trim line
  if "#endregion".toList.isPrefixOf stripped then some .closes
  else if "#region".toList.isPrefixOf stripped then some .opens
  else none

/-- The number of open regions behind a line. -/
def regionDepthAfter (depth : Nat) (line : Text) : Nat :=
  match regionMarker? line with
  | some .opens => depth + 1
  | some .closes => depth - 1
  | none => depth

/-- The reports on regions, for the lines from number `number` on with `depth` regions open; the
last line of the text has the number `last`. -/
def regionFindingsFrom (last : Nat) : Nat → Nat → List Text → List Finding
  | depth, _, [] =>
    if depth = 0 then [] else [.warning last s!"{depth} #region without #endregion"]
  | depth, number, line :: rest =>
    let stray :=
      if depth = 0 ∧ regionMarker? line = some .closes then
        [Finding.warning number "#endregion without matching #region"]
      else
        []
    stray ++ regionFindingsFrom last (regionDepthAfter depth line) (number + 1) rest

/-- The reports on regions. -/
def regionFindings (masked : Text) : List Finding :=
  let ls := Text.lines masked
  regionFindingsFrom ls.length 0 1 ls

end Balance

/-- Delimiters and regions are balanced. -/
def balance : Rule :=
  ofMasked "syntax" "SyntaxChecker"
    (fun masked => Balance.delimiterFindings masked ++ Balance.regionFindings masked)

end ChartLint.Rule
