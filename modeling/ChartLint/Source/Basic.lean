import ChartLint.Lexing
import ChartLint.Source.Lookup

/-!
# Sources

A source is a script together with its masked twin, made once and shared by all rules. A rule
that looks for code reads the twin; a rule that needs the text of a literal reads the script at
the same offsets.
-/

namespace ChartLint

/-- A script and its masked twin. -/
structure Source where
  code : Text
  masked : Text
  masked_eq : masked = Lexing.mask code

namespace Source

/-- The source of a script. -/
def ofCode (code : Text) : Source :=
  ⟨code, Lexing.mask code, rfl⟩

/-- Whether the character at an offset lies in a comment or a literal, as far as blanking can
tell: a blank looks the same in both twins. A fault where there is no such character. -/
def inToken (src : Source) (offset : Nat) : Except Fault Bool := do
  let shown ← charAt src.masked offset
  let written ← charAt src.code offset
  return shown != written

end Source

end ChartLint
