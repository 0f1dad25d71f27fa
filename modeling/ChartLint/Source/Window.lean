import ChartLint.Pattern.Build

/-!
# Windows of lines

What a rule sees around a line: the lines in front of it up to a given distance, or the attribute
block above a declaration, which ends at the line that ends the previous member.
-/

namespace ChartLint.Source

open Pattern

/-- A line together with at most `depth` lines above it, as one text. -/
def contextOf (ls : List Text) (line depth : Nat) : Text :=
  Text.joinLines ((ls.take line).drop (line - 1 - depth))

/-- A line that ends a member: its last visible character is a semicolon or a closing brace. -/
def memberEnd : Pattern :=
  .one (oneOf [';', '}']) ++ blanks ++ .textEnd

end ChartLint.Source
