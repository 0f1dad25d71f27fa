import ChartLint.Text.Basic

/-!
# Brackets in masked text

Two scans that keep a depth: from an opening brace to the one that closes it, and from the start
of a call argument to its end. Both work on any text, balanced or not.
-/

namespace ChartLint.Source

/-- The offset of the first closing brace that brings the depth back to zero. -/
def closingFrom? : Int → Nat → Text → Option Nat
  | _, _, [] => none
  | depth, pos, c :: rest =>
    if c = '{' then
      closingFrom? (depth + 1) (pos + 1) rest
    else if c = '}' then
      if depth = 1 then some pos else closingFrom? (depth - 1) (pos + 1) rest
    else
      closingFrom? depth (pos + 1) rest

/-- The offset of the brace that closes the one at offset `opener`, or the length of the text when
none does. -/
def matchingBrace (t : Text) (opener : Nat) : Nat :=
  (closingFrom? 0 opener (t.drop opener)).getD t.length

/-- The end of a call argument from which `depth` brackets are still open: the next comma or
semicolon outside of brackets, the next bracket that closes none of them, or the end of the
text. -/
def argumentEndFrom : Nat → Nat → Text → Nat
  | _, pos, [] => pos
  | depth, pos, c :: rest =>
    if c = '(' ∨ c = '[' ∨ c = '{' then
      argumentEndFrom (depth + 1) (pos + 1) rest
    else if c = ')' ∨ c = ']' ∨ c = '}' then
      if depth = 0 then pos else argumentEndFrom (depth - 1) (pos + 1) rest
    else if (c = ',' ∨ c = ';') ∧ depth = 0 then
      pos
    else
      argumentEndFrom depth (pos + 1) rest

/-- The call argument that starts at an offset. -/
def argumentAt (t : Text) (start : Nat) : Span :=
  ⟨start, argumentEndFrom 0 start (t.drop start)⟩

/-- The offset of the first character `c` at or behind an offset. -/
def indexFrom? (t : Text) (c : Char) (start : Nat) : Option Nat :=
  ((t.drop start).findIdx? (· == c)).map (start + ·)

end ChartLint.Source
