import ChartLint.Text.Basic

/-!
# Blanks

The blank characters of the Unicode standard that scripts, requests and settings treat as
white space, and trimming by them. The zero width space, the Mongolian vowel separator and the
byte order mark are not blank.
-/

namespace ChartLint.Text

/-- A white space character of any script, the four information separators included. -/
def isBlank (c : Char) : Bool :=
  let n := c.toNat
  (0x09 ≤ n && n ≤ 0x0D) || (0x1C ≤ n && n ≤ 0x20) || n == 0x85 || n == 0xA0 || n == 0x1680
    || (0x2000 ≤ n && n ≤ 0x200A) || n == 0x2028 || n == 0x2029 || n == 0x202F || n == 0x205F
    || n == 0x3000

/-- What ends a line is blank. -/
theorem isBlank_of_isTerminator {c : Char} (h : isTerminator c = true) : isBlank c = true := by
  rcases (by simpa [isTerminator] using h : c = '\n' ∨ c = '\r') with rfl | rfl <;> decide

/-- Drops the leading characters of a class. -/
def trimStartBy (cls : Char → Bool) (t : Text) : Text :=
  t.dropWhile cls

/-- Drops the trailing characters of a class. -/
def trimEndBy (cls : Char → Bool) (t : Text) : Text :=
  (t.reverse.dropWhile cls).reverse

/-- Drops the characters of a class at both ends. -/
def trimBy (cls : Char → Bool) (t : Text) : Text :=
  trimEndBy cls (trimStartBy cls t)

/-- Drops the blanks at both ends. -/
def trim (t : Text) : Text :=
  trimBy isBlank t

/-- Drops the blanks at the end. -/
def trimEnd (t : Text) : Text :=
  trimEndBy isBlank t

/-- The leading run of spaces and tabs: the indentation of a line. -/
def indent (line : Text) : Text :=
  line.takeWhile (fun c => c == ' ' || c == '\t')

end ChartLint.Text
