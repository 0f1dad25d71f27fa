import ChartLint.Text.Blank

/-!
# Decimal digits and numerals

Every script that has decimal digits has ten of them in a row, from its zero to its nine; a
numeral may mix scripts. Two readings are built on that: the value of a run of digits, and the
numeral of a setting, which allows blanks around it, one sign, and single underscores between
digits. Neither reads more than `digitLimit` digits.
-/

namespace ChartLint.Text

/-- The code points of the digit zero, one for each row of ten decimal digits. -/
def zeros : List Nat :=
  [0x0030, 0x0660, 0x06F0, 0x07C0, 0x0966, 0x09E6, 0x0A66, 0x0AE6, 0x0B66, 0x0BE6, 0x0C66, 0x0CE6,
   0x0D66, 0x0DE6, 0x0E50, 0x0ED0, 0x0F20, 0x1040, 0x1090, 0x17E0, 0x1810, 0x1946, 0x19D0, 0x1A80,
   0x1A90, 0x1B50, 0x1BB0, 0x1C40, 0x1C50, 0xA620, 0xA8D0, 0xA900, 0xA9D0, 0xA9F0, 0xAA50, 0xABF0,
   0xFF10, 0x104A0, 0x10D30, 0x11066, 0x110F0, 0x11136, 0x111D0, 0x112F0, 0x11450, 0x114D0,
   0x11650, 0x116C0, 0x11730, 0x118E0, 0x11950, 0x11C50, 0x11D50, 0x11DA0, 0x16A60, 0x16AC0,
   0x16B50, 0x1D7CE, 0x1D7D8, 0x1D7E2, 0x1D7EC, 0x1D7F6, 0x1E140, 0x1E2F0, 0x1E950, 0x1FBF0]

/-- The value of a decimal digit of any script. -/
def digitValue? (c : Char) : Option Nat :=
  let n := c.toNat
  if n < 0x80 then
    if c.isDigit then some (n - 0x30) else none
  else
    (zeros.find? (fun z => z ≤ n && n < z + 10)).map (n - ·)

/-- A decimal digit of any script. -/
def isDecimal (c : Char) : Bool :=
  (digitValue? c).isSome

/-- The number that a run of decimal digits writes; leading zeros are allowed. -/
def decimalValue (digits : Text) : Nat :=
  digits.foldl (fun acc c => 10 * acc + (digitValue? c).getD 0) 0

/-- The longest run of digits that is read as a number, leading zeros counted. -/
def digitLimit : Nat := 4300

/-- A blank that may surround the numeral of a setting: every blank but the four information
separators. -/
def isNumeralPad (c : Char) : Bool :=
  isBlank c && !(0x1C ≤ c.toNat && c.toNat ≤ 0x1F)

/-- Removes the underscores of a digit run in which each stands between two digits; `none` when
one does not, and when a character is neither a digit nor an underscore. -/
def plainDigits? : Text → Option Text
  | [] => none
  | [c] => if isDecimal c then some [c] else none
  | c :: '_' :: rest => if isDecimal c then (plainDigits? rest).map (c :: ·) else none
  | c :: rest => if isDecimal c then (plainDigits? rest).map (c :: ·) else none

/-- The magnitude of a numeral without its sign. -/
def magnitude? (t : Text) : Option Nat :=
  match plainDigits? t with
  | none => none
  | some digits => if digits.length ≤ digitLimit then some (decimalValue digits) else none

/-- The integer that a setting writes, or `none` when it writes none. -/
def numeral? (t : Text) : Option Int :=
  match trimBy isNumeralPad t with
  | '-' :: rest => (magnitude? rest).map (fun n => -(n : Int))
  | '+' :: rest => (magnitude? rest).map (fun n => (n : Int))
  | rest => (magnitude? rest).map (fun n => (n : Int))

end ChartLint.Text
