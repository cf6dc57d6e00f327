/-!
# Decimal digits

Unicode gives every script that counts in tens its own digits, always as ten
consecutive code points from zero to nine. A numeral is a non-empty row of such
digits, of whatever scripts, and is read with each digit at its value. Numerals
beyond a certain length are neither read nor written.
-/

namespace SmtDialogue.Text

/-- The code points of the zeros: each opens a row of ten decimal digits. -/
def decimalZeros : List Nat :=
  [0x30, 0x660, 0x6F0, 0x7C0, 0x966, 0x9E6, 0xA66, 0xAE6, 0xB66,
   0xBE6, 0xC66, 0xCE6, 0xD66, 0xDE6, 0xE50, 0xED0, 0xF20, 0x1040,
   0x1090, 0x17E0, 0x1810, 0x1946, 0x19D0, 0x1A80, 0x1A90, 0x1B50, 0x1BB0,
   0x1C40, 0x1C50, 0xA620, 0xA8D0, 0xA900, 0xA9D0, 0xA9F0, 0xAA50, 0xABF0,
   0xFF10, 0x104A0, 0x10D30, 0x11066, 0x110F0, 0x11136, 0x111D0, 0x112F0, 0x11450,
   0x114D0, 0x11650, 0x116C0, 0x11730, 0x118E0, 0x11950, 0x11C50, 0x11D50, 0x11DA0,
   0x16A60, 0x16AC0, 0x16B50, 0x1D7CE, 0x1D7D8, 0x1D7E2, 0x1D7EC, 0x1D7F6, 0x1E140,
   0x1E2F0, 0x1E950, 0x1FBF0]

/-- The value of a decimal digit, and none for any other character. -/
def digitValue? (c : Char) : Option Nat :=
  (decimalZeros.find? fun start => start ≤ c.toNat && c.toNat < start + 10).map (c.toNat - ·)

/-- Whether a character is a decimal digit of some script. -/
def isDecimalDigit (c : Char) : Bool :=
  (digitValue? c).isSome

/-- The number that a row of digits denotes, on top of what has been read; none
as soon as a character is no digit. -/
def readDigits (value : Nat) : List Char → Option Nat
  | [] => some value
  | c :: rest => (digitValue? c).bind fun d => readDigits (10 * value + d) rest

/-- The number that a numeral denotes; none for the empty text and for any text
with a character that is no decimal digit. -/
def numeral? (s : String) : Option Nat :=
  match s.toList with
  | [] => none
  | c :: rest => readDigits 0 (c :: rest)

/-- The most digits of a numeral, leading zeros included. -/
def longestNumeral : Nat := 4300

end SmtDialogue.Text
