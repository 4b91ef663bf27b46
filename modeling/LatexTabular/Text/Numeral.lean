import LatexTabular.Text.Basic

/-!
# Decimal numerals

Numbers in documents and arguments are unsigned and fit one 64-bit word.  They
are read from ASCII digits, with an optional plus sign and any number of leading
zeros, and written without either.
-/

namespace LatexTabular.Text

/-- The least number that no longer fits a word, two to the power of 64. -/
def wordLimit : Nat := 0x10000000000000000

def isDigit (character : Char) : Bool := '0' ≤ character && character ≤ '9'

/-- The value of a row of ASCII digits. -/
def digitsValue (digits : Text) : Nat :=
  digits.foldl (fun value digit => value * 10 + (digit.toNat - '0'.toNat)) 0

/-- The number a row of digits writes, if it is one and fits a word. -/
def digits? (text : Text) : Option Nat :=
  if !text.isEmpty && text.all isDigit && digitsValue text < wordLimit then
    some (digitsValue text)
  else none

/-- The number a numeral writes; one plus sign may stand in front. -/
def number? : Text → Option Nat
  | '+' :: digits => digits? digits
  | digits => digits? digits

/-- The shortest numeral of a number. -/
def ofNumber (value : Nat) : Text := Nat.toDigits 10 value

end LatexTabular.Text
