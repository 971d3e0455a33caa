/-
# Decimal numerals

Readers for whole numbers as they stand in clause files and on command lines. A
numeral is one or more ASCII digits; an unsigned one may carry a leading `+`, a
signed one a `+` or a `-`. Both readers refuse a value outside the range they
are asked for, so a numeral that is too long is not a number at all.
-/

namespace ChronoSat.Text

/-- The value of one ASCII digit. -/
def digitValue (digit : Char) : Nat :=
  digit.toNat - '0'.toNat

/-- The number that a run of digits spells, after the digits already read. -/
def digitsFrom (value : Nat) (digits : List Char) : Nat :=
  digits.foldl (fun value digit => 10 * value + digitValue digit) value

/-- Reads one or more digits and nothing else. -/
def readDigits (text : List Char) : Option Nat :=
  if text.isEmpty || !text.all Char.isDigit then none
  else some (digitsFrom 0 text)

/-- The largest number that an unsigned numeral may spell. -/
def unsignedLimit : Nat := 0xFFFFFFFFFFFFFFFF

/-- Reads an unsigned numeral: an optional `+`, digits, a value of at most
`unsignedLimit`. -/
def readUnsigned (text : String) : Option Nat :=
  let digits := match text.toList with
    | '+' :: rest => rest
    | all => all
  (readDigits digits).filter (· ≤ unsignedLimit)

/-- The magnitude that no signed numeral exceeds; only a negative one reaches it. -/
def signedLimit : Nat := 0x8000000000000000

/-- Reads a signed numeral: an optional `+` or `-`, digits, a value from
`-signedLimit` up to but not including `signedLimit`. -/
def readSigned (text : String) : Option Int :=
  match text.toList with
  | '-' :: digits =>
    ((readDigits digits).filter (· ≤ signedLimit)).map fun magnitude => -(magnitude : Int)
  | '+' :: digits => ((readDigits digits).filter (· < signedLimit)).map fun value => (value : Int)
  | digits => ((readDigits digits).filter (· < signedLimit)).map fun value => (value : Int)

end ChronoSat.Text
