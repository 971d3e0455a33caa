/-
# Reading doubles

A decimal number is read as the double nearest to it. It has an optional sign,
digits with an optional point before, between or behind them, and an optional
exponent of ten. Instead of digits it may be the word for an infinity or for not
a number, in letters of either case.

A power of ten far outside the range of doubles is not computed: behind
`exponentLimit` places every number is infinite or zero.
-/

import ChronoSat.Double.Basic
import ChronoSat.Text.Numeral

namespace ChronoSat.Double

/-- A number with this many places in front of the point is infinite, and one
with this many zeros behind it is zero. -/
def exponentLimit : Int := 400

/-- The double nearest to a whole number times a power of ten, with a sign. -/
def ofDecimal (negative : Bool) (digits : Nat) (exponent : Int) : Double :=
  let places : Int := (Nat.toDigits 10 digits).length
  if digits = 0 then finite negative 0 minExponent
  else if exponentLimit < exponent + places then infinite negative
  else if exponent + places < -exponentLimit then finite negative 0 minExponent
  else nearest negative (digits * tenTo exponent.toNat) (tenTo (-exponent).toNat)

/-- The sign in front of a number, and what follows it. -/
def splitSign : List Char → Bool × List Char
  | '-' :: rest => (true, rest)
  | '+' :: rest => (false, rest)
  | rest => (false, rest)

/-- Reads an exponent of ten: an optional sign and digits. -/
def readExponent (text : List Char) : Option Int :=
  let (negative, digits) := splitSign text
  (Text.readDigits digits).map fun value => if negative then -(value : Int) else value

/-- Reads what follows the digits: nothing, or the mark and an exponent of ten. -/
def readScale : List Char → Option Int
  | [] => some 0
  | mark :: rest => if mark = 'e' || mark = 'E' then readExponent rest else none

/-- Reads digits with an optional point, and an optional exponent of ten. -/
def readDecimal (negative : Bool) (text : List Char) : Option Double :=
  let whole := text.takeWhile Char.isDigit
  let behind := text.dropWhile Char.isDigit
  let (fraction, scale) := match behind with
    | '.' :: rest => (rest.takeWhile Char.isDigit, rest.dropWhile Char.isDigit)
    | rest => ([], rest)
  if whole.isEmpty && fraction.isEmpty then none
  else
    (readScale scale).map fun exponent =>
      ofDecimal negative (Text.digitsFrom 0 (whole ++ fraction)) (exponent - fraction.length)

/-- Reads a number from its text. -/
def read (text : String) : Option Double :=
  let (negative, magnitude) := splitSign text.toList
  let word := String.ofList (magnitude.map Char.toLower)
  if word = "inf" || word = "infinity" then some (infinite negative)
  else if word = "nan" then some nan
  else readDecimal negative magnitude

end ChronoSat.Double
