/-
# Writing doubles

A double is written in two ways. `render` takes as few digits as it takes to
read the same double back, and of these the digits nearest to it; it always
writes them around a point and never with an exponent, and a whole number
without a point. `renderFixed` takes a fixed number of places and rounds the
exact value, half to the even digit.

To find the fewest digits it is enough to look at the two neighbours of the
number on the grid of each length: if any point of the grid reads back, so does
one of these two.
-/

import ChronoSat.Double.Basic

namespace ChronoSat.Double

/-- The exponent of the leading decimal digit of a positive quotient. -/
def leadingExponent (numerator denominator : Nat) : Int :=
  if denominator ≤ numerator then
    (Nat.toDigits 10 (numerator / denominator)).length - 1
  else
    let places := (Nat.toDigits 10 (denominator / numerator)).length
    if denominator ≤ numerator * tenTo (places - 1) then -(places - 1 : Nat) else -(places : Nat)

/-- The values that read back as a positive double, as multiples of a common
unit: the value itself in the middle, the lower and the upper end, and whether
the ends belong to them. -/
structure Interval where
  low : Nat
  middle : Nat
  high : Nat
  /-- The exponent of two of the unit. -/
  exponent : Int
  /-- Whether the ends read back too. -/
  closed : Bool

/-- The values that read back as the double of the given parts. Below a power of
two the doubles lie twice as close. -/
def Interval.around (significand : Nat) (exponent : Int) : Interval where
  low := 4 * significand -
    (if significand = twoTo fractionBits ∧ minExponent < exponent then 1 else 2)
  middle := 4 * significand
  high := 4 * significand + 2
  exponent := exponent - 2
  closed := significand % 2 = 0

/-- Whether a whole number times a power of ten lies in an interval. -/
def Interval.contains (interval : Interval) (digits : Nat) (power : Int) : Bool :=
  let value := digits * tenTo power.toNat * twoTo (-interval.exponent).toNat
  let unit := tenTo (-power).toNat * twoTo interval.exponent.toNat
  if interval.closed then interval.low * unit ≤ value && value ≤ interval.high * unit
  else interval.low * unit < value && value < interval.high * unit

/-- A whole number times a power of ten. -/
structure Decimal where
  digits : Nat
  /-- The exponent of ten. -/
  power : Int

/-- The neighbours of a number on the grid of a power of ten that lie in its
interval; if both do, the nearer one, and of two equally near the upper one. -/
def Interval.onGrid (interval : Interval) (power : Int) : Option Decimal :=
  let numerator := interval.middle * twoTo interval.exponent.toNat * tenTo (-power).toNat
  let denominator := twoTo (-interval.exponent).toNat * tenTo power.toNat
  let lower := numerator / denominator
  let lowerFits := interval.contains lower power
  let upperFits := interval.contains (lower + 1) power
  if lowerFits && (!upperFits || 2 * (numerator % denominator) < denominator) then
    some ⟨lower, power⟩
  else if upperFits then some ⟨lower + 1, power⟩
  else none

/-- Looks at the grids of more and more digits, from the given power of ten down. -/
def Interval.searchGrids (interval : Interval) : (count : Nat) → (power : Int) → Option Decimal
  | 0, _ => none
  | count + 1, power =>
    match interval.onGrid power with
    | some decimal => some decimal
    | none => searchGrids interval count (power - 1)

/-- So many digits always read back. -/
def sufficientDigits : Nat := 17

/-- The shortest digits that read back as the positive double of the given parts. -/
def shortest (significand : Nat) (exponent : Int) : Decimal :=
  let (numerator, denominator) := scaled significand exponent
  let lead := leadingExponent numerator denominator
  ((Interval.around significand exponent).searchGrids sufficientDigits lead).getD ⟨0, 0⟩

/-- Digits without the zeros they end with, and how many these were. -/
def dropTrailingZeros (digits : List Char) : List Char × Nat :=
  let kept := (digits.reverse.dropWhile (· == '0')).reverse
  (kept, digits.length - kept.length)

/-- The digits of a whole number times a power of ten, around a point if it takes
one. -/
def Decimal.positional (decimal : Decimal) : String :=
  let (digits, dropped) := dropTrailingZeros (Nat.toDigits 10 decimal.digits)
  let power := decimal.power + dropped
  let point := digits.length + power
  String.ofList <|
    if 0 ≤ power then digits ++ List.replicate power.toNat '0'
    else if 0 < point then digits.take point.toNat ++ '.' :: digits.drop point.toNat
    else '0' :: '.' :: List.replicate (-point).toNat '0' ++ digits

/-- A sign in front of a negative number. -/
def withSign (negative : Bool) (magnitude : String) : String :=
  if negative then "-" ++ magnitude else magnitude

/-- The text of an infinity. -/
def infinityText (negative : Bool) : String := withSign negative "inf"

/-- The text of what is not a number. -/
def nanText : String := "NaN"

/-- The text of a number in as few digits as it takes. -/
def render : Double → String
  | nan => nanText
  | infinite negative => infinityText negative
  | finite negative significand exponent =>
    withSign negative <|
      if significand = 0 then "0" else (shortest significand exponent).positional

/-- A count of units of so many decimal places as digits around a point. -/
def fixedPoint (places units : Nat) : String :=
  let digits := Nat.toDigits 10 units
  let padded := List.replicate (places + 1 - digits.length) '0' ++ digits
  let whole := padded.length - places
  String.ofList <|
    if places = 0 then padded else padded.take whole ++ '.' :: padded.drop whole

/-- The text of a number with a fixed number of places behind the point. -/
def renderFixed (places : Nat) : Double → String
  | nan => nanText
  | infinite negative => infinityText negative
  | finite negative significand exponent =>
    let (numerator, denominator) := scaled significand exponent
    withSign negative (fixedPoint places (roundQuotient (numerator * tenTo places) denominator))

end ChronoSat.Double
