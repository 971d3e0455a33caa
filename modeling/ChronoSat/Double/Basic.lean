/-
# Double precision numbers

A double is zero or a whole number of at most 53 bits times a power of two,
with a sign, or one of two infinities, or not a number. Doubles are kept here as
these parts, so that everything about them is arithmetic on whole numbers.

All results of arithmetic come from one function, `Double.nearest`: the double
that is nearest to a quotient of whole numbers, where of two that are equally
near the one with an even significand is taken.
-/

import ChronoSat.Magnitude

namespace ChronoSat

/-- A double precision number. -/
inductive Double where
  /-- The significand times two to the power of the exponent, with a sign. -/
  | finite (negative : Bool) (significand : Nat) (exponent : Int)
  /-- Larger than every finite number, with a sign. -/
  | infinite (negative : Bool)
  | nan
deriving DecidableEq, Repr

/-- The quotient of two whole numbers, rounded to the nearest whole number. Half
goes to the even neighbour. -/
def roundQuotient (numerator denominator : Nat) : Nat :=
  let floor := numerator / denominator
  let twice := 2 * (numerator % denominator)
  if twice < denominator then floor
  else if denominator < twice then floor + 1
  else if floor % 2 = 0 then floor
  else floor + 1

/-- A whole number times two to a power, as a quotient of whole numbers. -/
def scaled (significand : Nat) (exponent : Int) : Nat × Nat :=
  (significand * twoTo exponent.toNat, twoTo (-exponent).toNat)

namespace Double

/-- How many bits a significand has. -/
def precision : Nat := 53

/-- The exponent of the smallest doubles. -/
def minExponent : Int := -1074

/-- The exponent of the largest doubles. -/
def maxExponent : Int := 971

/-- Zero. -/
def zero : Double := finite false 0 minExponent

/-- The exponent of the doubles around a positive quotient: the one at which it
has `precision` bits in front of the point, but at least `minExponent`. -/
def exponentNear (numerator denominator : Nat) : Int :=
  let guess : Int := numerator.log2 - denominator.log2 - (precision - 1 : Nat)
  let (low, high) := (numerator * twoTo (-guess).toNat, denominator * twoTo guess.toNat)
  max minExponent (if low < high * twoTo (precision - 1) then guess - 1 else guess)

/-- The double nearest to a quotient with a sign. -/
def nearest (negative : Bool) (numerator denominator : Nat) : Double :=
  if numerator = 0 then finite negative 0 minExponent
  else
    let exponent := exponentNear numerator denominator
    let significand :=
      roundQuotient (numerator * twoTo (-exponent).toNat) (denominator * twoTo exponent.toNat)
    let (significand, exponent) :=
      if significand = twoTo precision then (twoTo (precision - 1), exponent + 1)
      else (significand, exponent)
    if maxExponent < exponent then infinite negative
    else finite negative significand exponent

/-- The double nearest to a whole number. -/
def ofNat (number : Nat) : Double := nearest false number 1

/-- The double nearest to a whole number times a power of two, with a sign. -/
def ofScaled (negative : Bool) (significand : Nat) (exponent : Int) : Double :=
  let (numerator, denominator) := scaled significand exponent
  nearest negative numerator denominator

/-- How many bits of a word hold the fraction. -/
def fractionBits : Nat := 52

/-- The largest number in the exponent field of a word. -/
def topField : Nat := 2047

/-- The double that a 64-bit word stands for: a sign bit, eleven bits of exponent
and the fraction. -/
def ofBits (word : UInt64) : Double :=
  let bits := word.toNat
  let negative := bits / twoTo 63 % 2 == 1
  let field := bits / twoTo fractionBits % twoTo 11
  let fraction := bits % twoTo fractionBits
  if field = topField then if fraction = 0 then infinite negative else nan
  else if field = 0 then finite negative fraction minExponent
  else finite negative (fraction + twoTo fractionBits) (minExponent + field - 1)

/-- The sign bit of a word. -/
def signBit (negative : Bool) : Nat := if negative then twoTo 63 else 0

/-- The 64-bit word that stands for a double. -/
def toBits : Double → UInt64
  | nan => UInt64.ofNat (topField * twoTo fractionBits + twoTo (fractionBits - 1))
  | infinite negative => UInt64.ofNat (signBit negative + topField * twoTo fractionBits)
  | finite negative significand exponent =>
    if significand < twoTo fractionBits then UInt64.ofNat (signBit negative + significand)
    else
      let field := (exponent - minExponent + 1).toNat
      UInt64.ofNat
        (signBit negative + field * twoTo fractionBits + (significand - twoTo fractionBits))

end Double

end ChronoSat
