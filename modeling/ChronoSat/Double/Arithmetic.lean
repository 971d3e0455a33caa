/-
# Arithmetic on doubles

Products, quotients and the sum of a product with a third number, each with a
single rounding at the end, and the comparisons that go with them. A result that
is exactly zero keeps the sign that the operands give it: a product the sign of
its factors taken together, a sum the sign of its parts if they agree and none
if they do not.
-/

import ChronoSat.Double.Basic

namespace ChronoSat.Double

/-- The significand with its sign. -/
def signed (negative : Bool) (significand : Nat) : Int :=
  if negative then -significand else significand

/-- A sum of two numbers given by their parts. -/
def addParts (leftNegative : Bool) (left : Nat) (leftExponent : Int)
    (rightNegative : Bool) (right : Nat) (rightExponent : Int) : Double :=
  let exponent := min leftExponent rightExponent
  let total :=
    signed leftNegative (left * twoTo (leftExponent - exponent).toNat) +
      signed rightNegative (right * twoTo (rightExponent - exponent).toNat)
  if total = 0 then finite (leftNegative && rightNegative) 0 minExponent
  else ofScaled (decide (total < 0)) total.natAbs exponent

/-- The product of two numbers plus a third one, rounded once. -/
def mulAdd : Double → Double → Double → Double
  | nan, _, _ => nan
  | _, nan, _ => nan
  | _, _, nan => nan
  | finite n₁ s₁ e₁, finite n₂ s₂ e₂, finite n₃ s₃ e₃ =>
    addParts (n₁ != n₂) (s₁ * s₂) (e₁ + e₂) n₃ s₃ e₃
  | finite _ _ _, finite _ _ _, infinite n₃ => infinite n₃
  | infinite n₁, finite n₂ s₂ _, third => infiniteProduct s₂ (n₁ != n₂) third
  | finite n₁ s₁ _, infinite n₂, third => infiniteProduct s₁ (n₁ != n₂) third
  | infinite n₁, infinite n₂, third => infiniteProduct 1 (n₁ != n₂) third
where
  /-- An infinite product, whose other factor has the given significand, plus a
  number. -/
  infiniteProduct (significand : Nat) (negative : Bool) : Double → Double
    | infinite third => if significand = 0 || negative != third then nan else infinite negative
    | _ => if significand = 0 then nan else infinite negative

/-- The product of two numbers. -/
def mul : Double → Double → Double
  | nan, _ => nan
  | _, nan => nan
  | finite n₁ s₁ e₁, finite n₂ s₂ e₂ => ofScaled (n₁ != n₂) (s₁ * s₂) (e₁ + e₂)
  | infinite n₁, finite n₂ s₂ _ => if s₂ = 0 then nan else infinite (n₁ != n₂)
  | finite n₁ s₁ _, infinite n₂ => if s₁ = 0 then nan else infinite (n₁ != n₂)
  | infinite n₁, infinite n₂ => infinite (n₁ != n₂)

/-- The quotient of two whole numbers, each taken as a double first. Nothing over
nothing is zero. -/
def ratio (numerator denominator : Nat) : Double :=
  match ofNat numerator, ofNat denominator with
  | finite _ s₁ e₁, finite _ s₂ e₂ =>
    if s₂ = 0 then zero
    else
      let exponent := min e₁ e₂
      nearest false (s₁ * twoTo (e₁ - exponent).toNat) (s₂ * twoTo (e₂ - exponent).toNat)
  | _, _ => zero

/-- Whether the first number is less than the second. Nothing is less or more
than what is not a number. -/
def less : Double → Double → Bool
  | nan, _ => false
  | _, nan => false
  | infinite n₁, infinite n₂ => n₁ && !n₂
  | infinite n₁, finite _ _ _ => n₁
  | finite _ _ _, infinite n₂ => !n₂
  | finite n₁ s₁ e₁, finite n₂ s₂ e₂ =>
    let exponent := min e₁ e₂
    signed n₁ (s₁ * twoTo (e₁ - exponent).toNat) < signed n₂ (s₂ * twoTo (e₂ - exponent).toNat)

/-- Whether a number is finite. -/
def isFinite : Double → Bool
  | finite _ _ _ => true
  | _ => false

/-- Whether a number is finite and greater than zero. -/
def isPositive (number : Double) : Bool :=
  number.isFinite && less zero number

/-- The whole part of a number, at least zero and at most `limit`. What is not a
number has none, which counts as zero. -/
def floorWithin (limit : Nat) : Double → Nat
  | nan => 0
  | infinite negative => if negative then 0 else limit
  | finite negative significand exponent =>
    if negative then 0
    else
      let (numerator, denominator) := scaled significand exponent
      min limit (numerator / denominator)

end ChronoSat.Double
