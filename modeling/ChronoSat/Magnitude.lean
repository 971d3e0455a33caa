/-
# Powers and totals

Powers of the two bases that numbers are scaled by, and the total of a row of
numbers. Each is the plain recursive function on whole numbers.
-/

namespace ChronoSat

/-- A power of two. -/
def twoTo (exponent : Nat) : Nat := Nat.pow 2 exponent

/-- A power of ten. -/
def tenTo (exponent : Nat) : Nat := Nat.pow 10 exponent

/-- The sum of a row of numbers. -/
def total : List Nat → Nat
  | [] => 0
  | number :: rest => number + total rest

@[simp] theorem total_nil : total [] = 0 := rfl

@[simp] theorem total_cons (number : Nat) (rest : List Nat) :
    total (number :: rest) = number + total rest := rfl

end ChronoSat
