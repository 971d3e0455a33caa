/-
# Random formulas

A random clause has a fixed number of distinct variables, drawn without
replacement, each negated or not by an independent draw. The variables stand in
a pool that is shuffled only as far as a clause needs: place after place is
swapped with one drawn from those not yet passed. The pool is carried over from
clause to clause, which does not matter for the law of a clause, since whatever
order the pool is in, the draws reach every row of distinct variables exactly
once.
-/

import ChronoSat.Formula
import ChronoSat.Random
import ChronoSat.Room

namespace ChronoSat.Sampling

variable {γ : Type} [RandomSource γ]

/-- Draws the elements for `count` places of the pool, from `place` on. The pool
that comes back has the same elements in another order. -/
def drawPlaces {α : Type} : (place count : Nat) → Array α → γ → Array α × γ
  | _, 0, pool, source => (pool, source)
  | place, count + 1, pool, source =>
    let (offset, source) := RandomSource.below (pool.size - place) source
    drawPlaces (place + 1) count (pool.swapIfInBounds place (place + offset)) source

/-- The name of the variable drawn as a number from 0 on. -/
def variableName (number : Nat) : String :=
  "p" ++ toString number

/-- Draws for each variable whether it is negated. -/
def drawPolarities : List Nat → γ → NamedClause × γ
  | [], source => ([], source)
  | number :: rest, source =>
    let (negate, source) := RandomSource.bool source
    let (literals, source) := drawPolarities rest source
    ((variableName number, !negate) :: literals, source)

/-- Draws so many clauses of `width` literals, one after the other. -/
def drawClauses (width : Nat) :
    (count : Nat) → (pool : Array Nat) → γ → List NamedClause × γ
  | 0, _, source => ([], source)
  | count + 1, pool, source =>
    let (pool, source) := drawPlaces 0 width pool source
    let (literals, source) := drawPolarities (pool.extract 0 width).toList source
    let (rest, source) := drawClauses width count pool source
    (literals :: rest, source)

/-- How many bytes a number in the pool takes. -/
def numberWidth : Nat := 8

/-- The pool that the variables of a clause are drawn from. There has to be room
for it, and at least as many variables as a clause has literals. -/
def pool (numVars width : Nat) : Except Failure (Array Nat) :=
  if numVars < width then .error (.error (.tooFewVariables numVars width))
  else
    match Room.reserve numVars numberWidth with
    | .error fault => .error (.fault fault)
    | .ok () => .ok (Array.range numVars)

theorem pool_of_lt {numVars width : Nat} (tooFew : numVars < width) :
    pool numVars width = .error (.error (.tooFewVariables numVars width)) := by
  simp [pool, tooFew]

theorem pool_of_le {numVars width : Nat} (enough : width ≤ numVars)
    (room : numVars * numberWidth ≤ Room.limit) :
    pool numVars width = .ok (Array.range numVars) := by
  rw [pool, if_neg (Nat.not_lt.mpr enough), Room.reserve_of_le room]

end ChronoSat.Sampling

namespace ChronoSat

variable {γ : Type} [RandomSource γ]

/-- Draws a formula of `count` clauses, each with `width` literals over distinct
ones of `numVars` variables. Without a pool to draw from, nothing is drawn. Nobody
goes on drawing after a fault, so it does not matter where the source is then. -/
def Formula.random (numVars count width : Nat) (source : γ) : Except Failure Cnf × γ :=
  match Sampling.pool numVars width with
  | .error failure => (.error failure, source)
  | .ok pool =>
    let (clauses, source) := Sampling.drawClauses width count pool source
    match Intake.start.takeAll clauses with
    | .error fault => (.error (.fault fault), source)
    | .ok intake => (.ok intake.formula, source)

theorem Formula.random_of_lt {numVars width : Nat} (count : Nat) (source : γ)
    (tooFew : numVars < width) :
    Formula.random numVars count width source =
      (.error (.error (.tooFewVariables numVars width)), source) := by
  simp [Formula.random, Sampling.pool_of_lt tooFew]

end ChronoSat
