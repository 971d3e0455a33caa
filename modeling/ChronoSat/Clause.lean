/-
# Clauses

A clause is a row of literals under one connective. Order and repetition are
kept as built; `Clause.isEquivalent` is the comparison that forgets both. A
clause is evaluated under partial assignments too: only literals that are
assigned and true count, so a disjunction needs one of them and a conjunction
needs nothing else.
-/

import ChronoSat.Assignment

namespace ChronoSat

/-- Literals in order, joined by one connective. -/
structure Clause where
  connective : Connective
  /-- The literals in order, repetitions included. -/
  literals : List Literal
deriving DecidableEq

namespace Clause

/-- How many literals the clause has, repetitions included. -/
def size (clause : Clause) : Nat := clause.literals.length

/-- Whether no literal is left. -/
def isEmpty (clause : Clause) : Bool := clause.literals.isEmpty

/-- Whether exactly one literal is left. -/
def isUnit (clause : Clause) : Bool := clause.literals.length == 1

/-- Whether a literal stands in the clause. -/
def contains (clause : Clause) (literal : Literal) : Bool :=
  clause.literals.contains literal

/-- The literal at a place, counted from 0. -/
def literalAt (clause : Clause) (place : Nat) : Except Fault Literal :=
  match clause.literals[place]? with
  | none => .error (.outOfRange place clause.size)
  | some literal => .ok literal

/-- The clause without any occurrence of the given literals. -/
def without (clause : Clause) (struck : List Literal) : Clause :=
  { clause with literals := clause.literals.filter fun literal => !struck.contains literal }

/-- Whether two clauses have the same set of literals. -/
def isEquivalent (left right : Clause) : Bool :=
  left.literals.all right.contains && right.literals.all left.contains

/-- Whether a literal is assigned and true. -/
def holdsIn (assignment : Assignment) (literal : Literal) : Bool :=
  assignment.literalValue? literal == some true

/-- Whether the clause holds, counting only literals that are assigned and true. -/
def evaluate (clause : Clause) (assignment : Assignment) : Bool :=
  match clause.connective with
  | .disj => clause.literals.any (holdsIn assignment)
  | .conj => clause.literals.all (holdsIn assignment)

/-- The signed integers of the literals, if all their variables are registered. -/
def encode (clause : Clause) (registry : Registry) : Except Error (List Int) :=
  clause.literals.mapM registry.encode

/-- The clause of the literals that signed integers stand for. -/
def decode (connective : Connective) (registry : Registry) (values : List Int) :
    Except Error Clause := do
  return ⟨connective, ← values.mapM registry.decode⟩

/-- The text of a literal. One over a variable without a name shows its integer. -/
def literalText (registry : Registry) (literal : Literal) : String :=
  match registry.render literal with
  | .ok text => text
  | .error _ => "#" ++ toString literal.toInt

/-- The text of a clause: a single literal stands bare, any other clause in
parentheses with its connective between the literals. -/
def render (clause : Clause) (registry : Registry) : String :=
  let body := (" " ++ clause.connective.symbol ++ " ").intercalate
    (clause.literals.map (literalText registry))
  if clause.isUnit then body else "(" ++ body ++ ")"

end Clause

end ChronoSat
