/-
# Reducing a formula by an assignment

Reduction is the step that a search repeats at every node, done by value: a
clause with a literal made true is dropped, and from the others every literal
made false is struck. The registry stays as it is.

Each assigned number has to be a variable's before it can make a literal true or
false, which is a fault if it is not; a formula without clauses has nothing to
reduce and asks for nothing.
-/

import ChronoSat.Formula

namespace ChronoSat

/-- Whether a literal is assigned and false. -/
def Clause.failsIn (assignment : Assignment) (literal : Literal) : Bool :=
  assignment.literalValue? literal == some false

/-- What an assignment leaves of a clause: nothing if it makes a literal true,
else the literals that it does not make false. -/
def Clause.reduce (clause : Clause) (assignment : Assignment) : Option Clause :=
  if clause.literals.any (holdsIn assignment) then none
  else some
    { clause with literals := clause.literals.filter fun literal => !failsIn assignment literal }

/-- What an assignment leaves of a formula. -/
def Formula.reduce (formula : Cnf) (assignment : Assignment) : Except Fault Cnf :=
  match formula.clauses with
  | [] => .ok formula
  | clauses => do
    let _ ← assignment.toLiterals
    return { formula with clauses := clauses.filterMap fun clause => clause.reduce assignment }

end ChronoSat
