/-
# Models as text

A model is shown as a line of literals in the order of their variables, each by
its name and without the sign of the variables that are true.
-/

import ChronoSat.Formula

namespace ChronoSat

/-- The text of a literal in a model. -/
def modelWord (registry : Registry) (literal : Literal) : Except Failure String :=
  match registry.render literal with
  | .error error => .error (.error error)
  | .ok text => .ok text

/-- The literals that an assignment makes true, as text. -/
def Formula.modelLine (formula : Cnf) (assignment : Assignment) : Except Failure String :=
  match assignment.toLiterals with
  | .error fault => .error (.fault fault)
  | .ok literals => do
    return " ".intercalate (← literals.mapM (modelWord formula.registry))

end ChronoSat
