/-
# Budgets of time

A budget is given in seconds, as a double, and kept as a duration: the nearest
whole number of nanoseconds, half going to the even one. A negative number of
seconds is no budget, and neither is one that is not a number or that has
`Duration.secondsLimit` seconds or more.
-/

import ChronoSat.Double.Writer
import ChronoSat.Double.Arithmetic
import ChronoSat.Solver

namespace ChronoSat

/-- Why a number of seconds is no budget. -/
inductive BudgetProblem where
  /-- It is less than zero. -/
  | negative
  /-- It is too large, or not a number. -/
  | unbounded
deriving DecidableEq, Repr

/-- The wording of a problem with a budget. -/
def BudgetProblem.message : BudgetProblem → String
  | negative => "cannot convert float seconds to Duration: value is negative"
  | unbounded => "cannot convert float seconds to Duration: value is either too big or NaN"

/-- The duration of a number of seconds. -/
def Duration.ofSeconds (seconds : Double) : Except BudgetProblem Duration :=
  if seconds.less .zero then .error .negative
  else
    match seconds with
    | .finite _ significand exponent =>
      let (numerator, denominator) := scaled significand exponent
      if numerator < secondsLimit * denominator then
        .ok ⟨roundQuotient (numerator * perSecond) denominator⟩
      else .error .unbounded
    | _ => .error .unbounded

/-- The budget of a number of seconds, if one is given, or what to tell whoever
gave it. -/
def readBudget : Option Double → Except String (Option Duration)
  | none => .ok none
  | some seconds =>
    match Duration.ofSeconds seconds with
    | .ok duration => .ok (some duration)
    | .error problem =>
      .error ("invalid timeout " ++ seconds.render ++ ": " ++ problem.message)

end ChronoSat
