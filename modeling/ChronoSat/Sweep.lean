/-
# Sweeps

A sweep looks at random formulas with more and more clauses to a variable. For
each ratio it draws some formulas, solves each of them and counts how many were
satisfiable. The formulas come from one source of draws and the solver draws from
another, so how the formulas are solved has no influence on which they are.
-/

import ChronoSat.Cnf.Sampling
import ChronoSat.Infix.Writer
import ChronoSat.Instruments

namespace ChronoSat.Sweep

/-- Why a sweep cannot go on. -/
inductive Problem where
  /-- The distance between two ratios is not a positive number. -/
  | stepNotPositive (step : Double)
  /-- A formula could not be drawn or solved. -/
  | failure (failure : Failure)
  /-- A model does not satisfy the formula it was found for. -/
  | unverified (formula : Cnf)

/-- How many ratios there are at most. -/
def ratioLimit : Nat := 0x100000000

/-- The ratios from the one with the given index on. -/
def ratiosFrom (lowest limit step : Double) : (count : Nat) → (index : Nat) → List Double
  | 0, _ => []
  | count + 1, index =>
    let ratio := Double.mulAdd (.ofNat index) step lowest
    if ratio.less limit then ratio :: ratiosFrom lowest limit step count (index + 1) else []

/-- The ratios from `lowest` on in equal steps, below `limit`. Each is rounded
once. -/
def ratios (lowest limit step : Double) : Except Problem (List Double) :=
  if step.isPositive then .ok (ratiosFrom lowest limit step ratioLimit 0)
  else .error (.stepNotPositive step)

/-- The largest number of clauses that can be asked for. -/
def clauseLimit : Nat := 0xFFFFFFFFFFFFFFFF

/-- How many clauses a formula has at a ratio: the whole part of the product. -/
def clauseCount (ratio : Double) (numVars : Nat) : Nat :=
  (Double.mul ratio (.ofNat numVars)).floorWithin clauseLimit

/-- What is known about the formulas of a ratio. -/
structure Row where
  ratio : Double
  clauses : Nat
  satisfiable : Nat
  /-- How many formulas were decided. -/
  finished : Nat
  timeouts : Nat
  /-- Decisions per decided formula. -/
  meanCalls : Double
  /-- The median of the times that the decided formulas took. -/
  medianRuntime : Measured

/-- The fraction of the decided formulas that have a model. -/
def Row.fraction (row : Row) : Double :=
  Double.ratio row.satisfiable row.finished

/-- What is counted while the formulas of a ratio are solved. -/
structure Tally where
  satisfiable : Nat
  timeouts : Nat
  /-- The decisions of each decided formula, the latest first. -/
  calls : List Nat
  /-- The times of each decided formula, the latest first. -/
  runtimes : List Measured
  /-- What the searches logged, the latest search first. -/
  logs : List (List LogLine)

namespace Tally

/-- Nothing counted. -/
def start : Tally := ⟨0, 0, [], [], []⟩

/-- The log of all searches in order. -/
def log (tally : Tally) : List LogLine := tally.logs.reverse.flatten

/-- A search was logged. -/
def noteLog (tally : Tally) (log : List LogLine) : Tally :=
  { tally with logs := log :: tally.logs }

/-- A formula was decided. -/
def noteDecided (tally : Tally) (satisfiable : Bool) (decisions : Nat) (elapsed : Measured) :
    Tally :=
  { tally with
    satisfiable := if satisfiable then tally.satisfiable + 1 else tally.satisfiable
    calls := decisions :: tally.calls
    runtimes := elapsed :: tally.runtimes }

/-- A search ran out of time. -/
def noteTimeout (tally : Tally) : Tally :=
  { tally with timeouts := tally.timeouts + 1 }

/-- Takes in what a solver found out about a formula. With `verify`, a model is
checked against the formula. -/
def take (verify : Bool) (formula : Cnf) (report : Report) (elapsed : Measured) (tally : Tally) :
    Except Problem Tally :=
  match report.answer with
  | .ok none => .ok (tally.noteDecided false report.stats.decisions elapsed)
  | .ok (some model) =>
    if verify && !formula.evaluate model then .error (.unverified formula)
    else .ok (tally.noteDecided true report.stats.decisions elapsed)
  | .error (.error error) =>
    if error.isTimeout then .ok tally.noteTimeout else .error (.failure (.error error))
  | .error (.fault fault) => .error (.failure (.fault fault))

/-- The row that the counts make. -/
def toRow (tally : Tally) (ratio : Double) (clauses : Nat) : Row where
  ratio := ratio
  clauses := clauses
  satisfiable := tally.satisfiable
  finished := tally.calls.length
  timeouts := tally.timeouts
  meanCalls := Double.ratio (total tally.calls) tally.calls.length
  medianRuntime := Measured.median tally.runtimes

end Tally

/-- What drawing and solving the formulas of a ratio leads to. -/
structure Result (γ α : Type) where
  /-- What came of it, or why it came to nothing. -/
  outcome : Except Problem α
  log : List LogLine
  /-- The source of formulas afterwards. -/
  source : γ

/-- The shape of the formulas to draw, and how many of them. -/
structure Plan where
  numVars : Nat
  clauses : Nat
  width : Nat
  verify : Bool

variable {m : Type → Type} [Monad m] {γ : Type} [RandomSource γ]

/-- Draws and solves so many formulas. -/
def solveInstances (instruments : Instruments m γ) (plan : Plan) :
    (count : Nat) → Solver γ → Tally → γ → m (Result γ Tally)
  | 0, _, tally, source => pure ⟨.ok tally, tally.log, source⟩
  | count + 1, solver, tally, source =>
    match Formula.random plan.numVars plan.clauses plan.width source with
    | (.error failure, source) => pure ⟨.error (.failure failure), tally.log, source⟩
    | (.ok formula, source) => do
      let started ← instruments.now
      let (report, solver) ←
        instruments.timed solver.timeout fun clock => solver.solve clock formula
      let elapsed := Measured.between started (← instruments.now)
      let tally := tally.noteLog (report.log elapsed.durationText)
      match tally.take plan.verify formula report elapsed with
      | .error problem => pure ⟨.error problem, tally.log, source⟩
      | .ok tally => solveInstances instruments plan count solver tally source

/-- How many bytes the decisions or the time of a search take. -/
def entryWidth : Nat := 8

/-- Draws and solves the formulas of one ratio. There has to be room for what is
counted of each. -/
def solveRatio (instruments : Instruments m γ) (numVars width instances : Nat)
    (ratio : Double) (verify : Bool) (solver : Solver γ) (source : γ) : m (Result γ Row) := do
  let clauses := clauseCount ratio numVars
  match Room.reserve instances entryWidth with
  | .error fault => return ⟨.error (.failure (.fault fault)), [], source⟩
  | .ok () =>
    let plan : Plan := ⟨numVars, clauses, width, verify⟩
    let result ← solveInstances instruments plan instances solver .start source
    return ⟨result.outcome.map fun tally => tally.toRow ratio clauses, result.log,
      result.source⟩

end ChronoSat.Sweep
