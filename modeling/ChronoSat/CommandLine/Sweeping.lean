/-
# Drawing formulas and sweeping over ratios

Two requests draw formulas: one writes them to files, the other solves them and
prints a line for every ratio.
-/

import ChronoSat.CommandLine.Options
import ChronoSat.CommandLine.Transcript
import ChronoSat.Files
import ChronoSat.Sweep

namespace ChronoSat.CommandLine

variable {m : Type → Type} [Monad m] {γ : Type} [RandomSource γ]

/-- Draws formulas and writes them, the first to the file with the given number. -/
def writeInstances (files : Files m) (options : GenerateOptions) (done : Transcript) :
    (count : Nat) → (number : Nat) → γ → m Transcript
  | 0, _, _ => return done
  | count + 1, number, source =>
    let (drawn, source) :=
      Formula.random options.numVars options.clauses options.width source
    match drawn with
    | .error failure => return done ++ .failed (.ofFailure failure)
    | .ok formula => do
      let path := Path.join options.out ("f" ++ toString number ++ ".cnf")
      match Dimacs.write formula options.terminator with
      | .error error => return done ++ .told (path ++ ": " ++ error.message)
      | .ok text =>
        match ← files.write path text with
        | .error problem => return done ++ .told (path ++ ": " ++ problem.message)
        | .ok () =>
          writeInstances files options (done ++ .print ["Wrote " ++ path]) count (number + 1)
            source

/-- Draws formulas and writes them. -/
def generate (instruments : Instruments m γ) (files : Files m) (options : GenerateOptions) :
    m Transcript := do
  match ← files.makeDirectories options.out with
  | .error problem => return .told (options.out ++ ": " ++ problem.message)
  | .ok () =>
    let source := RandomSource.seeded options.seed (← instruments.freshSource)
    writeInstances files options .empty options.count 0 source

/-- What is told about a problem with a sweep. -/
def troubleOf : Sweep.Problem → Trouble
  | .stepNotPositive step => .told ("ratio step must be positive, got " ++ step.render)
  | .failure failure => .ofFailure failure
  | .unverified formula => .told ("solution failed verification: " ++ formula.render)

/-- Draws and solves the formulas of one ratio as asked for. A solver that cannot
be built is told, and nothing is drawn. -/
def sweepRatio (instruments : Instruments m γ) (options : SweepOptions) (common : CommonOptions)
    (ratio : Double) (source : γ) :
    m (Except Trouble Sweep.Row × List LogLine × γ) := do
  match common.solverConfig with
  | .error message => return (.error (.told message), [], source)
  | .ok config =>
    let solver := config.build (← instruments.freshSource)
    let result ← Sweep.solveRatio instruments options.numVars options.width options.instances
      ratio common.verify solver source
    return (result.outcome.mapError troubleOf, result.log, result.source)

/-- The lines above the rows of a sweep. -/
def sweepHeading (options : SweepOptions) (common : CommonOptions) : List String :=
  ["Sweeping n=" ++ toString options.numVars ++ ", k=" ++ toString options.width ++ ", " ++
      toString options.instances ++ " instances per ratio, selector " ++ common.selector.name,
   "|  ratio  clauses  sat-fraction  mean-calls  median-ms  timeouts  |"]

/-- The line of a row. -/
def rowLine (row : Sweep.Row) : String :=
  let cells :=
    [Text.alignRight 5 (row.ratio.renderFixed 2),
     Text.alignRight 7 (toString row.clauses),
     Text.alignRight 12 (row.fraction.renderFixed 2),
     Text.alignRight 10 (row.meanCalls.renderFixed 1),
     Text.alignRight 9 row.medianRuntime.millisecondsText,
     Text.alignRight 8 (toString row.timeouts)]
  "|  " ++ "  ".intercalate cells ++ "  |"

/-- Sweeps over the given ratios, up to the first that makes trouble. -/
def sweepRatios (instruments : Instruments m γ) (options : SweepOptions) (common : CommonOptions)
    (done : Transcript) : List Double → γ → m Transcript
  | [], _ => return done
  | ratio :: rest, source => do
    let (outcome, log, source) ← sweepRatio instruments options common ratio source
    let done := done ++ .logged .search log
    match outcome with
    | .error trouble => return done ++ .failed trouble
    | .ok row =>
      sweepRatios instruments options common (done ++ .print [rowLine row]) rest source

/-- Sweeps over ratios and prints a line for each. -/
def sweep (instruments : Instruments m γ) (options : SweepOptions) (common : CommonOptions) :
    m Transcript := do
  let heading := Transcript.print (sweepHeading options common)
  match Sweep.ratios options.minRatio options.maxRatio options.ratioStep with
  | .error problem => return heading ++ .failed (troubleOf problem)
  | .ok ratios =>
    let source := RandomSource.seeded common.seed (← instruments.freshSource)
    sweepRatios instruments options common heading ratios source

end ChronoSat.CommandLine
