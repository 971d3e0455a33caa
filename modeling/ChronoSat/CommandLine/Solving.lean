/-
# Solving and reporting

A formula is solved and what came of it is reported: whether a model was checked
and found right, the statistics, the model itself, and at the end the verdict.
Each part but the verdict can be left out. A search that ran out of time has a
verdict too: that nothing is known.
-/

import ChronoSat.Cnf.Model
import ChronoSat.CommandLine.Options
import ChronoSat.CommandLine.Statistics
import ChronoSat.CommandLine.Transcript
import ChronoSat.Dimacs.Reader
import ChronoSat.Files
import ChronoSat.Infix.Reader
import ChronoSat.Infix.Writer

namespace ChronoSat.CommandLine

/-- What is known about a formula after a search. -/
inductive Verdict where
  | satisfiable (model : Assignment)
  | unsatisfiable
  /-- The search ran out of time. -/
  | unknown (budget : Duration)
deriving DecidableEq, Repr

/-- The verdict of an answer. Any error but running out of time is trouble. -/
def Verdict.ofAnswer : Except Failure (Option Assignment) → Except Trouble Verdict
  | .ok (some model) => .ok (satisfiable model)
  | .ok none => .ok unsatisfiable
  | .error (.error (.timeout budget)) => .ok (unknown budget)
  | .error failure => .error (.ofFailure failure)

namespace Verdict

/-- The word for a verdict. -/
def text : Verdict → String
  | satisfiable _ => "SATISFIABLE"
  | unsatisfiable => "UNSATISFIABLE"
  | unknown budget => "UNKNOWN (timed out after " ++ budget.render ++ ")"

/-- Checks a model against the formula and says what came of it. -/
def verification (formula : Cnf) : Verdict → Transcript
  | satisfiable model =>
    let right := formula.evaluate model
    let said := Transcript.print ["Verified: " ++ toString right]
    if right then said else said ++ .told "solution failed verification"
  | unsatisfiable => .print ["UNSAT"]
  | unknown _ => .empty

/-- The line with the model. -/
def solution (formula : Cnf) : Verdict → Transcript
  | satisfiable model =>
    match formula.modelLine model with
    | .ok line => .print ["v " ++ line]
    | .error failure => .failed (.ofFailure failure)
  | _ => .empty

end Verdict

/-- A part of a report that may be left out. -/
def onlyIf (wanted : Bool) (part : Transcript) : Transcript :=
  if wanted then part else .empty

/-- What is reported about a formula once a verdict is known. -/
def verdictReport (common : CommonOptions) (formula : Cnf) (stats : Search.Stats)
    (measurements : Measurements) (verdict : Verdict) : Transcript :=
  onlyIf common.verify (verdict.verification formula) ++
    onlyIf common.stats (.print (statisticsLines formula stats measurements)) ++
    onlyIf common.printSolution (verdict.solution formula) ++
    .print ["", verdict.text]

/-- What is printed before a formula is solved. -/
def announcement (common : CommonOptions) (label : Option String) (formula : Cnf) : Transcript :=
  .print (label.toList.map ("Solving: " ++ ·)) ++
    onlyIf common.debug
      (.print
        ["CNF: " ++ formula.render, "Variables: " ++ toString formula.numVars,
         "Clauses: " ++ toString formula.size])

/-- The log of a search and the report on it. -/
def searchReport (common : CommonOptions) (formula : Cnf) (report : Report)
    (measurements : Measurements) : Transcript :=
  .logged .search (report.log measurements.elapsed.durationText) ++
    match Verdict.ofAnswer report.answer with
    | .error trouble => .failed trouble
    | .ok verdict => verdictReport common formula report.stats measurements verdict

variable {m : Type → Type} [Monad m] {γ : Type} [RandomSource γ]

/-- Solves a formula and reports on it. -/
def solveAndReport (instruments : Instruments m γ) (common : CommonOptions) (label : Option String)
    (formula : Cnf) (parseTime : Measured) : m Transcript := do
  let opening := announcement common label formula
  match common.solverConfig with
  | .error message => return opening ++ .told message
  | .ok config =>
    let solver := config.build (← instruments.freshSource)
    let started ← instruments.now
    let (report, _) ←
      instruments.timed solver.timeout fun clock => solver.solve clock formula
    let elapsed := Measured.between started (← instruments.now)
    let memory ← instruments.memory
    return opening ++ searchReport common formula report ⟨parseTime, elapsed, memory⟩

/-- What reading a clause file logs. -/
def warningLog (reading : Dimacs.Reading) : Transcript :=
  .logged .clauseFiles (reading.warnings.map fun warning => ⟨.warn, warning.message⟩)

/-- Solves the formula that was read, or tells why there is none. `blame` words
an error. -/
def solveReading (instruments : Instruments m γ) (common : CommonOptions) (label : Option String)
    (blame : String → String) (result : Except Failure Cnf) (parseTime : Measured) :
    m Transcript :=
  match result with
  | .error (.fault fault) => return .failed (.fault fault)
  | .error (.error error) => return .told (blame error.message)
  | .ok formula => solveAndReport instruments common label formula parseTime

/-- What there is to solve in a text: a formula, or a clause file. -/
def readInput (input : String) (dimacs : Bool) : Dimacs.Reading :=
  if dimacs then Dimacs.read input.toUTF8.toList else ⟨Formula.parse input, []⟩

/-- Solves a formula given as text. -/
def solveText (instruments : Instruments m γ) (input : String) (dimacs : Bool)
    (common : CommonOptions) : m Transcript := do
  let started ← instruments.now
  let reading := readInput input dimacs
  let parseTime := Measured.between started (← instruments.now)
  let rest ← solveReading instruments common none id reading.result parseTime
  return warningLog reading ++ rest

/-- Solves a clause file. -/
def solveFile (instruments : Instruments m γ) (files : Files m) (path : String)
    (common : CommonOptions) : m Transcript := do
  let blame := fun message => path ++ ": " ++ message
  let started ← instruments.now
  match ← files.read path with
  | .error problem => return .told (blame problem.message)
  | .ok bytes =>
    let reading := Dimacs.read bytes
    let parseTime := Measured.between started (← instruments.now)
    let rest ← solveReading instruments common (some path) blame reading.result parseTime
    return warningLog reading ++ rest

/-- Solves the clause files among some files, up to the first that makes trouble. -/
def solveFiles (instruments : Instruments m γ) (files : Files m) (common : CommonOptions)
    (done : Transcript) : List String → m Transcript
  | [] => return done
  | path :: rest =>
    if Path.hasExtension "cnf" path then do
      let done := done ++ (← solveFile instruments files path common)
      if done.trouble.isSome then return done
      else solveFiles instruments files common done rest
    else
      let skipped := .logged .requests [⟨.info, "Skipping non-CNF file: " ++ path⟩]
      solveFiles instruments files common (done ++ skipped) rest

/-- Solves the clause files of a directory. -/
def solveDirectory (instruments : Instruments m γ) (files : Files m) (path : String)
    (common : CommonOptions) : m Transcript := do
  if ← files.isDirectory path then
    solveFiles instruments files common .empty (← files.filesUnder path)
  else return .told ("Provided path is not a directory: " ++ path)

end ChronoSat.CommandLine
