/-
# Transcripts

What a request leads to is written down before anything is printed: the lines
for the standard output, the records for the log, and what went wrong if
something did. A transcript that ends in trouble is not gone on with.
-/

import ChronoSat.Solver
import ChronoSat.Text.Columns

namespace ChronoSat.CommandLine

/-- The part of the program that a log record comes from. -/
inductive Target where
  | search
  | clauseFiles
  | requests
deriving DecidableEq, Repr

/-- The name of a part of the program in the log. -/
def Target.name : Target → String
  | search => "sat_dpll::sat::dpll"
  | clauseFiles => "sat_dpll::sat::dimacs"
  | requests => "sat_dpll::command_line::cli"

/-- A line of the log and where it comes from. -/
structure LogRecord where
  /-- Where it comes from. -/
  target : Target
  line : LogLine
deriving DecidableEq, Repr

namespace LogRecord

/-- What a line end in a message is shown as: the lines behind the first one are
indented. -/
def indentedLineEnd : List Char := ['\n', ' ', ' ', ' ', ' ']

/-- A message as it is shown in the log. -/
def indented (message : String) : String :=
  String.ofList (message.toList.flatMap fun character =>
    if character = '\n' then indentedLineEnd else [character])

/-- The text of a record. -/
def render (record : LogRecord) : String :=
  "[" ++ Text.alignLeft 5 record.line.level.name ++ " " ++ record.target.name ++ "] " ++
    indented record.line.message

/-- Whether a record is shown. Without `debug` only what is odd or worse is. -/
def isShown (debug : Bool) (record : LogRecord) : Bool :=
  match record.line.level with
  | .error => true
  | .warn => true
  | .info => debug
  | .debug => debug
  | .trace => false

end LogRecord

/-- What went wrong with a request. -/
inductive Trouble where
  /-- Something was used outside what it is defined for. -/
  | fault (fault : Fault)
  /-- Something to tell. -/
  | told (message : String)
deriving DecidableEq, Repr

/-- The trouble that a failure makes. -/
def Trouble.ofFailure : Failure → Trouble
  | .fault cause => fault cause
  | .error cause => told cause.message

/-- What a request leads to. -/
structure Transcript where
  output : List String
  log : List LogRecord
  trouble : Option Trouble
deriving DecidableEq, Repr

namespace Transcript

/-- Nothing happened. -/
def empty : Transcript := ⟨[], [], none⟩

/-- Lines are printed. -/
def print (lines : List String) : Transcript := ⟨lines, [], none⟩

/-- Lines are logged. -/
def logged (target : Target) (lines : List LogLine) : Transcript :=
  ⟨[], lines.map fun line => ⟨target, line⟩, none⟩

/-- Something went wrong. -/
def failed (trouble : Trouble) : Transcript := ⟨[], [], some trouble⟩

/-- Something is told and the work ends. -/
def told (message : String) : Transcript := failed (.told message)

/-- One transcript and then another, unless the first ends in trouble. -/
def andThen (first second : Transcript) : Transcript :=
  match first.trouble with
  | some _ => first
  | none => ⟨first.output ++ second.output, first.log ++ second.log, second.trouble⟩

instance : Append Transcript := ⟨andThen⟩

theorem andThen_of_none {first : Transcript} (second : Transcript)
    (fine : first.trouble = none) :
    first ++ second =
      ⟨first.output ++ second.output, first.log ++ second.log, second.trouble⟩ := by
  show first.andThen second = _
  simp [andThen, fine]

theorem andThen_of_trouble {first : Transcript} (second : Transcript) {trouble : Trouble}
    (wrong : first.trouble = some trouble) : first ++ second = first := by
  show first.andThen second = first
  simp [andThen, wrong]

end Transcript

/-- How the program ends. -/
structure Exit where
  status : Nat
  output : List String
  errors : List String
deriving DecidableEq, Repr

namespace Transcript

/-- The exit status when a request went wrong. -/
def failureStatus : Nat := 1

/-- The exit status after a fault. -/
def faultStatus : Nat := 101

/-- How the program ends after a transcript: trouble is logged and told. -/
def exit (transcript : Transcript) (debug : Bool) : Exit :=
  let shown := (transcript.log.filter (LogRecord.isShown debug)).map LogRecord.render
  match transcript.trouble with
  | none => ⟨0, transcript.output, shown⟩
  | some (.told message) =>
    let record : LogRecord := ⟨.requests, ⟨.error, message⟩⟩
    ⟨failureStatus, transcript.output, shown ++ [record.render, "error: " ++ message]⟩
  | some (.fault _) => ⟨faultStatus, transcript.output, shown⟩

end Transcript

end ChronoSat.CommandLine
