/-
# What can be asked for

The program is asked for one thing at a time: to solve a file, a text or a
directory of files, to draw formulas, to sweep over ratios, or to write a
completion script. Asked for nothing in particular it solves the file it is
given. Everything that is left unsaid has a default, and the defaults are here.
-/

import ChronoSat.Budget
import ChronoSat.Dimacs.Writer

namespace ChronoSat.CommandLine

/-- What can be said along with most requests. -/
structure CommonOptions where
  debug : Bool
  verify : Bool
  stats : Bool
  printSolution : Bool
  selector : Selection
  /-- The budget of time in seconds. -/
  timeout : Option Double
  seed : Option UInt64
deriving DecidableEq, Repr

/-- What counts when nothing is said. -/
def CommonOptions.default : CommonOptions where
  debug := false
  verify := true
  stats := true
  printSolution := false
  selector := .naive
  timeout := none
  seed := none

/-- What it takes to build the solver that was asked for. -/
def CommonOptions.solverConfig (common : CommonOptions) : Except String SolverConfig := do
  return ⟨common.selector, ← readBudget common.timeout, common.seed⟩

/-- The shells there are completion scripts for. -/
inductive Shell where
  | bash
  | elvish
  | fish
  | powershell
  | zsh
deriving DecidableEq, Repr

namespace Shell

/-- The name of a shell. -/
def name : Shell → String
  | bash => "bash"
  | elvish => "elvish"
  | fish => "fish"
  | powershell => "powershell"
  | zsh => "zsh"

/-- All shells. -/
def all : List Shell := [bash, elvish, fish, powershell, zsh]

/-- The shell of a name. -/
def ofName? (name : String) : Option Shell :=
  all.find? fun shell => shell.name == name

end Shell

end ChronoSat.CommandLine

namespace ChronoSat.Dimacs.Terminator

/-- The name of a way to end clauses. -/
def name : Terminator → String
  | zero => "zero"
  | none => "none"

/-- The way to end clauses of a name. -/
def ofName? (name : String) : Option Terminator :=
  [zero, none].find? fun terminator => terminator.name == name

end ChronoSat.Dimacs.Terminator

namespace ChronoSat.CommandLine

/-- What formulas to draw. -/
structure GenerateOptions where
  numVars : Nat
  clauses : Nat
  width : Nat
  count : Nat
  out : String
  terminator : Dimacs.Terminator
  seed : Option UInt64
deriving DecidableEq, Repr

/-- What ratios to sweep over. -/
structure SweepOptions where
  numVars : Nat
  width : Nat
  minRatio : Double
  /-- Ratios end before this one. -/
  maxRatio : Double
  ratioStep : Double
  instances : Nat
deriving DecidableEq, Repr

/-- A request. -/
inductive Command where
  | file (path : String) (common : CommonOptions)
  /-- Solve a formula given as text, or as the text of a clause file. -/
  | text (input : String) (dimacs : Bool) (common : CommonOptions)
  | dir (path : String) (common : CommonOptions)
  | generate (options : GenerateOptions)
  | sweep (options : SweepOptions) (common : CommonOptions)
  | completions (shell : Shell)
deriving DecidableEq, Repr

/-- Everything that was asked for. -/
structure Invocation where
  /-- A clause file to solve when there is no other request. -/
  path : Option String
  command : Option Command
  /-- What was said without a request. -/
  common : CommonOptions
deriving DecidableEq, Repr

end ChronoSat.CommandLine
