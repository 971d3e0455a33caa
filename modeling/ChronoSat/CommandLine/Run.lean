/-
# Running the program

Arguments are read, the request in them is acted on, and how the program ends is
returned. Help, the version and completion scripts are texts that do not depend
on anything else; they are only named here.
-/

import ChronoSat.CommandLine.Arguments
import ChronoSat.CommandLine.Solving
import ChronoSat.CommandLine.Sweeping

namespace ChronoSat.CommandLine

/-- What running the program leads to. -/
inductive Outcome where
  /-- The arguments call for a text, or are not well formed. -/
  | dismissed (dismissal : Dismissal)
  | completions (shell : Shell)
  /-- A request was acted on. -/
  | finished (exit : Exit)
deriving DecidableEq, Repr

/-- The line that names the version. -/
def versionLine : String := "sat-dpll 0.1.0"

variable {m : Type → Type} [Monad m] {γ : Type} [RandomSource γ]

/-- Acts on a request. -/
def act (instruments : Instruments m γ) (files : Files m) : Command → m Outcome
  | .file path common => do
    return .finished ((← solveFile instruments files path common).exit common.debug)
  | .text input dimacs common => do
    return .finished ((← solveText instruments input dimacs common).exit common.debug)
  | .dir path common => do
    return .finished ((← solveDirectory instruments files path common).exit common.debug)
  | .generate options => do
    return .finished ((← generate instruments files options).exit false)
  | .sweep options common => do
    return .finished ((← sweep instruments options common).exit common.debug)
  | .completions shell => return .completions shell

/-- Acts on what was asked for. Nothing to solve calls for help. -/
def actOn (instruments : Instruments m γ) (files : Files m) (invocation : Invocation) : m Outcome :=
  match invocation.command, invocation.path with
  | some command, _ => act instruments files command
  | none, some path => act instruments files (.file path invocation.common)
  | none, none => return .dismissed .help

/-- Runs the program on its arguments. -/
def run (instruments : Instruments m γ) (files : Files m) (arguments : List String) : m Outcome :=
  match readArguments arguments with
  | .error dismissal => return .dismissed dismissal
  | .ok invocation => actOn instruments files invocation

end ChronoSat.CommandLine
