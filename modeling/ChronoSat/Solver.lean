/-
# Solvers

A solver is a branching policy with its memory and a budget of time. It can be
used for several formulas in turn; the memory carries over, the counters start
anew. What a solver reports is the answer, the counters, and the account of the
search.
-/

import ChronoSat.Search.Basic

namespace ChronoSat

/-- A branching policy ready to be used. -/
structure Solver (σ : Type) where
  policy : Policy σ
  memory : σ
  timeout : Option Duration
  /-- How many times the policy may propose a variable of no remaining clause. -/
  idleProposals : Nat

/-- What a solver found out about a formula. -/
structure Report where
  numClauses : Nat
  numVars : Nat
  /-- A model if there is one, nothing if there is none, or why neither is known. -/
  answer : Except Failure (Option Assignment)
  stats : Search.Stats
  events : List Search.Event

namespace Solver

variable {σ : Type}

/-- The answer that a search's ending stands for. -/
def answerOf (timeout : Option Duration) (run : Search.Run σ) :
    Search.Ending → Except Failure (Option Assignment)
  | .satisfied => .ok (some run.state.assignment)
  | .exhausted => .ok none
  | .stopped .deadline => .error (.error (.timeout (timeout.getD .zero)))
  | .stopped .noCandidate => .error (.error .noCandidate)
  | .stopped (.fault fault) => .error (.fault fault)

/-- How many nodes may be nested in a search on a formula: every one below the
first removes a variable from what remains, or uses up an idle proposal. -/
def frames (solver : Solver σ) (formula : Cnf) : Nat :=
  formula.numVars + solver.idleProposals + 1

/-- Searches for a model of a formula by a clock, which tells when the solver's budget is used
up. The solver that comes back remembers what the policy does. -/
def solve (solver : Solver σ) (clock : Clock) (formula : Cnf) : Report × Solver σ :=
  if clock.deadlineFits solver.timeout then
    let (ending, run) :=
      Search.explore solver.policy (clock.alarm solver.timeout) (solver.frames formula) 0
        (.start formula solver.memory)
    (⟨formula.size, formula.numVars, answerOf solver.timeout run ending, run.stats, run.events⟩,
      { solver with memory := run.memory })
  else
    (⟨formula.size, formula.numVars, .error (.fault .deadlineOverflow), .zero, []⟩, solver)

/-- A solver that branches as a script says. -/
def scripted (script : List Choice) (timeout : Option Duration) : Solver (List Choice) :=
  ⟨.scripted, script, timeout, script.length⟩

end Solver

/-- What it takes to build a solver. -/
structure SolverConfig where
  selection : Selection
  timeout : Option Duration
  /-- Where the policy's draws start from. -/
  seed : Option UInt64
deriving DecidableEq, Repr

/-- Builds the solver. Without a seed it draws from `fresh`. -/
def SolverConfig.build {γ : Type} [RandomSource γ] (config : SolverConfig) (fresh : γ) :
    Solver γ :=
  ⟨config.selection.policy, RandomSource.seeded config.seed fresh, config.timeout, 0⟩

/-- A message with its importance. -/
structure LogLine where
  level : Search.Level
  message : String
deriving DecidableEq, Repr

namespace Report

/-- The last line of a search's log, where `elapsed` is how long the search took. -/
def closingLine (report : Report) (elapsed : String) : Option LogLine :=
  let after := "after " ++ toString report.stats.decisions ++ " decisions"
  match report.answer with
  | .ok (some _) => some ⟨.info, "satisfiable " ++ after ++ " in " ++ elapsed⟩
  | .ok none => some ⟨.info, "unsatisfiable " ++ after ++ " in " ++ elapsed⟩
  | .error (.error error) => some ⟨.info, "gave up " ++ after ++ ": " ++ error.message⟩
  | .error (.fault _) => none

/-- The log of a search: what it set out to do, its account, and how it ended. -/
def log (report : Report) (elapsed : String) : List LogLine :=
  let opening : LogLine :=
    ⟨.info, "solving " ++ toString report.numClauses ++ " clauses over " ++
      toString report.numVars ++ " variables"⟩
  opening :: report.events.map (fun event => ⟨event.level, event.message⟩) ++
    (report.closingLine elapsed).toList

end Report

/-- Solves a formula with the first policy and gives the model by name. -/
def Formula.solve (formula : Cnf) (clock : Clock) (timeout : Option Duration) :
    Except Failure (Option (List (String × Bool))) := do
  let solver : Solver Generator := ⟨Selection.naive.policy, ⟨0⟩, timeout, 0⟩
  match ← (solver.solve clock formula).1.answer with
  | none => return none
  | some model =>
    match model.toNamed formula.registry with
    | .error error => throw (.error error)
    | .ok named => return some named

end ChronoSat
