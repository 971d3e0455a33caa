/-
# The search

The search explores the subtree below a working state. At every node it does the
first of these that applies:

1. it stops if its time is up;
2. it is satisfied if no clause is open;
3. it fails if an open clause has no literal;
4. it makes the literal of the first unit clause true and goes on below;
5. it asks the policy, and explores below the proposed value and, if that fails,
   below the opposite one.

A subtree that fails is undone on the way out, so failing leaves the state as it
was found; being satisfied leaves it as it is then. Time is told by an alarm that
is looked at once at every node: the n-th look says whether the time is up.

The recursion is on the number of nodes that may still be nested. A policy that
proposes variables of remaining clauses never nests more nodes than there are
variables, and one more; `explore` itself assumes nothing about the policy.
-/

import ChronoSat.Clock
import ChronoSat.Search.Event

namespace ChronoSat

namespace Search

/-- Why a search was given up. -/
inductive Stop where
  | deadline
  | noCandidate
  | fault (fault : Fault)
deriving DecidableEq, Repr

/-- How the exploration of a subtree ends. -/
inductive Ending where
  | satisfied
  /-- The subtree holds no model, and everything below its root is undone. -/
  | exhausted
  | stopped (cause : Stop)
deriving DecidableEq, Repr

/-- Everything that changes during a search. -/
structure Run (σ : Type) where
  state : SearchState
  memory : σ
  stats : Stats
  /-- The account, the latest event first. -/
  latestFirst : List Event
  /-- How often the alarm was looked at. -/
  looks : Nat

namespace Run

variable {σ : Type}

/-- The beginning of a search for a model of a formula. -/
def start (formula : Cnf) (memory : σ) : Run σ :=
  ⟨.ofFormula formula, memory, .zero, [], 0⟩

/-- The account in order. -/
def events (run : Run σ) : List Event := run.latestFirst.reverse

/-- The alarm was looked at. -/
def noteLook (run : Run σ) : Run σ :=
  { run with looks := run.looks + 1 }

/-- A conflict was met. -/
def noteConflict (run : Run σ) (depth : Nat) : Run σ :=
  { run with
    stats := { run.stats with conflicts := run.stats.conflicts + 1 }
    latestFirst := .conflict depth :: run.latestFirst }

/-- A literal was propagated, with the state that this led to. -/
def notePropagation (run : Run σ) (literal : Literal) (depth : Nat) (state : SearchState)
    (impact : Impact) : Run σ :=
  { run with
    state := state
    stats := { run.stats with propagations := run.stats.propagations + 1 }
    latestFirst := .propagate literal depth impact :: run.latestFirst }

/-- The policy was asked: its memory afterwards, and the depth that the decision
opens. -/
def noteProposal (run : Run σ) (memory : σ) (depth : Nat) : Run σ :=
  { run with
    memory := memory
    stats := { run.stats with maxDepth := max run.stats.maxDepth depth } }

/-- A value is about to be tried. -/
def noteDecision (run : Run σ) (choice : Choice) (depth : Nat) : Run σ :=
  { run with
    stats := { run.stats with decisions := run.stats.decisions + 1 }
    latestFirst := .decide choice depth run.state.live :: run.latestFirst }

/-- A value was taken back. -/
def noteBacktrack (run : Run σ) (choice : Choice) (depth : Nat) : Run σ :=
  { run with
    stats := { run.stats with backtracks := run.stats.backtracks + 1 }
    latestFirst := .backtrack choice depth :: run.latestFirst }

end Run

variable {σ : Type}

/-- Gives up because of a fault. -/
def faulted (fault : Fault) (run : Run σ) : Ending × Run σ :=
  (.stopped (.fault fault), run)

/-- Undoes the changes made since a checkpoint if a subtree turned out to hold no
model. The checkpoint is all that has to be kept of the state above the subtree. -/
@[noinline]
def retreat (mark : Checkpoint) : Ending × Run σ → Ending × Run σ
  | (.exhausted, run) =>
    match run.state.backtrack mark with
    | .error fault => faulted fault run
    | .ok state => (.exhausted, { run with state := state })
  | ended => ended

/-- Makes the literal of a unit clause true and explores `below`. -/
def propagate (below : Run σ → Ending × Run σ) (depth : Nat) (literal : Literal) (run : Run σ) :
    Ending × Run σ :=
  match run.state.assign literal with
  | .error fault => faulted fault run
  | .ok (state, impact) =>
    retreat run.state.checkpoint (below (run.notePropagation literal depth state impact))

/-- Tries a value of a variable and explores `below`. -/
def attempt (below : Run σ → Ending × Run σ) (depth : Nat) (choice : Choice) (run : Run σ) :
    Ending × Run σ :=
  let tried := run.noteDecision choice depth
  match Literal.ofVar? choice.var choice.value with
  | none => faulted (.notAVariable choice.var) tried
  | some literal =>
    match tried.state.assign literal with
    | .error fault => faulted fault tried
    | .ok (state, _) =>
      match retreat run.state.checkpoint (below { tried with state := state }) with
      | (.exhausted, after) => (.exhausted, after.noteBacktrack choice depth)
      | ended => ended

/-- Tries a value of a variable and, if that fails, the opposite one. -/
def branch (below : Run σ → Ending × Run σ) (depth : Nat) (choice : Choice) (run : Run σ) :
    Ending × Run σ :=
  match attempt below depth choice run with
  | (.exhausted, after) => attempt below depth choice.opposite after
  | ended => ended

/-- Explores the subtree below a state, where at most `frames` nodes may be
nested and `depth` decisions are open. -/
def explore (policy : Policy σ) (alarm : Alarm) :
    (frames depth : Nat) → Run σ → Ending × Run σ
  | 0, _, run => faulted .nestingLimit run
  | frames + 1, depth, run =>
    let timeUp := alarm run.looks
    let run := run.noteLook
    if timeUp then (.stopped .deadline, run)
    else if run.state.isSolved then (.satisfied, run)
    else if run.state.hasEmptyClause then (.exhausted, run.noteConflict depth)
    else
      match run.state.firstUnit with
      | some literal => propagate (explore policy alarm frames depth) depth literal run
      | none =>
        match policy.propose run.state.remaining run.memory with
        | .error fault => faulted fault run
        | .ok (none, memory) => (.stopped .noCandidate, { run with memory := memory })
        | .ok (some choice, memory) =>
          branch (explore policy alarm frames (depth + 1)) (depth + 1) choice
            (run.noteProposal memory (depth + 1))

end Search

end ChronoSat
