/-
# The search by value

The same search can be told without a working state. A node is then a formula and
an assignment; going below a literal reduces the formula by it and gives the
assignment its value, and a subtree that fails leaves nothing to undo, because the
node still has its formula and its assignment. Faults aside, this is the reading
under which the search is a recursion over formulas, at the price of a copy for
every node.

This module has the search by value and, since the two are compared by what they
ask as well, the record of queries. The record is kept by the search by value
itself; for any search it can be kept by a policy that remembers what it was asked.
-/

import ChronoSat.Proofs.Formula.Reduction
import ChronoSat.Solver

namespace ChronoSat

/-- What a policy was asked and what it answered. -/
structure Query where
  remaining : Remaining
  answer : Option Choice
deriving DecidableEq

/-- The policy that in addition remembers what it was asked, the latest first. -/
def Policy.recorded {σ : Type} (policy : Policy σ) : Policy (σ × List Query) where
  propose remaining memory := do
    let (answer, later) ← policy.propose remaining memory.1
    return (answer, later, ⟨remaining, answer⟩ :: memory.2)

/-- The solver whose policy in addition remembers what it was asked. -/
def Solver.recorded {σ : Type} (solver : Solver σ) : Solver (σ × List Query) :=
  ⟨solver.policy.recorded, (solver.memory, []), solver.timeout, solver.idleProposals⟩

/-- The literal of the first clause that has just one. -/
def Formula.firstUnit (formula : Cnf) : Option Literal :=
  formula.unitClauses.head?.bind fun clause => clause.literals.head?

/-- Whether there is an empty clause can be told from the rows of literals. -/
theorem Formula.hasEmptyClause_iff (formula : Cnf) :
    formula.hasEmptyClause = true ↔ [] ∈ formula.clauses.map Clause.literals := by
  rw [hasEmptyClause, List.any_eq_true, List.mem_map]
  exact exists_congr fun clause => and_congr_right fun _ => List.isEmpty_iff

/-- The first unit of a formula can be told from its rows of literals. -/
theorem Formula.firstUnit_eq_findSome? (formula : Cnf) :
    formula.firstUnit =
      (formula.clauses.map Clause.literals).findSome? SearchState.unitOf := by
  rw [Formula.firstUnit, Formula.unitClauses]
  induction formula.clauses with
  | nil => rfl
  | cons clause rest ih =>
      rw [List.map_cons, List.findSome?_cons]
      obtain ⟨connective, literals⟩ := clause
      rcases literals with _ | ⟨literal, _ | ⟨other, others⟩⟩
      · exact ih
      · rfl
      · exact ih

namespace Search

/-- What a search by value hands from node to node. -/
@[ext]
structure Notes (σ : Type) where
  memory : σ
  stats : Stats
  /-- The queries, the latest first. -/
  asked : List Query

variable {σ : Type}

/-- Changes the counters. -/
def Notes.count (notes : Notes σ) (change : Stats → Stats) : Notes σ :=
  { notes with stats := change notes.stats }

/-- The policy was asked. -/
def Notes.ask (notes : Notes σ) (query : Query) (memory : σ) : Notes σ :=
  { notes with memory := memory, asked := query :: notes.asked }

/-- Tries a value of a variable on a formula. -/
def tryByValue (below : Cnf → Assignment → Notes σ →
      Except Failure (Option Assignment) × Notes σ)
    (formula : Cnf) (values : Assignment) (choice : Choice) (notes : Notes σ) :
    Except Failure (Option Assignment) × Notes σ :=
  let tried := notes.count fun stats => { stats with decisions := stats.decisions + 1 }
  match formula.reduce choice.alone with
  | .error fault => (.error (.fault fault), tried)
  | .ok reduced =>
    match below reduced (values.assign choice.var choice.value) tried with
    | (.ok none, after) =>
      (.ok none, after.count fun stats => { stats with backtracks := stats.backtracks + 1 })
    | ended => ended

/-- Tries a value of a variable on a formula and, if that fails, the opposite one. -/
def branchByValue (below : Cnf → Assignment → Notes σ →
      Except Failure (Option Assignment) × Notes σ)
    (formula : Cnf) (values : Assignment) (choice : Choice) (notes : Notes σ) :
    Except Failure (Option Assignment) × Notes σ :=
  match tryByValue below formula values choice notes with
  | (.ok none, after) => tryByValue below formula values choice.opposite after
  | ended => ended

/-- The search by value, where at most `frames` nodes may be nested and `depth`
decisions are open. -/
def byValue (policy : Policy σ) : (frames depth : Nat) → Cnf → Assignment → Notes σ →
    Except Failure (Option Assignment) × Notes σ
  | 0, _, _, _, notes => (.error (.fault .nestingLimit), notes)
  | frames + 1, depth, formula, values, notes =>
    if formula.clauses.isEmpty then (.ok (some values), notes)
    else if formula.hasEmptyClause then
      (.ok none, notes.count fun stats => { stats with conflicts := stats.conflicts + 1 })
    else
      match formula.firstUnit with
      | some literal =>
        match formula.reduce literal.choice.alone with
        | .error fault => (.error (.fault fault), notes)
        | .ok reduced =>
          byValue policy frames depth reduced (values.assign literal.var literal.polarity)
            (notes.count fun stats => { stats with propagations := stats.propagations + 1 })
      | none =>
        match policy.propose formula.remaining notes.memory with
        | .error fault => (.error (.fault fault), notes)
        | .ok (none, memory) =>
          (.error (.error .noCandidate), notes.ask ⟨formula.remaining, none⟩ memory)
        | .ok (some choice, memory) =>
          branchByValue (byValue policy frames (depth + 1)) formula values choice
            ((notes.ask ⟨formula.remaining, some choice⟩ memory).count fun stats =>
              { stats with maxDepth := max stats.maxDepth (depth + 1) })

end Search

/-- The search by value for a model of a formula, where at most `frames` nodes may be
nested. -/
def Formula.searchByValue {σ : Type} (formula : Cnf) (policy : Policy σ) (memory : σ)
    (frames : Nat) : Except Failure (Option Assignment) × Search.Notes σ :=
  Search.byValue policy frames 0 formula (.uniform formula.numVars true) ⟨memory, .zero, []⟩

end ChronoSat
