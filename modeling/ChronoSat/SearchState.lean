/-
# The working state of a search

A formula's clauses are copied once into a row of working clauses. Making a
literal true marks the clauses it satisfies and strikes its opposite from the
others, and every change goes on the trail; going back to a checkpoint undoes
the changes made since, the latest first. Two counters, of clauses not yet
satisfied and of those without literals, answer the questions a search asks at
every node without looking at the clauses.

Undoing is only defined for changes that were made: a place beyond the end of a
clause or of the row, and a counter taken below zero, are faults.
-/

import ChronoSat.Remaining
import ChronoSat.Trail

namespace ChronoSat

/-- A clause that a search works on. -/
structure WorkingClause where
  /-- The literals not struck. -/
  literals : List Literal
  /-- Whether a literal of the clause was made true. -/
  satisfied : Bool
deriving DecidableEq

/-- The working state of a search. -/
structure SearchState where
  /-- All clauses of the formula, satisfied or not, in order. -/
  clauses : Array WorkingClause
  assignment : Assignment
  trail : Trail
  numVars : Nat
  /-- How many clauses are not satisfied. -/
  live : Nat
  /-- How many clauses have no literal left. -/
  emptied : Nat
deriving DecidableEq

/-- How much making a literal true changed. -/
structure Impact where
  satisfied : Nat
  /-- How many occurrences of the opposite literal were struck. -/
  struck : Nat
deriving DecidableEq, Repr

/-- Strikes every occurrence of a literal from a row that starts at `place`. The
places are those that the occurrences have when they are struck one after the
other. -/
def strike (falsified : Literal) (place : Nat) : List Literal → List Literal × List Nat
  | [] => ([], [])
  | literal :: rest =>
    if literal = falsified then
      let (kept, places) := strike falsified place rest
      (kept, place :: places)
    else
      let (kept, places) := strike falsified (place + 1) rest
      (literal :: kept, places)

/-- What making a literal true does to one clause. -/
structure ClauseEffect where
  clause : WorkingClause
  steps : List Trail.Step
  /-- One if the clause became satisfied. -/
  satisfied : Nat
  /-- How many literals were struck. -/
  struck : Nat
  /-- One if the clause lost its last literal. -/
  emptied : Nat

/-- What making a literal true does to a row of clauses. -/
structure RowEffect where
  clauses : List WorkingClause
  steps : List Trail.Step
  satisfied : Nat
  struck : Nat
  emptied : Nat

namespace WorkingClause

/-- Makes a literal true in the clause at a place. A clause that is satisfied
already is left alone, and so is one with neither the literal nor its opposite. -/
def makeTrue (literal : Literal) (index : Nat) (clause : WorkingClause) : ClauseEffect :=
  if clause.satisfied then ⟨clause, [], 0, 0, 0⟩
  else if clause.literals.contains literal then
    ⟨{ clause with satisfied := true }, [.satisfied index], 1, 0, 0⟩
  else if clause.literals.contains literal.negated then
    let (kept, places) := strike literal.negated 0 clause.literals
    ⟨{ clause with literals := kept },
      places.map fun place => .struck index place literal.negated,
      0, places.length, if kept.isEmpty then 1 else 0⟩
  else ⟨clause, [], 0, 0, 0⟩

theorem makeTrue_of_satisfied (literal : Literal) (index : Nat) {clause : WorkingClause}
    (satisfied : clause.satisfied = true) :
    clause.makeTrue literal index = ⟨clause, [], 0, 0, 0⟩ := by
  simp [makeTrue, satisfied]

theorem makeTrue_of_contains {literal : Literal} (index : Nat) {clause : WorkingClause}
    (live : clause.satisfied = false) (holds : clause.literals.contains literal = true) :
    clause.makeTrue literal index =
      ⟨{ clause with satisfied := true }, [.satisfied index], 1, 0, 0⟩ := by
  unfold makeTrue
  rw [if_neg (by simp [live]), if_pos holds]

end WorkingClause

namespace SearchState

/-- Everything open and every registered variable true. -/
def ofFormula (formula : Cnf) : SearchState where
  clauses := (formula.clauses.map fun clause => ⟨clause.literals, false⟩).toArray
  assignment := .uniform formula.numVars true
  trail := .empty
  numVars := formula.numVars
  live := formula.size
  emptied := formula.clauses.countP Clause.isEmpty

/-- Whether no clause is open any more. -/
def isSolved (state : SearchState) : Bool := state.live == 0

/-- Whether an open clause has lost all its literals. -/
def hasEmptyClause (state : SearchState) : Bool := 0 < state.emptied

/-- The open clauses, in order. -/
def liveClauses (state : SearchState) : List (List Literal) :=
  (state.clauses.toList.filter fun clause => !clause.satisfied).map WorkingClause.literals

/-- What a branching policy sees of the state. -/
def remaining (state : SearchState) : Remaining :=
  ⟨state.liveClauses, state.numVars⟩

/-- The literal of a clause that has just one. -/
def unitOf : List Literal → Option Literal
  | [literal] => some literal
  | _ => none

/-- The literal of a working clause that is open and has just one. -/
def openUnit (clause : WorkingClause) : Option Literal :=
  if clause.satisfied then none else unitOf clause.literals

/-- The literal of the first open clause that has just one. -/
def firstUnit (state : SearchState) : Option Literal :=
  state.clauses.findSome? openUnit

/-- The first unit can be told from the open clauses alone. -/
theorem firstUnit_eq_findSome? (state : SearchState) :
    state.firstUnit = state.liveClauses.findSome? unitOf := by
  unfold firstUnit liveClauses
  rw [← Array.findSome?_toList]
  induction state.clauses.toList with
  | nil => rfl
  | cons clause rest ih =>
    cases open_ : clause.satisfied with
    | true => simp [openUnit, open_, ih]
    | false =>
      rw [List.findSome?_cons, ih]
      simp [List.findSome?_cons, openUnit, open_]

/-- The point reached so far. -/
def checkpoint (state : SearchState) : Checkpoint := state.trail.checkpoint

/-- What making a literal true does to a row of clauses that starts at `index`. -/
def effectFrom (literal : Literal) (index : Nat) : List WorkingClause → RowEffect
  | [] => ⟨[], [], 0, 0, 0⟩
  | clause :: rest =>
    let first := clause.makeTrue literal index
    let others := effectFrom literal (index + 1) rest
    ⟨first.clause :: others.clauses, first.steps ++ others.steps,
      first.satisfied + others.satisfied, first.struck + others.struck,
      first.emptied + others.emptied⟩

/-- Makes a literal true and records every change. -/
def assign (state : SearchState) (literal : Literal) : Except Fault (SearchState × Impact) :=
  let effect := effectFrom literal 0 state.clauses.toList
  let first := Trail.Step.assigned literal.var (state.assignment.value? literal.var)
  if effect.satisfied ≤ state.live then
    .ok
      ({ state with
          clauses := effect.clauses.toArray
          assignment := state.assignment.assign literal.var literal.polarity
          trail := state.trail.pushAll (first :: effect.steps)
          live := state.live - effect.satisfied
          emptied := state.emptied + effect.emptied },
        ⟨effect.satisfied, effect.struck⟩)
  else .error .counterUnderflow

/-- Puts a struck literal back into its place. -/
def restoreLiteral (state : SearchState) (index place : Nat) (literal : Literal) :
    Except Fault SearchState :=
  match state.clauses[index]? with
  | none => .error (.outOfRange index state.clauses.size)
  | some clause =>
    let regained := if clause.literals.isEmpty then 1 else 0
    if state.emptied < regained then .error .counterUnderflow
    else if clause.literals.length < place then .error (.outOfRange place clause.literals.length)
    else
      let literals := clause.literals.insertIdx place literal
      .ok
        { state with
          clauses := state.clauses.setIfInBounds index { clause with literals := literals }
          emptied := state.emptied - regained }

/-- Opens a satisfied clause again. -/
def reopenClause (state : SearchState) (index : Nat) : Except Fault SearchState :=
  match state.clauses[index]? with
  | none => .error (.outOfRange index state.clauses.size)
  | some clause =>
    .ok
      { state with
        clauses := state.clauses.setIfInBounds index { clause with satisfied := false }
        live := state.live + 1 }

/-- Undoes one change. The trail is left as it is. -/
def undo (state : SearchState) : Trail.Step → Except Fault SearchState
  | .assigned var previous =>
    .ok { state with assignment := state.assignment.setSlot var previous }
  | .satisfied index => state.reopenClause index
  | .struck index place literal => state.restoreLiteral index place literal

/-- Undoes every change made since a checkpoint, the latest first. -/
def backtrack (state : SearchState) (mark : Checkpoint) : Except Fault SearchState := do
  let restored ← (state.trail.since mark).foldlM undo state
  return { restored with trail := state.trail.upTo mark }

end SearchState

end ChronoSat
