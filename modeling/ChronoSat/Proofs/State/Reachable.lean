/-
# Working states that can be reached

A working state starts as a formula with everything open, and from then on
literals are made true and checkpoints are gone back to, in any order and to any
checkpoint. Whatever was done, the counters agree with the clauses and the trail is
a history that begins at the formula, so nothing that can still be done fails.
-/

import ChronoSat.Proofs.State.Making

namespace ChronoSat.SearchState

/-- A state that some row of operations on a formula's working state ends in. -/
inductive Reachable (formula : Cnf) : SearchState → Prop
  | start : Reachable formula (.ofFormula formula)
  | assign {state after : SearchState} {literal : Literal} {impact : Impact}
      (before : Reachable formula state) (made : state.assign literal = .ok (after, impact)) :
      Reachable formula after
  | backtrack {state restored : SearchState} {mark : Checkpoint}
      (before : Reachable formula state) (undone : state.backtrack mark = .ok restored) :
      Reachable formula restored

variable {formula : Cnf} {state : SearchState}

theorem coherent_ofFormula (formula : Cnf) : (ofFormula formula).Coherent where
  tallied := by
    refine ⟨?_, ?_, ?_⟩
    · simp only [ofFormula, Formula.size, List.countP_map]
      exact (List.countP_eq_length.mpr fun _ _ => rfl).symm
    · simp only [ofFormula, List.countP_map]
      rfl
    · intro clause member satisfied
      obtain ⟨_, _, rfl⟩ := List.mem_map.mp member
      cases satisfied
  room := nofun

theorem liveClauses_ofFormula (formula : Cnf) :
    (ofFormula formula).liveClauses = formula.clauses.map Clause.literals := by
  have allOpen : ((ofFormula formula).clauses.toList.filter fun clause => !clause.satisfied) =
      (ofFormula formula).clauses.toList := by
    rw [List.filter_eq_self]
    intro clause member
    obtain ⟨_, _, rfl⟩ := List.mem_map.mp member
    rfl
  rw [liveClauses, allOpen, ofFormula, List.map_map]
  rfl

/-- Whatever was done, the state is coherent and its trail leads back to the formula. -/
theorem Reachable.coherent_and_descends (reachable : Reachable formula state) :
    state.Coherent ∧ Descends (ofFormula formula) state := by
  induction reachable with
  | start => exact ⟨coherent_ofFormula formula, .refl _⟩
  | assign _ made ih =>
      obtain ⟨coherent, descends⟩ := ih
      have makes := makes_of_assign _ coherent made
      exact ⟨makes.coherent, descends.trans makes.descends⟩
  | backtrack _ undone ih =>
      obtain ⟨coherent, descends⟩ := ih
      obtain ⟨next, ran, nextDescends, nextCoherent, _⟩ :=
        descends.exists_backtrack_of_le coherent (Nat.zero_le _)
      rw [undone] at ran
      cases ran
      exact ⟨nextCoherent, nextDescends⟩

end ChronoSat.SearchState
