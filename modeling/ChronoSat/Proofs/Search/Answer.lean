/-
# What an answer says about the search

A solver's report is made from the ending of one search, which begins with every
clause of the formula open, every registered variable true, and nothing counted.
-/

import ChronoSat.Solver
import ChronoSat.Proofs.Search.Exploration
import ChronoSat.Proofs.State.Reachable

namespace ChronoSat

/-- A clock that stands still. -/
def Clock.still : Clock := .jumping 0 0 0 (Nat.le_refl 0) (by decide)

namespace Solver

variable {σ : Type} {solver : Solver σ} {clock : Clock} {formula : Cnf}

/-- The search of a solver for a model of a formula. -/
def search (solver : Solver σ) (clock : Clock) (formula : Cnf) : Search.Ending × Search.Run σ :=
  Search.explore solver.policy (clock.alarm solver.timeout) (solver.frames formula) 0
    (.start formula solver.memory)

theorem solve_eq (fits : clock.deadlineFits solver.timeout = true) :
    solver.solve clock formula =
      (⟨formula.size, formula.numVars,
          answerOf solver.timeout (solver.search clock formula).2
            (solver.search clock formula).1,
          (solver.search clock formula).2.stats, (solver.search clock formula).2.events⟩,
        { solver with memory := (solver.search clock formula).2.memory }) := by
  rw [solve, if_pos fits]
  rfl

theorem answer_of_satisfied (fits : clock.deadlineFits solver.timeout = true)
    (satisfied : (solver.search clock formula).1 = .satisfied) :
    (solver.solve clock formula).1.answer =
      .ok (some (solver.search clock formula).2.state.assignment) := by
  rw [solve_eq fits, satisfied, answerOf]

theorem answer_of_exhausted (fits : clock.deadlineFits solver.timeout = true)
    (exhausted : (solver.search clock formula).1 = .exhausted) :
    (solver.solve clock formula).1.answer = .ok none := by
  rw [solve_eq fits, exhausted, answerOf]

theorem deadlineFits_of_answer {outcome : Option Assignment}
    (answered : (solver.solve clock formula).1.answer = .ok outcome) :
    clock.deadlineFits solver.timeout = true := by
  rw [← Bool.not_eq_false]
  intro late
  rw [solve, late] at answered
  cases answered

/-- A model is the assignment that a satisfied search ends with. -/
theorem search_of_some {model : Assignment}
    (answered : (solver.solve clock formula).1.answer = .ok (some model)) :
    (solver.search clock formula).1 = .satisfied ∧
      (solver.search clock formula).2.state.assignment = model := by
  rw [solve_eq (deadlineFits_of_answer answered)] at answered
  generalize solver.search clock formula = ended at answered
  obtain ⟨ending, after⟩ := ended
  cases ending with
  | satisfied => exact ⟨rfl, Option.some.inj (Except.ok.inj answered)⟩
  | exhausted => cases answered
  | stopped cause => cases cause <;> cases answered

/-- There is no model if the search was exhausted. -/
theorem search_of_none (answered : (solver.solve clock formula).1.answer = .ok none) :
    (solver.search clock formula).1 = .exhausted := by
  rw [solve_eq (deadlineFits_of_answer answered)] at answered
  generalize solver.search clock formula = ended at answered
  obtain ⟨ending, after⟩ := ended
  cases ending with
  | satisfied => cases answered
  | exhausted => rfl
  | stopped cause => cases cause <;> cases answered

theorem explored_search (solver : Solver σ) (clock : Clock) (formula : Cnf) :
    Search.Explored solver.policy (clock.alarm solver.timeout) (solver.frames formula) 0
      (.start formula solver.memory) (solver.search clock formula) :=
  Search.explored_explore _ _ _ _ _ (SearchState.coherent_ofFormula formula)

end Solver

end ChronoSat
