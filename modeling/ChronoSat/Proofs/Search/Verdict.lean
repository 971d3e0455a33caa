/-
# Verdicts

A solver with a policy of the library and no budget of time settles every formula, and
its answer can be told from the formula: a model if there is one, with a value for each
registered variable and no slot beyond them, and nothing otherwise. Which model it is
depends on what the policy draws, and whether there is one does not.

A solver with no time at all finds out nothing, and remembers what it remembered.
-/

import ChronoSat.Proofs.Search.Totality
import ChronoSat.Proofs.Search.Undoing

namespace ChronoSat

/-- An answer that settles a formula. -/
inductive Settles (formula : Cnf) : Except Failure (Option Assignment) → Prop
  | satisfiable {model : Assignment} (holds : formula.evaluate model = true)
      (covers : model.Covers formula.numVars) (room : model.room = formula.numVars + 1) :
      Settles formula (.ok (some model))
  | unsatisfiable (refuted : ¬formula.Satisfiable) : Settles formula (.ok none)

namespace Solver

variable {γ : Type} [RandomSource γ] {formula : Cnf}

theorem settles_builtIn (obtained : Obtainable formula) (selection : Selection) (source : γ)
    (idleProposals : Nat) (clock : Clock) :
    Settles formula ((builtIn selection source idleProposals).solve clock formula).1.answer := by
  have wellFormed := obtained.wellFormed
  rcases search_builtIn obtained selection source idleProposals clock with
    ⟨satisfied, _⟩ | ⟨exhausted, refuted⟩
  · have descent := descent_of_satisfied wellFormed selection.honours trivial satisfied
    have registers := (selection.honours (γ := γ)).proposesRegistered formula.numVars
    let solver := builtIn selection source idleProposals
    have room : (solver.search clock formula).2.state.assignment.room = formula.numVars + 1 :=
      room_search wellFormed registers trivial clock
    rw [answer_of_satisfied rfl satisfied]
    exact .satisfiable (descent.evaluate wellFormed) (descent.covers wellFormed) room
  · rw [answer_of_exhausted rfl exhausted]
    exact .unsatisfiable refuted

/-- What a solver of the library remembers does not make it another one. -/
theorem exists_solve_builtIn (selection : Selection) (source : γ) (idleProposals : Nat)
    (clock : Clock) (formula : Cnf) :
    ∃ later, ((builtIn selection source idleProposals).solve clock formula).2 =
      builtIn selection later idleProposals :=
  ⟨_, rfl⟩

/-- Without a budget a configuration makes a solver of the library. -/
theorem build_eq_builtIn {config : SolverConfig} (unlimited : config.timeout = none) (fresh : γ) :
    config.build fresh =
      builtIn config.selection (RandomSource.seeded config.seed fresh) 0 := by
  rw [SolverConfig.build, unlimited]
  rfl

/-- With no time at all the first look already shows that it is up. -/
theorem solve_of_noTime {σ : Type} {solver : Solver σ} (noTime : solver.timeout = some .zero)
    (clock : Clock) (formula : Cnf) :
    (solver.solve clock formula).1.answer = .error (.error (.timeout .zero)) ∧
      (solver.solve clock formula).2 = solver := by
  have fits : clock.deadlineFits solver.timeout = true := by
    rw [noTime]
    exact clock.deadlineFits_zero
  have stops : solver.search clock formula =
      (.stopped .deadline, (Search.Run.start formula solver.memory).noteLook) := by
    rw [search, noTime, Clock.alarm_zero]
    rfl
  rw [solve_eq fits, stops, answerOf]
  refine ⟨?_, rfl⟩
  rw [noTime]
  rfl

end Solver

end ChronoSat
