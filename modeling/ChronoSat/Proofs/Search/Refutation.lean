/-
# Exhausted searches refute

A search that ends exhausted has gone through every way of satisfying the clauses
it began with. Making a unit true loses none of them, and the two values of a
variable are all there is, whatever the variable: one that occurs in no clause, one
that was given a value before, or one of no name at all. So nothing is asked of the
policy here. What the argument needs instead is that the second value of a variable
is tried on the clauses that the first one was tried on, which is what undoing a
subtree is for.
-/

import ChronoSat.Proofs.Formula.Evaluation
import ChronoSat.Proofs.Search.Answer

namespace ChronoSat.Search

open SearchState

variable {σ : Type} {policy : Policy σ} {alarm : Alarm} {frames depth : Nat}
  {run after : Run σ} {ending : Ending}

/-- The clauses that are open where an exhausted search begins cannot be satisfied. -/
theorem Explores.unsatisfiable (explores : Explores policy alarm frames depth run ending after)
    (exhausted : ending = .exhausted) : Clauses.Unsatisfiable run.state.liveClauses := by
  induction explores with
  | nestingLimit | deadline | satisfied | policyFault | noCandidate | notAVariable =>
      cases exhausted
  | forced _ _ _ kept | decided _ _ _ kept | decidedSecond _ _ _ _ _ _ kept =>
      exact absurd exhausted kept
  | conflict _ empty => exact Clauses.unsatisfiable_of_nil_mem empty
  | forcedBack forces made _ _ ih =>
      have below := ih rfl
      rw [Run.notePropagation, made.liveClauses_eq] at below
      exact Clauses.unsatisfiable_of_unit (mem_of_firstUnit forces.unit) below
  | bothBack _ made _ undone madeOpposite _ _ firstIh secondIh =>
      have first := firstIh rfl
      have second := secondIh rfl
      rw [Run.entered, made.liveClauses_eq] at first
      rw [Run.entered, madeOpposite.liveClauses_eq, undone.liveClauses_eq] at second
      exact Clauses.unsatisfiable_of_both first second

/-- No assignment makes a formula true whose search is exhausted. -/
theorem evaluate_eq_false_of_exhausted {solver : Solver σ} {formula : Cnf}
    (wellFormed : formula.WellFormed) (exhausted : (solver.search clock formula).1 = .exhausted)
    (assignment : Assignment) : formula.evaluate assignment = false := by
  have refuted := (solver.explored_search clock formula).explores.unsatisfiable exhausted
  rw [Run.start, liveClauses_ofFormula] at refuted
  rw [Bool.eq_false_iff, ne_eq, Formula.evaluate_iff_hold wellFormed]
  exact refuted assignment.value?

/-- Whatever the policy proposes: if a solver finds that there is no model, then no
assignment, total or partial, makes the formula true, and wherever a search below a
reachable state is exhausted, no values at all satisfy the clauses that were open
there. -/
theorem refutes_of_exhausted {formula : Cnf} (obtained : Obtainable formula)
    (policy : Policy σ) :
    (∀ (memory : σ) (timeout : Option Duration) (idleProposals : Nat) (clock : Clock),
      (Solver.solve ⟨policy, memory, timeout, idleProposals⟩ clock formula).1.answer = .ok none →
        ∀ assignment, formula.evaluate assignment = false) ∧
    (∀ (alarm : Alarm) (frames depth : Nat) (run after : Run σ),
      Reachable formula run.state →
        explore policy alarm frames depth run = (.exhausted, after) →
          ∀ values, ¬ Clauses.Hold values run.state.liveClauses) := by
  constructor
  · intro memory timeout idleProposals clock answered
    exact evaluate_eq_false_of_exhausted obtained.wellFormed (Solver.search_of_none answered)
  · intro alarm frames depth run after reachable ended
    have explored := explored_explore policy alarm frames depth run
      reachable.coherent_and_descends.1
    rw [ended] at explored
    exact explored.explores.unsatisfiable rfl

/-- All four clauses over two variables. -/
def contradiction : Cnf :=
  .ofNamed [[("a", true), ("b", true)], [("a", true), ("b", false)], [("a", false), ("b", true)],
    [("a", false), ("b", false)]]

theorem obtainable_contradiction : Obtainable contradiction :=
  .addClauses [["a", "b"], ["a", "¬b"], ["¬a", "b"], ["¬a", "¬b"]] .empty rfl

/-- A script that starts with a variable of no name and repeats one that has a value. -/
def strayScript : List Choice := [⟨7, true⟩, ⟨1, false⟩, ⟨1, true⟩, ⟨1, true⟩]

theorem refutes_contradiction :
    (Solver.solve ⟨.scripted, strayScript, none, 4⟩ .still contradiction).1.answer = .ok none ∧
      (∀ assignment, contradiction.evaluate assignment = false) ∧
      ∀ values, ¬ Clauses.Hold values (ofFormula contradiction).liveClauses := by
  have answered :
      (Solver.solve ⟨.scripted, strayScript, none, 4⟩ .still contradiction).1.answer =
        .ok none := rfl
  have ended : explore .scripted .never 7 0 (.start contradiction strayScript) =
      (.exhausted, (explore .scripted .never 7 0 (.start contradiction strayScript)).2) :=
    Prod.ext rfl rfl
  have refutes := refutes_of_exhausted obtainable_contradiction .scripted
  exact ⟨answered, refutes.1 strayScript none 4 .still answered,
    refutes.2 .never 7 0 (.start contradiction strayScript) _ .start ended⟩

end ChronoSat.Search
