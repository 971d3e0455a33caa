/-
# Evaluation as clauses that hold

A conjunctive formula is true under an assignment exactly if every clause has a
literal whose variable has the value the literal asks for. This is how the clauses
of a working state are spoken of, so what is said of those carries over to the
formula.
-/

import ChronoSat.Proofs.Clauses.Reduction
import ChronoSat.Proofs.Formula.Obtainable

namespace ChronoSat

/-- Some assignment makes the formula true. -/
def Formula.Satisfiable (formula : Cnf) : Prop :=
  ∃ assignment, formula.evaluate assignment = true

/-- Whether a formula of either form is true: a conjunctive one if every clause is, a disjunctive
one if some clause is. -/
def Formula.valueIn : {form : NormalForm} → Formula form → Assignment → Bool
  | .conjunctive, formula, assignment => formula.evaluate assignment
  | .disjunctive, formula, assignment =>
    formula.clauses.any fun clause => clause.evaluate assignment

theorem Clause.holdsIn_iff {assignment : Assignment} {literal : Literal} :
    Clause.holdsIn assignment literal = true ↔
      assignment.value? literal.var = some literal.polarity := by
  unfold Clause.holdsIn Assignment.literalValue?
  cases assignment.value? literal.var with
  | none => simp
  | some value =>
      simp only [Option.map_some, Literal.isTrueUnder, beq_iff_eq, Option.some.injEq]
      exact eq_comm

namespace Formula

variable {formula : Cnf}

theorem evaluate_iff_hold (wellFormed : formula.WellFormed) (assignment : Assignment) :
    formula.evaluate assignment = true ↔
      Clauses.Hold assignment.value? (formula.clauses.map Clause.literals) := by
  rw [evaluate, List.all_eq_true, Clauses.Hold, List.forall_mem_map]
  refine forall₂_congr fun clause member => ?_
  rw [Clause.evaluate, wellFormed.connective_eq clause member]
  exact List.any_eq_true.trans (exists_congr fun _ => and_congr_right fun _ => Clause.holdsIn_iff)

/-- The variables that occur are registered. -/
theorem WellFormed.of_mem_vars (wellFormed : formula.WellFormed) {var : Nat}
    (occurs : var ∈ Clauses.vars (formula.clauses.map Clause.literals)) :
    0 < var ∧ var ≤ formula.numVars := by
  obtain ⟨_, member, literal, inside, rfl⟩ := Clauses.mem_vars.mp occurs
  obtain ⟨clause, there, rfl⟩ := List.mem_map.mp member
  exact ⟨literal.var_pos, wellFormed.var_le clause there literal inside⟩

end Formula

end ChronoSat
