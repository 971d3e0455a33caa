/-
# Reducing a formula

Reducing a formula by an assignment reduces its clauses under what the assignment says:
clauses with a literal made true are dropped, literals made false are struck from the
others, and everything keeps its order. Names stay, and the reduction does not fail if
every assigned number is one that a literal can be made of.

A clause can also be reduced by one variable after the other, with each literal looked for
in what the ones before it have left. This comes to the same, because no variable is
assigned twice, so nothing that is struck would have been found.

The assignment that makes one literal true and says nothing else reduces a formula to
what making the literal true leaves of its clauses.
-/

import ChronoSat.Branching
import ChronoSat.Cnf.Reduction
import ChronoSat.Proofs.Assignment.Values
import ChronoSat.Proofs.Formula.Evaluation

namespace ChronoSat

variable {assignment : Assignment} {literal : Literal} {literals : List Literal}

theorem Clause.failsIn_iff :
    failsIn assignment literal = true ↔
      assignment.value? literal.var = some (!literal.polarity) := by
  unfold failsIn Assignment.literalValue?
  cases assignment.value? literal.var with
  | none => simp
  | some value =>
      simp only [Option.map_some, Literal.isTrueUnder, beq_iff_eq, Option.some.injEq]
      cases value <;> cases literal.polarity <;> simp

/-- What is left of a clause can be told from the values. -/
theorem Clause.reduce_eq (clause : Clause) (assignment : Assignment) :
    clause.reduce assignment =
      if ∀ other ∈ clause.literals, assignment.value? other.var ≠ some other.polarity then
        some { clause with
          literals := clause.literals.filter fun other =>
            assignment.value? other.var ≠ some (!other.polarity) }
      else none := by
  have dropped : clause.literals.any (holdsIn assignment) = true ↔
      ¬ ∀ other ∈ clause.literals, assignment.value? other.var ≠ some other.polarity := by
    simp only [List.any_eq_true, holdsIn_iff, ne_eq, not_forall, not_not, exists_prop]
  have kept : (fun other => !failsIn assignment other) =
      fun other => decide (assignment.value? other.var ≠ some (!other.polarity)) := by
    funext other
    rw [Bool.eq_iff_iff, decide_eq_true_eq, ne_eq, ← failsIn_iff, Bool.not_eq_true',
      Bool.not_eq_true]
  rw [reduce, kept]
  by_cases stays : ∀ other ∈ clause.literals, assignment.value? other.var ≠ some other.polarity
  · rw [if_pos stays, if_neg (mt dropped.mp (not_not.mpr stays))]
  · rw [if_neg stays, if_pos (dropped.mpr stays)]

namespace Formula

theorem map_literals_filterMap_reduce (clauses : List Clause) (assignment : Assignment) :
    (clauses.filterMap fun clause => clause.reduce assignment).map Clause.literals =
      Clauses.reducedUnder assignment.value? (clauses.map Clause.literals) := by
  induction clauses with
  | nil => rfl
  | cons clause rest ih =>
      rw [List.filterMap_cons, Clause.reduce_eq, List.map_cons, Clauses.reducedUnder_cons]
      by_cases stays : ∀ other ∈ clause.literals, assignment.value? other.var ≠ some other.polarity
      · rw [if_pos stays, if_pos stays]
        exact congrArg _ ih
      · rw [if_neg stays, if_neg stays]
        exact ih

/-- Reducing by an assignment to variables keeps the names and does not fail. -/
theorem exists_reduce (formula : Cnf)
    (inRange : ∀ var value, assignment.value? var = some value → 0 < var ∧ var ≤ Literal.maxVar) :
    ∃ reduced, formula.reduce assignment = .ok reduced ∧
      reduced.registry = formula.registry ∧
      reduced.clauses.map Clause.literals =
        Clauses.reducedUnder assignment.value? (formula.clauses.map Clause.literals) := by
  have kept := map_literals_filterMap_reduce formula.clauses assignment
  obtain ⟨literals, read⟩ := Assignment.exists_toLiterals inRange
  obtain ⟨clauses, registry⟩ := formula
  cases clauses with
  | nil => exact ⟨⟨[], registry⟩, rfl, rfl, kept⟩
  | cons clause rest =>
      have left : Formula.reduce ⟨clause :: rest, registry⟩ assignment =
          .ok ⟨(clause :: rest).filterMap fun clause => clause.reduce assignment, registry⟩ :=
        Outcomes.bind_eq_ok.mpr ⟨literals, read, rfl⟩
      exact ⟨_, left, rfl, kept⟩

end Formula

/-! ## One value after the other -/

/-- One turn of going through what an assignment makes true, with what is left of a clause
and whether it is satisfied: a literal that is left satisfies the clause, and the opposite
of one that is not is struck. -/
def Clause.applyLiteral (left : List Literal × Bool) (literal : Literal) : List Literal × Bool :=
  if literal ∈ left.1 then (left.1, true)
  else (left.1.filter fun other => other ≠ literal.negated, left.2)

/-- What going through literals that are made true leaves of a clause: nothing if one of them
satisfies it. -/
def Clause.applyAll (literals : List Literal) (clause : Clause) : Option Clause :=
  let left := literals.foldl applyLiteral (clause.literals, false)
  if left.2 then none else some { clause with literals := left.1 }

/-- The literals found and struck are those of the clause as it was, since none of them is
struck for the sake of another variable. -/
theorem Clause.foldl_applyLiteral
    (distinct : literals.Pairwise fun earlier later => earlier.var ≠ later.var)
    (row : List Literal) (satisfied : Bool) :
    ((literals.foldl applyLiteral (row, satisfied)).2 = true ↔
        satisfied = true ∨ ∃ literal ∈ literals, literal ∈ row) ∧
      ((literals.foldl applyLiteral (row, satisfied)).2 = false →
        (literals.foldl applyLiteral (row, satisfied)).1 =
          row.filter fun other => ∀ literal ∈ literals, other ≠ literal.negated) := by
  induction literals generalizing row satisfied with
  | nil => simp
  | cons literal rest ih =>
      obtain ⟨apart, others⟩ := List.pairwise_cons.mp distinct
      rw [List.foldl_cons, applyLiteral]
      split
      · next inside =>
          obtain ⟨found, _⟩ := ih others row true
          have already := found.mpr (.inl rfl)
          refine ⟨⟨fun _ => .inr ⟨literal, List.mem_cons_self, inside⟩, fun _ => already⟩, ?_⟩
          intro missed
          cases already.symm.trans missed
      · next outside =>
          obtain ⟨found, kept⟩ :=
            ih others (row.filter fun other => other ≠ literal.negated) satisfied
          -- What is struck is the opposite of this literal, which no later literal is.
          have still (later : Literal) (member : later ∈ rest) :
              later ∈ row.filter (fun other => other ≠ literal.negated) ↔ later ∈ row := by
            have different : later ≠ literal.negated := fun same =>
              apart later member (congrArg Literal.var same).symm
            simp [different]
          refine ⟨found.trans (or_congr_right ?_), fun missed => (kept missed).trans ?_⟩
          · rw [exists_congr fun later => and_congr_right (still later)]
            simp [outside]
          · rw [List.filter_filter]
            simp [Bool.and_comm]

/-- Reducing a clause is going through what the assignment makes true, one variable after the
other, and striking from what is left. -/
theorem Clause.reduce_eq_applyAll (read : assignment.toLiterals = .ok literals)
    (clause : Clause) : clause.reduce assignment = clause.applyAll literals := by
  obtain ⟨found, kept⟩ :=
    foldl_applyLiteral ((Assignment.pairwise_toLiterals read).imp Nat.ne_of_lt) clause.literals
      false
  have satisfied : (literals.foldl applyLiteral (clause.literals, false)).2 = true ↔
      ¬ ∀ other ∈ clause.literals, assignment.value? other.var ≠ some other.polarity := by
    rw [found]
    simp [Assignment.mem_toLiterals read, and_comm]
  rw [reduce_eq, applyAll]
  by_cases stays : ∀ other ∈ clause.literals, assignment.value? other.var ≠ some other.polarity
  · have missed := Bool.eq_false_iff.mpr (mt satisfied.mp (not_not.mpr stays))
    have struck : (fun other : Literal => decide (∀ literal ∈ literals, other ≠ literal.negated)) =
        fun other => decide (assignment.value? other.var ≠ some (!other.polarity)) := by
      funext other
      rw [decide_eq_decide, ← other.negated_var, ← other.negated_polarity, ne_eq,
        ← Assignment.mem_toLiterals read]
      constructor
      · exact fun different member => different _ member other.negated_negated.symm
      · rintro absent literal member rfl
        rw [literal.negated_negated] at absent
        exact absent member
    rw [if_pos stays, missed, kept missed, struck]
    rfl
  · rw [if_neg stays, if_pos (satisfied.mpr stays)]

/-! ## One literal -/

/-- The assignment that makes a choice and says nothing else. -/
def Choice.alone (choice : Choice) : Assignment :=
  Assignment.empty.assign choice.var choice.value

theorem Literal.value?_alone (literal : Literal) :
    literal.choice.alone.value? = Clauses.orElse (fun _ => none) literal := by
  rw [Choice.alone, Assignment.value?_assign]
  funext var
  rw [Function.update_apply]
  rfl

/-- Reducing by one literal keeps the names and does not fail. -/
theorem Formula.exists_reduce_alone (formula : Cnf) (inRange : literal.var ≤ Literal.maxVar) :
    ∃ reduced, formula.reduce literal.choice.alone = .ok reduced ∧
      reduced.registry = formula.registry ∧
      reduced.clauses.map Clause.literals =
        Clauses.reduced literal (formula.clauses.map Clause.literals) := by
  have known (var : Nat) (value : Bool) (said : literal.choice.alone.value? var = some value) :
      0 < var ∧ var ≤ Literal.maxVar := by
    rw [literal.value?_alone, Clauses.orElse_eq_some_iff] at said
    rcases said with nowhere | ⟨_, rfl, _⟩
    · cases nowhere
    · exact ⟨literal.var_pos, inRange⟩
  obtain ⟨reduced, applied, registry, clauses⟩ := formula.exists_reduce known
  refine ⟨reduced, applied, registry, ?_⟩
  rw [clauses, literal.value?_alone, ← Clauses.reduced_reducedUnder, Clauses.reducedUnder_none]

end ChronoSat
