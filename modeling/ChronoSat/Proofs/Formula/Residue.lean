/-
# What a reduction leaves

What an assignment leaves of a formula is the rest of the question that the formula asks.
Any assignment that says the same and perhaps more answers the rest as it answers the whole,
so the rest can be satisfied exactly if the formula can be satisfied without contradicting
the assignment. The rest asks nothing exactly if the assignment satisfies the formula already,
it cannot be satisfied at a glance exactly if the assignment makes all literals of a clause
false, and it has none of the assigned variables. Reducing the rest is reducing the formula
by both assignments at once, where the first one has the say.

Evaluation counts an unassigned literal for nothing. So the rest and the formula are compared
under assignments that extend the one applied: under others the formula may well have a true
literal that the reduction struck.
-/

import ChronoSat.Proofs.Formula.Reduction

namespace ChronoSat

namespace Assignment

/-- Every assigned number is one that a literal can be made of. -/
def InRange (assignment : Assignment) : Prop :=
  ∀ var value, assignment.value? var = some value → 0 < var ∧ var ≤ Literal.maxVar

/-- One assignment says what another says, and perhaps more. -/
def Extends (longer shorter : Assignment) : Prop :=
  ∀ var value, shorter.value? var = some value → longer.value? var = some value

/-- What two assignments say together: the second one counts where the first says nothing. -/
def Combines (both first second : Assignment) : Prop :=
  ∀ var, both.value? var = (first.value? var).or (second.value? var)

variable {assignment longer shorter both first second : Assignment}

theorem inRange_iff :
    assignment.InRange ↔ ∀ pair ∈ assignment.pairs, 0 < pair.1 ∧ pair.1 ≤ Literal.maxVar := by
  simp only [InRange, ← mem_pairs, Prod.forall]

theorem extends_iff :
    longer.Extends shorter ↔ ∀ pair ∈ shorter.pairs, longer.value? pair.1 = some pair.2 := by
  simp only [Extends, ← mem_pairs, Prod.forall]

instance : Decidable assignment.InRange := decidable_of_iff _ inRange_iff.symm

instance : Decidable (longer.Extends shorter) := decidable_of_iff _ extends_iff.symm

/-- Two assignments can be combined. -/
theorem exists_combines (first second : Assignment) : ∃ both, Combines both first second := by
  refine ⟨⟨(List.range (max first.room second.room)).map fun var =>
    (first.value? var).or (second.value? var)⟩, fun var => ?_⟩
  by_cases inside : var < max first.room second.room
  · simp [value?, List.getElem?_range inside]
  · have beyond : first.slots.length ≤ var ∧ second.slots.length ≤ var := by
      unfold room at inside
      omega
    simp [value?, room, beyond]

theorem Combines.extends_first (combines : Combines both first second) : both.Extends first := by
  intro var value said
  rw [combines, said, Option.some_or]

theorem Combines.inRange (combines : Combines both first second) (firstInRange : first.InRange)
    (secondInRange : second.InRange) : both.InRange := by
  intro var value said
  rw [combines, Option.or_eq_some_iff] at said
  rcases said with said | ⟨_, said⟩
  · exact firstInRange var value said
  · exact secondInRange var value said

end Assignment

namespace Formula

variable {form : NormalForm} {formula reduced : Cnf} {assignment : Assignment}

/-! ## Formulas by their literals -/

/-- The connectives of a well-formed formula are known from its form. -/
theorem WellFormed.clauses_eq {formula : Formula form} (wellFormed : formula.WellFormed) :
    formula.clauses = (formula.clauses.map Clause.literals).map fun row => ⟨form.inner, row⟩ := by
  rw [List.map_map]
  refine (List.map_id _).symm.trans (List.map_congr_left fun clause member => ?_)
  rw [Function.comp_apply, ← wellFormed.connective_eq clause member]
  rfl

theorem WellFormed.eq_of_literals_eq {left right : Formula form} (leftWellFormed : left.WellFormed)
    (rightWellFormed : right.WellFormed) (registry : left.registry = right.registry)
    (literals : left.clauses.map Clause.literals = right.clauses.map Clause.literals) :
    left = right := by
  have clauses : left.clauses = right.clauses := by
    rw [leftWellFormed.clauses_eq, literals, ← rightWellFormed.clauses_eq]
  cases left
  cases right
  cases registry
  cases clauses
  rfl

/-! ## The rest of a formula -/

/-- One formula is what an assignment leaves of another. -/
structure IsRest (assignment : Assignment) (formula rest : Cnf) : Prop where
  whole : formula.WellFormed
  wellFormed : rest.WellFormed
  registry_eq : rest.registry = formula.registry
  literals_eq : rest.clauses.map Clause.literals =
    Clauses.reducedUnder assignment.value? (formula.clauses.map Clause.literals)

/-- Reducing by an assignment to variables gives the rest. -/
theorem WellFormed.exists_isRest (wellFormed : formula.WellFormed)
    (inRange : assignment.InRange) :
    ∃ rest, formula.reduce assignment = .ok rest ∧ IsRest assignment formula rest := by
  obtain ⟨rest, applied, registry, literals⟩ := formula.exists_reduce inRange
  exact ⟨rest, applied, wellFormed, wellFormed.of_reduce applied, registry, literals⟩

/-- Reducing a formula goes through what the assignment makes true, one variable after the other,
for each clause. -/
theorem exists_clauses_eq_filterMap (inRange : assignment.InRange)
    (applied : formula.reduce assignment = .ok reduced) :
    ∃ literals, assignment.toLiterals = .ok literals ∧
      reduced.clauses = formula.clauses.filterMap (Clause.applyAll literals) := by
  obtain ⟨literals, read⟩ := Assignment.exists_toLiterals inRange
  refine ⟨literals, read, ?_⟩
  simp only [← Clause.reduce_eq_applyAll read]
  unfold reduce at applied
  split at applied
  · next empty =>
      cases applied
      rw [empty, List.filterMap_nil]
  · obtain ⟨_, _, same⟩ := Outcomes.bind_eq_ok.mp applied
    cases same
    rfl

namespace IsRest

variable {rest : Cnf} {first second both : Assignment}

/-- There is one rest only. -/
theorem eq {other : Cnf} (isRest : IsRest assignment formula rest)
    (isOther : IsRest assignment formula other) : rest = other :=
  isRest.wellFormed.eq_of_literals_eq isOther.wellFormed
    (isRest.registry_eq.trans isOther.registry_eq.symm)
    (isRest.literals_eq.trans isOther.literals_eq.symm)

/-- Assignments that extend the one applied answer the rest as they answer the whole. -/
theorem evaluate_eq (isRest : IsRest assignment formula rest) {total : Assignment}
    (longer : total.Extends assignment) : rest.evaluate total = formula.evaluate total := by
  rw [Bool.eq_iff_iff, evaluate_iff_hold isRest.wellFormed, evaluate_iff_hold isRest.whole,
    isRest.literals_eq]
  exact Clauses.hold_reducedUnder_iff longer

theorem clauses_eq_nil_iff (isRest : IsRest assignment formula rest) :
    rest.clauses = [] ↔ formula.evaluate assignment = true := by
  rw [evaluate_iff_hold isRest.whole, ← Clauses.reducedUnder_eq_nil_iff, ← isRest.literals_eq,
    List.map_eq_nil_iff]

theorem hasEmptyClause_iff (isRest : IsRest assignment formula rest) :
    rest.hasEmptyClause = true ↔
      ∃ clause ∈ formula.clauses, ∀ literal ∈ clause.literals,
        assignment.literalValue? literal = some false := by
  have empty : rest.hasEmptyClause = true ↔ [] ∈ rest.clauses.map Clause.literals := by
    simp [hasEmptyClause, Clause.isEmpty]
  have fails (literal : Literal) : assignment.literalValue? literal = some false ↔
      assignment.value? literal.var = some (!literal.polarity) := by
    rw [← Clause.failsIn_iff, Clause.failsIn, beq_iff_eq]
  simp only [empty, isRest.literals_eq, Clauses.nil_mem_reducedUnder_iff, fails, List.mem_map,
    exists_exists_and_eq_and]

/-- No variable of the rest is assigned. -/
theorem value?_eq_none (isRest : IsRest assignment formula rest) {clause : Clause}
    (member : clause ∈ rest.clauses) {literal : Literal} (inside : literal ∈ clause.literals) :
    assignment.value? literal.var = none := by
  have left : clause.literals ∈ rest.clauses.map Clause.literals := List.mem_map_of_mem member
  rw [isRest.literals_eq] at left
  exact Clauses.eq_none_of_mem_reducedUnder left inside

/-- The rest of the rest is what both assignments leave together. -/
theorem trans {twice : Cnf} (isRest : IsRest first formula rest)
    (isTwice : IsRest second rest twice) (combines : both.Combines first second) :
    IsRest both formula twice where
  whole := isRest.whole
  wellFormed := isTwice.wellFormed
  registry_eq := isTwice.registry_eq.trans isRest.registry_eq
  literals_eq := by
    rw [isTwice.literals_eq, isRest.literals_eq, Clauses.reducedUnder_reducedUnder]
    exact congrArg (Clauses.reducedUnder · _) (funext combines).symm

/-- The rest can be satisfied exactly if the whole can without contradicting the assignment. -/
theorem satisfiable_iff (isRest : IsRest assignment formula rest) :
    rest.Satisfiable ↔ ∃ model : Assignment, model.Extends assignment ∧
      formula.evaluate model = true := by
  constructor
  · rintro ⟨model, made⟩
    obtain ⟨both, combines⟩ := Assignment.exists_combines assignment model
    refine ⟨both, combines.extends_first, ?_⟩
    rw [← isRest.evaluate_eq combines.extends_first]
    -- The assignment has no say on the variables of the rest, so the model keeps its own.
    rw [evaluate_iff_hold isRest.wellFormed] at made ⊢
    intro row member
    obtain ⟨literal, inside, given⟩ := made row member
    obtain ⟨clause, there, rfl⟩ := List.mem_map.mp member
    exact ⟨literal, inside, by rw [combines, isRest.value?_eq_none there inside, Option.none_or,
      given]⟩
  · rintro ⟨model, longer, made⟩
    exact ⟨model, by rw [isRest.evaluate_eq longer, made]⟩

end IsRest

/-- Reducing is exact and can be done in parts. Reducing by an assignment to variables does not
fail, and it may strike the literals of one assigned variable after the other. Under the
assignments that extend the one applied, the rest has the value of the formula. Nothing is left
exactly if the assignment satisfies the formula, and an empty clause exactly if it makes all
literals of a clause false. No literal over an assigned variable is left. Reducing the rest
gives, with its names, what the formula is reduced to by both assignments together. So the rest
can be satisfied exactly if a model of the formula extends the assignment. -/
theorem reduce_exact (obtained : Obtainable formula) {first second : Assignment}
    (firstInRange : first.InRange) (secondInRange : second.InRange) :
    ∃ rest, formula.reduce first = .ok rest ∧
      (∃ literals, first.toLiterals = .ok literals ∧
        rest.clauses = formula.clauses.filterMap (Clause.applyAll literals)) ∧
      (∀ total : Assignment, total.Extends first →
        rest.evaluate total = formula.evaluate total) ∧
      (formula.evaluate first = true ↔ rest.clauses = []) ∧
      (rest.hasEmptyClause = true ↔ ∃ clause ∈ formula.clauses, ∀ literal ∈ clause.literals,
        first.literalValue? literal = some false) ∧
      (∀ clause ∈ rest.clauses, ∀ literal ∈ clause.literals,
        first.value? literal.var = none) ∧
      (∃ twice, rest.reduce second = .ok twice ∧
        ∀ both : Assignment, both.Combines first second → formula.reduce both = .ok twice) ∧
      (rest.Satisfiable ↔
        ∃ model : Assignment, model.Extends first ∧ formula.evaluate model = true) := by
  obtain ⟨rest, applied, isRest⟩ := obtained.wellFormed.exists_isRest firstInRange
  obtain ⟨twice, appliedTwice, isTwice⟩ := isRest.wellFormed.exists_isRest secondInRange
  refine ⟨rest, applied, exists_clauses_eq_filterMap firstInRange applied,
    fun total longer => isRest.evaluate_eq longer, isRest.clauses_eq_nil_iff.symm,
    isRest.hasEmptyClause_iff,
    fun clause member literal inside => isRest.value?_eq_none member inside,
    ⟨twice, appliedTwice, fun both combines => ?_⟩, isRest.satisfiable_iff⟩
  obtain ⟨direct, appliedDirect, isDirect⟩ :=
    obtained.wellFormed.exists_isRest (combines.inRange firstInRange secondInRange)
  rw [appliedDirect, isDirect.eq (isRest.trans isTwice combines)]

/-- A tautological clause, one with a repeated literal, and a unit. -/
def repeating : Cnf :=
  .ofNamed [[("a", true), ("a", false)], [("a", true), ("b", false), ("b", false)], [("b", true)]]

theorem obtainable_repeating : Obtainable repeating :=
  .addClauses [["a", "¬a"], ["a", "¬b", "¬b"], ["b"]] .empty rfl

/-- Making `b` true leaves a formula that `a` satisfies. Making `a` false then leaves an empty
clause, and that `b` is to be false as well comes too late. -/
theorem reduce_exact_repeating :
    let first : Assignment := ⟨[none, none, some true]⟩
    let second : Assignment := ⟨[none, some false, some false]⟩
    let both : Assignment := ⟨[none, some false, some true]⟩
    ∃ rest twice, repeating.reduce first = .ok rest ∧ rest.Satisfiable ∧
      rest.reduce second = .ok twice ∧ repeating.reduce both = .ok twice := by
  intro first second both
  have firstInRange : first.InRange := by decide
  have secondInRange : second.InRange := by decide
  obtain ⟨rest, applied, _, _, _, _, _, ⟨twice, again, together⟩, satisfiable⟩ :=
    reduce_exact obtainable_repeating firstInRange secondInRange
  have combines : both.Combines first second
    | 0 | 1 | 2 | _ + 3 => rfl
  have model : rest.Satisfiable :=
    satisfiable.mpr ⟨⟨[none, some true, some true]⟩, by decide, by decide⟩
  exact ⟨rest, twice, applied, model, again, together both combines⟩

end Formula

end ChronoSat
