/-
# The policies that come with the library

Each of the four policies, asked about clauses over registered variables, proposes
a variable of one of them, and nothing only if no clause has a literal. All but one of
them propose a literal that stands there. The two-clause policy asks for its variable to be
true in any case, which no clause has to. None of them uses a row of a table that is not
there: the counting policies have a row for every registered variable, and draws are below
the length of what they draw from.

A formula that can be obtained, and whatever is left of it in a search, is over registered
variables, so all of this holds wherever a search gets to.
-/

import ChronoSat.Proofs.Branching.Counting

namespace ChronoSat.Branching

variable {γ : Type} [RandomSource γ] {remaining : Remaining} {clauses : List (List Literal)}

/-- An answer that keeps to what remains: a variable of a clause, or nothing if no
clause has a literal. -/
structure Fitting (clauses : List (List Literal)) (answer : Option Choice) : Prop where
  occurs : ∀ choice, answer = some choice → choice.var ∈ Clauses.vars clauses
  silent : answer = none → ∀ clause ∈ clauses, clause = []

theorem Fitting.eq_none_iff {answer : Option Choice} (fitting : Fitting clauses answer) :
    answer = none ↔ ∀ clause ∈ clauses, clause = [] := by
  refine ⟨fitting.silent, fun empty => ?_⟩
  by_contra nonempty
  obtain ⟨choice, proposed⟩ := Option.ne_none_iff_exists'.mp nonempty
  obtain ⟨clause, there, literal, inside, _⟩ := Clauses.mem_vars.mp (fitting.occurs choice proposed)
  rw [empty clause there] at inside
  exact List.not_mem_nil inside

/-- An answer that is a literal of what remains, or nothing if there is none. -/
structure Picked (clauses : List (List Literal)) (answer : Option Choice) : Prop where
  stands : ∀ choice, answer = some choice →
    ∃ clause ∈ clauses, ∃ literal ∈ clause, literal.choice = choice
  silent : answer = none → ∀ clause ∈ clauses, clause = []

theorem Picked.fitting {answer : Option Choice} (picked : Picked clauses answer) :
    Fitting clauses answer where
  occurs := by
    intro choice proposed
    obtain ⟨clause, there, literal, inside, rfl⟩ := picked.stands choice proposed
    exact Clauses.mem_vars.mpr ⟨clause, there, literal, inside, rfl⟩
  silent := picked.silent

theorem Picked.of_mem {clause : List Literal} {literal : Literal} (there : clause ∈ clauses)
    (inside : literal ∈ clause) : Picked clauses (some literal.choice) where
  stands := by
    rintro _ ⟨⟩
    exact ⟨clause, there, literal, inside, rfl⟩
  silent := nofun

theorem Picked.of_none (empty : ∀ clause ∈ clauses, clause = []) : Picked clauses none :=
  ⟨nofun, fun _ => empty⟩

/-! ## The first literal -/

theorem picked_naiveChoice (remaining : Remaining) :
    Picked remaining.clauses (naiveChoice remaining) := by
  unfold naiveChoice
  cases found : remaining.clauses.findSome? List.head? with
  | none =>
      refine .of_none fun clause member => ?_
      exact List.head?_eq_none_iff.mp (List.findSome?_eq_none_iff.mp found clause member)
  | some literal =>
      obtain ⟨clause, there, first⟩ := List.exists_of_findSome?_eq_some found
      exact .of_mem there (List.mem_of_head? first)

/-! ## Draws -/

/-- A draw from a row that is not empty is an element of it. -/
theorem exists_drawFrom {α : Type} {row : List α} (nonempty : row ≠ []) (source : γ) :
    ∃ element later, drawFrom row source = .ok (element, later) ∧ element ∈ row := by
  have inside : (RandomSource.below row.length source).1 < row.length :=
    RandomSource.below_lt (List.length_pos_iff.mpr nonempty) source
  refine ⟨row[(RandomSource.below row.length source).1],
    (RandomSource.below row.length source).2, ?_, List.getElem_mem inside⟩
  rw [drawFrom]
  simp only [List.getElem?_eq_getElem inside]

theorem mem_filter_not_isEmpty {clause : List Literal} :
    clause ∈ clauses.filter (fun clause => !clause.isEmpty) ↔
      clause ∈ clauses ∧ clause ≠ [] := by
  simp [List.mem_filter]

theorem exists_randomChoice (remaining : Remaining) (source : γ) :
    ∃ answer later, randomChoice remaining source = .ok (answer, later) ∧
      Picked remaining.clauses answer := by
  unfold randomChoice
  by_cases none : (remaining.clauses.filter fun clause => !clause.isEmpty).isEmpty = true
  · refine ⟨_, _, if_pos none, .of_none fun clause there => ?_⟩
    by_contra nonempty
    have candidate := mem_filter_not_isEmpty.mpr ⟨there, nonempty⟩
    rw [List.isEmpty_iff.mp none] at candidate
    exact List.not_mem_nil candidate
  · obtain ⟨clause, later, drawn, candidate⟩ :=
      exists_drawFrom (fun empty => none (List.isEmpty_iff.mpr empty)) source
    obtain ⟨there, nonempty⟩ := mem_filter_not_isEmpty.mp candidate
    obtain ⟨literal, last, drawnAgain, inside⟩ := exists_drawFrom nonempty later
    refine ⟨some literal.choice, last, (if_neg none).trans ?_, .of_mem there inside⟩
    exact Outcomes.bind_eq_ok.mpr ⟨_, drawn, Outcomes.bind_eq_ok.mpr ⟨_, drawnAgain, rfl⟩⟩

/-! ## Counts -/

/-- A variable that is found in the table occurs. Without one the choice is random. -/
theorem exists_twoClauseChoice (registered : remaining.Registered) (source : γ) :
    ∃ answer later, twoClauseChoice remaining source = .ok (answer, later) ∧
      Fitting remaining.clauses answer ∧
      ((∃ var, twoClauseVariable remaining = .ok (some var)) → later = source) := by
  obtain ⟨first, found, isSmallest, _⟩ := exists_twoClauseVariable registered
  cases first with
  | some var =>
      have two := ((isSmallest var).mp rfl).1
      obtain ⟨⟨clause, there, inside, _⟩, _⟩ := (longestWith_eq_iff Nat.zero_lt_two).mp two
      obtain ⟨literal, member, same⟩ := List.mem_map.mp inside
      refine ⟨some ⟨var, true⟩, source, Outcomes.bind_eq_ok.mpr ⟨_, found, rfl⟩, ⟨?_, nofun⟩,
        fun _ => rfl⟩
      rintro _ ⟨⟩
      exact Clauses.mem_vars.mpr ⟨clause, there, literal, member, same⟩
  | none =>
      obtain ⟨answer, later, drawn, picked⟩ := exists_randomChoice remaining source
      refine ⟨answer, later, Outcomes.bind_eq_ok.mpr ⟨_, found, drawn⟩, picked.fitting, ?_⟩
      rintro ⟨var, other⟩
      rw [found] at other
      cases other

/-- The variable that leads stands there with the polarity that it has more often. -/
theorem IsModal.exists_mem {literals : List Literal} {choice : Choice}
    (isModal : IsModal literals choice) : ∃ literal ∈ literals, literal.choice = choice := by
  obtain ⟨var, value⟩ := choice
  have places : 0 < timesOf ⟨var, true⟩ literals + timesOf ⟨var, false⟩ literals := by
    rw [timesOf_add_timesOf]
    exact List.count_pos_iff.mpr isModal.leads.mem
  have value_eq : value = decide (timesOf ⟨var, false⟩ literals < timesOf ⟨var, true⟩ literals) :=
    isModal.value_eq
  have often : 0 < timesOf ⟨var, value⟩ literals := by
    cases value with
    | true => exact Nat.zero_lt_of_lt (of_decide_eq_true value_eq.symm)
    | false =>
        have := of_decide_eq_false value_eq.symm
        omega
  exact List.mem_map.mp (List.count_pos_iff.mp often)

theorem exists_modalChoice_picked (registered : remaining.Registered) :
    ∃ answer, modalChoice remaining = .ok answer ∧ Picked remaining.clauses answer := by
  obtain ⟨answer, chosen, isNone, isModal⟩ := exists_modalChoice registered
  refine ⟨answer, chosen, fun choice proposed => ?_, fun silent => ?_⟩
  · obtain ⟨literal, member, same⟩ := ((isModal choice).mp proposed).exists_mem
    obtain ⟨clause, there, inside⟩ := List.mem_flatten.mp member
    exact ⟨clause, there, literal, inside, same⟩
  · exact List.flatten_eq_nil_iff.mp (isNone.mp silent)

end ChronoSat.Branching

namespace ChronoSat.Selection

open Branching

variable {γ : Type} [RandomSource γ]

/-- What is known of an answer: it keeps to what remains, it is a literal of it unless the
two-clause policy gave it, and it was given without a draw by the policies that draw
nothing. -/
structure Answers (selection : Selection) (remaining : Remaining) (source : γ)
    (answer : Option Choice) (later : γ) : Prop where
  fitting : Fitting remaining.clauses answer
  picked : selection ≠ twoClause → Picked remaining.clauses answer
  drawsNothing : selection = naive ∨ selection = modal ∨
    (selection = twoClause ∧ ∃ var, twoClauseVariable remaining = .ok (some var)) →
      later = source

theorem exists_answers (selection : Selection) {remaining : Remaining}
    (registered : remaining.Registered) (source : γ) :
    ∃ answer later, selection.policy.propose remaining source = .ok (answer, later) ∧
      selection.Answers remaining source answer later := by
  cases selection with
  | naive =>
      have picked := picked_naiveChoice remaining
      exact ⟨_, _, rfl, picked.fitting, fun _ => picked, fun _ => rfl⟩
  | random =>
      obtain ⟨answer, later, drawn, picked⟩ := exists_randomChoice remaining source
      refine ⟨answer, later, drawn, picked.fitting, fun _ => picked, ?_⟩
      rintro (other | other | ⟨other, _⟩) <;> cases other
  | twoClause =>
      obtain ⟨answer, later, chosen, fitting, drawsNothing⟩ :=
        exists_twoClauseChoice registered source
      refine ⟨answer, later, chosen, fitting, fun other => absurd rfl other, ?_⟩
      rintro (other | other | ⟨_, found⟩)
      · cases other
      · cases other
      · exact drawsNothing found
  | modal =>
      obtain ⟨answer, chosen, picked⟩ := exists_modalChoice_picked registered
      exact ⟨answer, source, Outcomes.bind_eq_ok.mpr ⟨answer, chosen, rfl⟩, picked.fitting,
        fun _ => picked, fun _ => rfl⟩

/-- Each policy answers, and its answer keeps to what remains. -/
theorem exists_propose (selection : Selection) {remaining : Remaining}
    (registered : remaining.Registered) (source : γ) :
    ∃ answer later, selection.policy.propose remaining source = .ok (answer, later) ∧
      Branching.Fitting remaining.clauses answer := by
  obtain ⟨answer, later, proposed, answers⟩ := selection.exists_answers registered source
  exact ⟨answer, later, proposed, answers.fitting⟩

/-- Each policy keeps to what remains, whatever it remembers. -/
theorem honours (selection : Selection) : (selection.policy : Policy γ).Honours fun _ => True where
  occurs := by
    intro remaining memory later choice registered _ proposed
    obtain ⟨answer, last, answered, fitting⟩ := selection.exists_propose registered memory
    rw [proposed] at answered
    cases answered
    exact fitting.occurs choice rfl
  keeps := fun _ _ _ => trivial

/-! ## Formulas and searches -/

/-- What a policy can be asked about: a formula, or what is left of it after literals were
made true and checkpoints gone back to. -/
inductive Seen (formula : Cnf) : Remaining → Prop
  | whole : Seen formula formula.remaining
  | left {state : SearchState} (reachable : SearchState.Reachable formula state) :
      Seen formula state.remaining

theorem Seen.registered {formula : Cnf} (wellFormed : formula.WellFormed) {remaining : Remaining}
    (seen : Seen formula remaining) : remaining.Registered := by
  cases seen with
  | whole => exact fun var occurs => (wellFormed.of_mem_vars occurs).2
  | left reachable => exact reachable.registered wellFormed

/-- Each policy answers on a formula that can be obtained and on whatever is left of it,
whichever draws come next. It proposes nothing exactly if there is no literal. What it
proposes is a variable that occurs, and a literal that occurs unless the two-clause policy
proposed it. The rows that the two-clause policy looks up are there; all other rows are
read by operations that fail where there is no row. What is proposed without a draw leaves
the source of draws as it is. -/
theorem propose_seen (selection : Selection) {formula : Cnf} (obtained : Obtainable formula)
    {remaining : Remaining} (seen : Seen formula remaining) (source : γ) :
    ∃ answer later, selection.policy.propose remaining source = .ok (answer, later) ∧
      (answer = none ↔ ∀ clause ∈ remaining.clauses, clause = []) ∧
      (∀ choice, answer = some choice → choice.var ∈ Clauses.vars remaining.clauses) ∧
      (selection ≠ twoClause → ∀ choice, answer = some choice →
        ∃ clause ∈ remaining.clauses, ∃ literal ∈ clause, literal.choice = choice) ∧
      (∃ table, longestClauses remaining = .ok table ∧
        ∀ var ∈ List.range' 1 remaining.numVars, var < table.size) ∧
      (selection = naive ∨ selection = modal ∨
        (selection = twoClause ∧ ∃ var, twoClauseVariable remaining = .ok (some var)) →
          later = source) := by
  have registered := seen.registered obtained.wellFormed
  obtain ⟨answer, later, proposed, answers⟩ := selection.exists_answers registered source
  obtain ⟨table, built, tabulates⟩ := exists_longestClauses registered
  refine ⟨answer, later, proposed, answers.fitting.eq_none_iff, answers.fitting.occurs,
    fun other => (answers.picked other).stands, ⟨table, built, fun var inside => ?_⟩,
    answers.drawsNothing⟩
  have := List.mem_range'_1.mp inside
  rw [tabulates.size_eq]
  omega

/-- A unit and a clause over two other variables. -/
def unitAndPair : Cnf := .ofNamed [[("a", true)], [("b", true), ("c", false)]]

theorem obtainable_unitAndPair : Obtainable unitAndPair :=
  .addClauses [["a"], ["b", "¬c"]] .empty rfl

/-- Once the unit is false there is an empty clause, and the draws come from the other. -/
theorem propose_seen_unitAndPair :
    ∃ state impact, (SearchState.ofFormula unitAndPair).assign ⟨1, false, by decide⟩ =
        .ok (state, impact) ∧
      state.remaining.clauses = [[], [⟨2, true, by decide⟩, ⟨3, false, by decide⟩]] ∧
      ∀ source : Generator, ∃ choice later,
        random.policy.propose state.remaining source = .ok (some choice, later) ∧
          (choice = ⟨2, true⟩ ∨ choice = ⟨3, false⟩) := by
  obtain ⟨⟨state, impact⟩, made⟩ : ∃ result,
      (SearchState.ofFormula unitAndPair).assign ⟨1, false, by decide⟩ = .ok result := ⟨_, rfl⟩
  have clauses : state.remaining.clauses = [[], [⟨2, true, by decide⟩, ⟨3, false, by decide⟩]] := by
    cases made
    rfl
  refine ⟨state, impact, made, clauses, fun source => ?_⟩
  obtain ⟨answer, later, proposed, isNone, _, stands, _⟩ := propose_seen random
    obtainable_unitAndPair (.left (.assign .start made)) source
  cases answer with
  | none =>
      rw [clauses] at isNone
      exact absurd (isNone.mp rfl) (by decide)
  | some choice =>
      obtain ⟨clause, there, literal, inside, rfl⟩ := stands (by decide) choice rfl
      refine ⟨_, later, proposed, ?_⟩
      rw [clauses] at there
      rcases List.mem_pair.mp there with rfl | rfl
      · exact absurd inside List.not_mem_nil
      · exact (List.mem_pair.mp inside).imp (congrArg Literal.choice) (congrArg Literal.choice)

end ChronoSat.Selection
