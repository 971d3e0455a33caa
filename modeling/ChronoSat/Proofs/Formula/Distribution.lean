/-
# From disjunctive to conjunctive form, exactly

Distributing a disjunctive formula lists all ways to pick one literal from every clause. The
list is known from what is picked: by the places of the literals in their clauses, all picks
there are stand in lexicographic order, each once. Only one list is like that.

A list of choices leaves no choice without an element that holds exactly if some row holds
throughout. For the one direction, a row that holds throughout gives its element to every
choice; for the other, rows that all have an element which does not hold have these elements
for a choice. Nothing more is needed for the meaning of a distributed formula, whether all
variables are assigned or not, since an unassigned literal holds as little as a false one.
-/

import ChronoSat.Proofs.Formula.Evaluation
import ChronoSat.Proofs.Formula.Numbering
import Mathlib.Algebra.BigOperators.Group.List.Basic
import Mathlib.Data.List.Lex
import Mathlib.Data.List.Sort

namespace ChronoSat

/-! ## Choices -/

section Choices

variable {α β : Type}

/-- A choice takes one element from every row in order, each at the given place. -/
inductive Takes : List (List α) → List Nat → List α → Prop
  | nil : Takes [] [] []
  | cons {row : List α} {rest : List (List α)} {place : Nat} {places : List Nat} {element : α}
      {choice : List α} (found : row[place]? = some element) (later : Takes rest places choice) :
      Takes (row :: rest) (place :: places) (element :: choice)

/-- The choices from rows are listed in lexicographic order of the places at which their elements
stand: no places are left out, and none come twice. -/
def ListsChoices (rows listed : List (List α)) : Prop :=
  ∃ paths : List (List Nat), paths.Pairwise (List.Lex (· < ·)) ∧
    (∀ path, path ∈ paths ↔ ∃ choice, Takes rows path choice) ∧
    List.Forall₂ (Takes rows) paths listed

theorem Takes.unique {rows : List (List α)} {path : List Nat} {first second : List α}
    (takes : Takes rows path first) (others : Takes rows path second) : first = second := by
  induction takes generalizing second with
  | nil =>
      cases others
      rfl
  | cons found _ ih =>
      cases others with
      | cons otherFound later =>
          rw [Option.some.inj (found.symm.trans otherFound), ih later]

/-- There is one list of the choices only. -/
theorem ListsChoices.unique {rows first second : List (List α)} (lists : ListsChoices rows first)
    (others : ListsChoices rows second) : first = second := by
  obtain ⟨paths, ascending, complete, taken⟩ := lists
  obtain ⟨otherPaths, otherAscending, otherComplete, otherTaken⟩ := others
  have same : paths = otherPaths :=
    ascending.eq_of_mem_iff otherAscending fun path =>
      (complete path).trans (otherComplete path).symm
  subst same
  have rightUnique : Relator.RightUnique (Takes rows) := fun _ _ _ => Takes.unique
  exact List.right_unique_forall₂' rightUnique taken otherTaken

theorem mem_choices {rows : List (List α)} {choice : List α} :
    choice ∈ choices rows ↔ List.Forall₂ (· ∈ ·) choice rows := by
  induction rows generalizing choice with
  | nil => simp [choices]
  | cons row rest ih =>
      rw [choices, List.mem_flatMap, List.forall₂_cons_right_iff]
      constructor
      · rintro ⟨pick, inside, extended⟩
        obtain ⟨later, chosen, rfl⟩ := List.mem_map.mp extended
        exact ⟨pick, later, inside, ih.mp chosen, rfl⟩
      · rintro ⟨pick, later, inside, chosen, rfl⟩
        exact ⟨pick, inside, List.mem_map_of_mem (ih.mpr chosen)⟩

/-- There are as many choices as the lengths of the rows have product. -/
theorem length_choices (rows : List (List α)) :
    (choices rows).length = (rows.map List.length).prod := by
  induction rows with
  | nil => rfl
  | cons row rest ih => simp [choices, List.length_flatMap, ih]

/-- What is done to every element can be done before or after choosing. -/
theorem choices_map (f : α → β) (rows : List (List α)) :
    choices (rows.map (List.map f)) = (choices rows).map (List.map f) := by
  induction rows with
  | nil => rfl
  | cons row rest ih =>
      simp [choices, ih, List.flatMap_map, List.map_flatMap, Function.comp_def]

/-- From ascending rows the choices come in lexicographic order. -/
theorem pairwise_lex_choices {rows : List (List Nat)}
    (ascending : ∀ row ∈ rows, row.Pairwise (· < ·)) :
    (choices rows).Pairwise (List.Lex (· < ·)) := by
  induction rows with
  | nil => exact List.pairwise_singleton _ _
  | cons row rest ih =>
      obtain ⟨here, others⟩ := List.forall_mem_cons.mp ascending
      rw [choices, List.pairwise_flatMap]
      constructor
      · intro pick _
        rw [List.pairwise_map]
        exact (ih others).imp List.Lex.cons
      · refine here.imp fun before first inFirst second inSecond => ?_
        obtain ⟨_, _, rfl⟩ := List.mem_map.mp inFirst
        obtain ⟨_, _, rfl⟩ := List.mem_map.mp inSecond
        exact .rel before

/-- Elements with their places are chosen as the elements at these places. -/
theorem takes_iff_exists_forall₂ {rows : List (List α)} {path : List Nat} {choice : List α} :
    Takes rows path choice ↔
      ∃ placed, List.Forall₂ (· ∈ ·) placed (rows.map List.zipIdx) ∧
        placed.map Prod.snd = path ∧ placed.map Prod.fst = choice := by
  constructor
  · intro takes
    induction takes with
    | nil => exact ⟨[], .nil, rfl, rfl⟩
    | @cons _ _ place _ element _ found _ ih =>
        obtain ⟨placed, inside, rfl, rfl⟩ := ih
        exact ⟨(element, place) :: placed,
          .cons (List.mem_zipIdx_iff_getElem?.mpr found) inside, rfl, rfl⟩
  · rintro ⟨placed, inside, rfl, rfl⟩
    induction rows generalizing placed with
    | nil =>
        cases inside
        exact .nil
    | cons row rest ih =>
        cases inside with
        | cons there others =>
            exact .cons (List.mem_zipIdx_iff_getElem?.mp there) (ih _ others)

/-- The choices are listed in lexicographic order. -/
theorem listsChoices_choices (rows : List (List α)) : ListsChoices rows (choices rows) := by
  have elements : choices rows =
      (choices (rows.map List.zipIdx)).map (List.map Prod.fst) := by
    rw [← choices_map, List.map_map]
    simp [Function.comp_def]
  have places : (choices (rows.map List.zipIdx)).map (List.map Prod.snd) =
      choices (rows.map fun row => List.range' 0 row.length) := by
    rw [← choices_map, List.map_map]
    simp [Function.comp_def]
  refine ⟨(choices (rows.map List.zipIdx)).map (List.map Prod.snd), ?_, fun path => ?_, ?_⟩
  · rw [places]
    refine pairwise_lex_choices (List.forall_mem_map.mpr fun row _ => ?_)
    exact List.pairwise_lt_range'
  · simp only [takes_iff_exists_forall₂, List.mem_map, mem_choices]
    constructor
    · rintro ⟨placed, inside, rfl⟩
      exact ⟨_, placed, inside, rfl, rfl⟩
    · rintro ⟨_, placed, inside, rfl, rfl⟩
      exact ⟨placed, inside, rfl⟩
  · rw [elements, List.forall₂_map_left_iff, List.forall₂_map_right_iff, List.forall₂_same]
    intro placed chosen
    exact takes_iff_exists_forall₂.mpr ⟨placed, mem_choices.mp chosen, rfl, rfl⟩

/-- Every choice has an element that holds exactly if some row holds throughout. -/
theorem forall_choices_exists_iff {rows : List (List α)} {holds : α → Prop} :
    (∀ choice ∈ choices rows, ∃ element ∈ choice, holds element) ↔
      ∃ row ∈ rows, ∀ element ∈ row, holds element := by
  induction rows with
  | nil => simp [choices]
  | cons row rest ih =>
      rw [List.exists_mem_cons_iff, ← ih]
      constructor
      · intro all
        by_cases here : ∀ element ∈ row, holds element
        · exact .inl here
        · -- An element of the row that does not hold leaves it to the later ones.
          simp only [not_forall] at here
          obtain ⟨pick, inRow, missing⟩ := here
          refine .inr fun later chosen => ?_
          have extended : pick :: later ∈ choices (row :: rest) :=
            mem_choices.mpr (.cons inRow (mem_choices.mp chosen))
          obtain ⟨element, member, made⟩ := all _ extended
          rcases List.mem_cons.mp member with rfl | inside
          · exact absurd made missing
          · exact ⟨element, inside, made⟩
      · intro either choice chosen
        obtain ⟨pick, later, inRow, chosenLater, rfl⟩ :=
          List.forall₂_cons_right_iff.mp (mem_choices.mp chosen)
        rcases either with here | others
        · exact ⟨pick, List.mem_cons_self, here pick inRow⟩
        · obtain ⟨element, inside, made⟩ := others later (mem_choices.mpr chosenLater)
          exact ⟨element, List.mem_cons_of_mem _ inside, made⟩

end Choices

/-! ## The registry -/

namespace Registry

/-- Names that are new are registered as they are, as long as there are numbers. -/
theorem foldlM_register {known fresh : List String} (distinct : (known ++ fresh).Nodup)
    (fits : (known ++ fresh).length ≤ Literal.maxVar) :
    fresh.foldlM register ⟨known⟩ = .ok ⟨known ++ fresh⟩ := by
  induction fresh generalizing known with
  | nil => simp [pure, Except.pure]
  | cons name rest ih =>
      have new : name ∉ known := fun member =>
        (List.nodup_append.mp distinct).2.2 name member name List.mem_cons_self rfl
      have room : (Registry.mk known).size < Literal.maxVar :=
        Nat.lt_of_lt_of_le (by simp [size]) fits
      have registered : register ⟨known⟩ name = .ok ⟨known ++ [name]⟩ := by
        rw [register, if_neg new, if_pos room]
      rw [List.append_cons] at distinct fits ⊢
      rw [List.foldlM_cons, registered]
      exact ih distinct fits

end Registry

/-! ## Meaning -/

namespace Formula

variable {formula : Dnf}

/-- A clause of a disjunctive formula holds if all its literals are assigned and true. -/
theorem WellFormed.evaluate_conj (wellFormed : formula.WellFormed) {clause : Clause}
    (member : clause ∈ formula.clauses) (assignment : Assignment) :
    clause.evaluate assignment = true ↔
      ∀ literal ∈ clause.literals, assignment.literalValue? literal = some true := by
  rw [Clause.evaluate, wellFormed.connective_eq clause member]
  simp [NormalForm.inner, Clause.holdsIn]

/-- Distributing keeps the meaning, also where not all variables are assigned. -/
theorem evaluate_distribute_iff (wellFormed : formula.WellFormed) (assignment : Assignment) :
    formula.distribute.evaluate assignment = true ↔
      ∃ clause ∈ formula.clauses, clause.evaluate assignment = true := by
  have chosen : formula.distribute.evaluate assignment = true ↔
      ∀ choice ∈ choices (formula.clauses.map Clause.literals), ∃ literal ∈ choice,
        assignment.literalValue? literal = some true := by
    simp [evaluate, distribute, Clause.evaluate, Clause.holdsIn]
  rw [chosen, forall_choices_exists_iff]
  simp only [List.mem_map, exists_exists_and_eq_and]
  exact exists_congr fun clause => and_congr_right fun member =>
    (wellFormed.evaluate_conj member assignment).symm

/-- Distributing by choices. The names of the disjunctive formula, registered one by one, have the
numbers that they had. The clauses are the choices of one literal from every clause in order,
however these are listed in lexicographic order; there are as many as the lengths of the clauses
have product, and only the empty choice from no clauses. Under every assignment, total or
partial, the conjunctive formula is true exactly if a clause of the disjunctive one is, which is
if all its literals are assigned and true. -/
theorem distribute_choices (obtained : Obtainable formula) :
    formula.registry.names.foldlM Registry.register .empty = .ok formula.distribute.registry ∧
      formula.distribute.registry = formula.registry ∧
      ListsChoices (formula.clauses.map Clause.literals)
        (formula.distribute.clauses.map Clause.literals) ∧
      (∀ listed, ListsChoices (formula.clauses.map Clause.literals) listed →
        formula.distribute.clauses = listed.map (Clause.mk .disj)) ∧
      formula.distribute.size = (formula.clauses.map Clause.size).prod ∧
      (formula.clauses = [] → formula.distribute.clauses = [⟨.disj, []⟩]) ∧
      ∀ assignment : Assignment,
        (formula.distribute.evaluate assignment = true ↔
          ∃ clause ∈ formula.clauses, clause.evaluate assignment = true) ∧
        ∀ clause ∈ formula.clauses, (clause.evaluate assignment = true ↔
          ∀ literal ∈ clause.literals, assignment.literalValue? literal = some true) := by
  have wellFormed := obtained.wellFormed
  have lists := listsChoices_choices (formula.clauses.map Clause.literals)
  have chosen : formula.distribute.clauses.map Clause.literals =
      choices (formula.clauses.map Clause.literals) := by
    simp [distribute, Function.comp_def]
  refine ⟨Registry.foldlM_register wellFormed.names_nodup obtained.numVars_le, rfl, chosen ▸ lists,
    fun listed others => ?_, ?_, fun none => by simp [distribute, none, choices],
    fun assignment => ⟨evaluate_distribute_iff wellFormed assignment,
      fun clause member => wellFormed.evaluate_conj member assignment⟩⟩
  · rw [others.unique lists]
    rfl
  · have lengths : (formula.clauses.map Clause.literals).map List.length =
        formula.clauses.map Clause.size := by
      rw [List.map_map]
      rfl
    rw [size, ← List.length_map Clause.literals, chosen, length_choices, lengths]

/-- Two clauses of two literals, two of which are complementary. -/
def twoByTwo : Dnf :=
  .ofNamed [[("a", true), ("b", true)], [("a", false), ("c", true)]]

theorem obtainable_twoByTwo : Obtainable twoByTwo :=
  .addClauses [["a", "b"], ["¬a", "c"]] .empty rfl

/-- The second clause holds without a value for `b`, and so do all four choices. -/
theorem distribute_choices_twoByTwo :
    let partly : Assignment := ⟨[none, some false, none, some true]⟩
    twoByTwo.distribute.size = 4 ∧ twoByTwo.distribute.evaluate partly = true := by
  intro partly
  obtain ⟨_, _, _, _, size, _, means⟩ := distribute_choices obtainable_twoByTwo
  have holds : ∃ clause ∈ twoByTwo.clauses, clause.evaluate partly = true := by decide
  exact ⟨size.trans (by decide), (means partly).1.mpr holds⟩

end Formula

end ChronoSat
