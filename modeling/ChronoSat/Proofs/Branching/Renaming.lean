/-
# Policies and numbers

Asked about clauses that are the same but for the numbers of their variables, a policy of the
library proposes the same variable under its new number, with the same value, and leaves the
same source of draws. The naive policy looks at places only. The random policy draws places, and
rows of the same length make for the same draws. The modal policy counts, and who leads depends
on the counts and on the places where they are reached.

The two-clause policy is the one that looks at the numbers themselves, since it takes the
smallest variable. It proposes the same if the order of the numbers is the same, too.

How many variables are registered makes no difference. It decides how long the tables are, and
what is looked up stands in them anyway.
-/

import ChronoSat.Proofs.Branching.BuiltIn
import ChronoSat.Proofs.Clauses.Renaming

namespace ChronoSat

open List Relator

variable {γ : Type} [RandomSource γ] {vars : Set Nat} {rename : Nat → Nat}

/-- A choice for a variable of a set and the same choice under the new number. -/
structure Choice.Renamed (vars : Set Nat) (rename : Nat → Nat) (choice image : Choice) : Prop where
  renames : Renames vars rename choice.var image.var
  value_eq : image.value = choice.value

theorem Choice.Renamed.biUnique (apart : Set.InjOn rename vars) :
    BiUnique (Choice.Renamed vars rename) := by
  have unique := Renames.biUnique apart
  constructor
  · rintro ⟨firstVar, _⟩ ⟨secondVar, _⟩ ⟨_, _⟩ ⟨first, rfl⟩ ⟨second, rfl⟩
    obtain rfl : firstVar = secondVar := unique.left first second
    rfl
  · rintro ⟨_, _⟩ ⟨firstVar, _⟩ ⟨secondVar, _⟩ ⟨first, rfl⟩ ⟨second, rfl⟩
    obtain rfl : firstVar = secondVar := unique.right first second
    rfl

theorem Literal.Renamed.choice {literal image : Literal}
    (same : literal.Renamed vars rename image) :
    literal.choice.Renamed vars rename image.choice :=
  ⟨same.renames, same.polarity_eq⟩

theorem Choice.Renamed.opposite {choice image : Choice}
    (same : choice.Renamed vars rename image) :
    choice.opposite.Renamed vars rename image.opposite :=
  ⟨same.renames, congrArg not same.value_eq⟩

/-- A policy to which a renaming makes no difference. -/
def Policy.Equivariant {σ : Type} (policy : Policy σ) (vars : Set Nat) (rename : Nat → Nat) :
    Prop :=
  ∀ {remaining image : Remaining} (memory : σ), remaining.Registered → image.Registered →
    Clauses.Renamed vars rename remaining.clauses image.clauses →
      ∃ answer imageAnswer later, policy.propose remaining memory = .ok (answer, later) ∧
        policy.propose image memory = .ok (imageAnswer, later) ∧
        Option.Rel (Choice.Renamed vars rename) answer imageAnswer

namespace Branching

variable {remaining image : Remaining}

/-! ## Places -/

theorem naiveChoice_renamed (same : Clauses.Renamed vars rename remaining.clauses image.clauses) :
    Option.Rel (Choice.Renamed vars rename) (naiveChoice remaining) (naiveChoice image) := by
  have first : Option.Rel (Literal.Renamed vars rename)
      (remaining.clauses.findSome? List.head?) (image.clauses.findSome? List.head?) := by
    refine rel_findSome? (fun clause other alike => ?_) same
    cases alike with
    | nil => exact .none
    | cons literals _ => exact .some literals
  rw [naiveChoice, naiveChoice]
  generalize remaining.clauses.findSome? List.head? = found at first
  generalize image.clauses.findSome? List.head? = foundImage at first
  cases first with
  | some literals => exact .some literals.choice
  | none => exact .none

/-! ## Draws -/

/-- Draws from rows of the same length come from the same place. -/
theorem exists_drawFrom_renamed {α β : Type} {R : α → β → Prop} {row : List α} {other : List β}
    (same : Forall₂ R row other) (nonempty : row ≠ []) (source : γ) :
    ∃ element counterpart later, drawFrom row source = .ok (element, later) ∧
      drawFrom other source = .ok (counterpart, later) ∧ R element counterpart ∧
      element ∈ row := by
  have inside : (RandomSource.below row.length source).1 < row.length :=
    RandomSource.below_lt (List.length_pos_iff.mpr nonempty) source
  have there := rel_getElem? same (RandomSource.below row.length source).1
  rw [drawFrom, drawFrom, ← same.length_eq]
  rw [List.getElem?_eq_getElem inside] at there ⊢
  generalize other[(RandomSource.below row.length source).1]? = found at there
  cases there with
  | some related => exact ⟨_, _, _, rfl, rfl, related, List.getElem_mem inside⟩

theorem exists_randomChoice_renamed
    (same : Clauses.Renamed vars rename remaining.clauses image.clauses) (source : γ) :
    ∃ answer imageAnswer later, randomChoice remaining source = .ok (answer, later) ∧
      randomChoice image source = .ok (imageAnswer, later) ∧
      Option.Rel (Choice.Renamed vars rename) answer imageAnswer := by
  have candidates : Clauses.Renamed vars rename
      (remaining.clauses.filter fun clause => !clause.isEmpty)
      (image.clauses.filter fun clause => !clause.isEmpty) := by
    refine rel_filter (fun clause other alike => ?_) same
    cases alike <;> exact Iff.rfl
  have nonempty {clause : List Literal}
      (member : clause ∈ remaining.clauses.filter fun clause => !clause.isEmpty) :
      clause ≠ [] :=
    (mem_filter_not_isEmpty.mp member).2
  rw [randomChoice, randomChoice]
  generalize remaining.clauses.filter (fun clause => !clause.isEmpty) = rows at candidates nonempty
  generalize image.clauses.filter (fun clause => !clause.isEmpty) = imageRows at candidates
  cases rows with
  | nil =>
      cases candidates
      exact ⟨none, none, source, rfl, rfl, .none⟩
  | cons first others =>
      obtain ⟨clause, imageClause, between, drawn, imageDrawn, alike, there⟩ :=
        exists_drawFrom_renamed candidates (List.cons_ne_nil first others) source
      obtain ⟨literal, imageLiteral, later, picked, imagePicked, literals, _⟩ :=
        exists_drawFrom_renamed alike (nonempty there) between
      cases candidates
      refine ⟨some literal.choice, some imageLiteral.choice, later, ?_, ?_, .some literals.choice⟩
      · exact Outcomes.bind_eq_ok.mpr ⟨_, drawn, Outcomes.bind_eq_ok.mpr ⟨_, picked, rfl⟩⟩
      · exact Outcomes.bind_eq_ok.mpr
          ⟨_, imageDrawn, Outcomes.bind_eq_ok.mpr ⟨_, imagePicked, rfl⟩⟩

/-! ## Counts -/

section Counts

variable {row imageRow : List Nat} {var imageVar : Nat}

theorem reaches_renamed_iff (apart : Set.InjOn rename vars)
    (same : Forall₂ (Renames vars rename) row imageRow) (renames : Renames vars rename var imageVar)
    (times place : Nat) : Reaches row var times place ↔ Reaches imageRow imageVar times place := by
  have unique := Renames.biUnique apart
  have here : row[place]? = some var ↔ imageRow[place]? = some imageVar := by
    have there := rel_getElem? same place
    generalize row[place]? = found at there
    generalize imageRow[place]? = foundImage at there
    cases there with
    | none => simp
    | some related => simpa using rel_eq unique related renames
  have counts := count_eq_of_forall₂ unique renames (forall₂_take (place + 1) same)
  constructor
  · rintro ⟨stands, times_eq⟩
    exact ⟨here.mp stands, counts ▸ times_eq⟩
  · rintro ⟨stands, times_eq⟩
    exact ⟨here.mpr stands, counts ▸ times_eq⟩

/-- Who leads goes on leading under the new number. -/
theorem Leads.renamed (apart : Set.InjOn rename vars)
    (same : Forall₂ (Renames vars rename) row imageRow) (renames : Renames vars rename var imageVar)
    (leads : Leads row var) : Leads imageRow imageVar := by
  have unique := Renames.biUnique apart
  have count {other imageOther : Nat} (related : Renames vars rename other imageOther) :=
    count_eq_of_forall₂ unique related same
  refine ⟨fun imageOther => ?_, ?_⟩
  · by_cases member : imageOther ∈ imageRow
    · obtain ⟨other, _, related⟩ := exists_original_of_forall₂ same member
      rw [← count related, ← count renames]
      exact leads.most other
    -- A number without an original does not occur at all.
    · rw [List.count_eq_zero_of_not_mem member]
      exact Nat.zero_le _
  · obtain ⟨place, reaches, earliest⟩ := leads.first
    rw [← count renames]
    refine ⟨place, (reaches_renamed_iff apart same renames _ _).mp reaches, ?_⟩
    intro imageOther later reachesLater
    obtain ⟨other, _, related⟩ :=
      exists_original_of_forall₂ same (List.mem_of_getElem? reachesLater.here)
    exact earliest other later ((reaches_renamed_iff apart same related _ _).mpr reachesLater)

theorem IsModal.renamed {literals images : List Literal} (apart : Set.InjOn rename vars)
    (same : Forall₂ (Literal.Renamed vars rename) literals images) {choice image : Choice}
    (choices : choice.Renamed vars rename image) (isModal : IsModal literals choice) :
    IsModal images image := by
  have rows : Forall₂ (Choice.Renamed vars rename) (literals.map Literal.choice)
      (images.map Literal.choice) := rel_map (fun _ _ related => related.choice) same
  have times (value : Bool) : timesOf ⟨choice.var, value⟩ literals =
      timesOf ⟨image.var, value⟩ images := by
    have related : Choice.Renamed vars rename ⟨choice.var, value⟩ ⟨image.var, value⟩ :=
      ⟨choices.renames, rfl⟩
    exact count_eq_of_forall₂ (Choice.Renamed.biUnique apart) related rows
  refine ⟨isModal.leads.renamed apart (Clauses.Renamed.varRow same) choices.renames, ?_⟩
  rw [choices.value_eq, isModal.value_eq, times, times]

theorem exists_modalChoice_renamed (apart : Set.InjOn rename vars)
    (registered : remaining.Registered) (imageRegistered : image.Registered)
    (same : Clauses.Renamed vars rename remaining.clauses image.clauses) :
    ∃ answer imageAnswer, modalChoice remaining = .ok answer ∧
      modalChoice image = .ok imageAnswer ∧
      Option.Rel (Choice.Renamed vars rename) answer imageAnswer := by
  have literals : Forall₂ (Literal.Renamed vars rename) _ _ := rel_flatten same
  obtain ⟨answer, chosen, isNone, isModal⟩ := exists_modalChoice registered
  obtain ⟨imageAnswer, imageChosen, imageIsNone, imageIsModal⟩ :=
    exists_modalChoice imageRegistered
  refine ⟨answer, imageAnswer, chosen, imageChosen, ?_⟩
  cases answer with
  | none =>
      rw [isNone.mp rfl, forall₂_nil_left_iff] at literals
      rw [imageIsNone.mpr literals]
      exact .none
  | some choice =>
      have modal := (isModal choice).mp rfl
      obtain ⟨imageVar, _, renames⟩ :=
        exists_mem_of_forall₂ (Clauses.Renamed.varRow literals) modal.leads.mem
      have choices : choice.Renamed vars rename ⟨imageVar, choice.value⟩ := ⟨renames, rfl⟩
      rw [(imageIsModal _).mpr (modal.renamed apart literals choices)]
      exact .some choices

end Counts

/-! ## The smallest variable -/

theorem sup_length_toFinset (rows : List (List Literal)) :
    rows.toFinset.sup List.length = (rows.map List.length).toFinset.sup id := by
  induction rows with
  | nil => rfl
  | cons row rest ih =>
      rw [List.map_cons, List.toFinset_cons, List.toFinset_cons, Finset.sup_insert,
        Finset.sup_insert, ih, id]

/-- The lengths of the clauses that a variable stands in do not depend on its number. -/
theorem longestWith_renamed (apart : Set.InjOn rename vars) {clauses images : List (List Literal)}
    (same : Clauses.Renamed vars rename clauses images) {var imageVar : Nat}
    (renames : Renames vars rename var imageVar) :
    longestWith clauses var = longestWith images imageVar := by
  have candidates : Clauses.Renamed vars rename
      (clauses.filter fun clause => var ∈ clause.map Literal.var)
      (images.filter fun clause => imageVar ∈ clause.map Literal.var) := by
    refine rel_filter (fun clause other alike => ?_) same
    simpa using rel_mem (Renames.biUnique apart) renames (Clauses.Renamed.varRow alike)
  have lengths := rel_map (fun _ _ alike => Forall₂.length_eq alike) candidates
  rw [forall₂_eq_eq_eq] at lengths
  rw [longestWith, longestWith, sup_length_toFinset, sup_length_toFinset, lengths]

theorem mem_of_longestWith {clauses : List (List Literal)} {var : Nat}
    (two : longestWith clauses var = 2) : var ∈ clauses.flatten.map Literal.var := by
  obtain ⟨⟨clause, there, inside, _⟩, _⟩ := (longestWith_eq_iff Nat.zero_lt_two).mp two
  obtain ⟨literal, inClause, rfl⟩ := List.mem_map.mp inside
  exact List.mem_map_of_mem (List.mem_flatten.mpr ⟨clause, there, inClause⟩)

/-- The smallest variable stays the smallest if the order of the numbers stays. -/
theorem exists_twoClauseVariable_renamed (ascending : StrictMonoOn rename vars)
    (registered : remaining.Registered) (imageRegistered : image.Registered)
    (same : Clauses.Renamed vars rename remaining.clauses image.clauses) :
    ∃ answer imageAnswer, twoClauseVariable remaining = .ok answer ∧
      twoClauseVariable image = .ok imageAnswer ∧
      Option.Rel (Renames vars rename) answer imageAnswer := by
  have apart := ascending.injOn
  have rows : Forall₂ (Renames vars rename) _ _ := Clauses.Renamed.varRow (rel_flatten same)
  have two_iff {var imageVar : Nat} (renames : Renames vars rename var imageVar) :
      longestWith remaining.clauses var = 2 ↔ longestWith image.clauses imageVar = 2 := by
    rw [longestWith_renamed apart same renames]
  obtain ⟨answer, found, isSmallest, isNone⟩ := exists_twoClauseVariable registered
  obtain ⟨imageAnswer, imageFound, imageIsSmallest, imageIsNone⟩ :=
    exists_twoClauseVariable imageRegistered
  refine ⟨answer, imageAnswer, found, imageFound, ?_⟩
  cases answer with
  | none =>
      have imageNone : imageAnswer = none := by
        refine imageIsNone.mpr fun imageVar two => ?_
        obtain ⟨var, _, renames⟩ := exists_original_of_forall₂ rows (mem_of_longestWith two)
        exact isNone.mp rfl var ((two_iff renames).mpr two)
      rw [imageNone]
      exact .none
  | some var =>
      obtain ⟨two, smallest⟩ := (isSmallest var).mp rfl
      obtain ⟨imageVar, _, renames⟩ := exists_mem_of_forall₂ rows (mem_of_longestWith two)
      have imageSome : imageAnswer = some imageVar := by
        refine (imageIsSmallest imageVar).mpr ⟨(two_iff renames).mp two, ?_⟩
        intro smaller less isTwo
        obtain ⟨other, _, related⟩ := exists_original_of_forall₂ rows (mem_of_longestWith isTwo)
        -- That the function is one-to-one is not enough from here on.
        rw [related.2, renames.2, ascending.lt_iff_lt related.1 renames.1] at less
        exact smallest other less ((two_iff related).mpr isTwo)
      rw [imageSome]
      exact .some renames

theorem exists_twoClauseChoice_renamed (ascending : StrictMonoOn rename vars)
    (registered : remaining.Registered) (imageRegistered : image.Registered)
    (same : Clauses.Renamed vars rename remaining.clauses image.clauses) (source : γ) :
    ∃ answer imageAnswer later, twoClauseChoice remaining source = .ok (answer, later) ∧
      twoClauseChoice image source = .ok (imageAnswer, later) ∧
      Option.Rel (Choice.Renamed vars rename) answer imageAnswer := by
  obtain ⟨found, imageFound, foundFor, imageFoundFor, related⟩ :=
    exists_twoClauseVariable_renamed ascending registered imageRegistered same
  cases related with
  | some renames =>
      exact ⟨_, _, source, Outcomes.bind_eq_ok.mpr ⟨_, foundFor, rfl⟩,
        Outcomes.bind_eq_ok.mpr ⟨_, imageFoundFor, rfl⟩, .some ⟨renames, rfl⟩⟩
  | none =>
      obtain ⟨answer, imageAnswer, later, drawn, imageDrawn, choices⟩ :=
        exists_randomChoice_renamed same source
      exact ⟨answer, imageAnswer, later, Outcomes.bind_eq_ok.mpr ⟨_, foundFor, drawn⟩,
        Outcomes.bind_eq_ok.mpr ⟨_, imageFoundFor, imageDrawn⟩, choices⟩

end Branching

open Branching

/-- Numbers mean nothing to a policy of the library, and to the two-clause policy nothing but
their order. -/
theorem Selection.equivariant (selection : Selection) (apart : Set.InjOn rename vars)
    (ascending : selection = .twoClause → StrictMonoOn rename vars) :
    (selection.policy : Policy γ).Equivariant vars rename := by
  intro remaining image source registered imageRegistered same
  cases selection with
  | naive => exact ⟨_, _, source, rfl, rfl, naiveChoice_renamed same⟩
  | random => exact exists_randomChoice_renamed same source
  | twoClause =>
      exact exists_twoClauseChoice_renamed (ascending rfl) registered imageRegistered same source
  | modal =>
      obtain ⟨answer, imageAnswer, chosen, imageChosen, choices⟩ :=
        exists_modalChoice_renamed apart registered imageRegistered same
      exact ⟨answer, imageAnswer, source, Outcomes.bind_eq_ok.mpr ⟨_, chosen, rfl⟩,
        Outcomes.bind_eq_ok.mpr ⟨_, imageChosen, rfl⟩, choices⟩

end ChronoSat
