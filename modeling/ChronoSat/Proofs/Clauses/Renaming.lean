/-
# Clauses under other numbers

Two rows of clauses are the same but for the numbers of their variables if they have the same
shape, every literal has the polarity of its counterpart, and the variables are renamed by a
function that keeps those of a set apart. Whatever a search tests or does to clauses respects
this: which literals are equal, which clauses are empty or units, how often a literal stands
somewhere, and what is left once corresponding literals are made true.

The function need not keep any other variables apart, since nothing ever looks at those.
-/

import ChronoSat.Proofs.Clauses.Reduction
import Mathlib.Data.List.Forall2

namespace ChronoSat

open List Relator

/-! ## Rows that correspond -/

section Rows

variable {α β γ δ : Type} {R : α → β → Prop} {S : γ → δ → Prop}

theorem rel_getElem? {row : List α} {image : List β} (same : Forall₂ R row image) (place : Nat) :
    Option.Rel R row[place]? image[place]? := by
  induction same generalizing place with
  | nil => exact .none
  | cons first _ ih =>
      cases place with
      | zero => exact .some first
      | succ place => simpa using ih place

theorem rel_findSome? {f : α → Option γ} {g : β → Option δ}
    (each : ∀ element other, R element other → Option.Rel S (f element) (g other))
    {row : List α} {image : List β} (same : Forall₂ R row image) :
    Option.Rel S (row.findSome? f) (image.findSome? g) := by
  induction same with
  | nil => exact .none
  | cons first _ ih =>
      have here := each _ _ first
      rw [List.findSome?_cons, List.findSome?_cons]
      generalize f _ = found at here
      generalize g _ = foundImage at here
      cases here with
      | some related => exact .some related
      | none => exact ih

theorem exists_mem_of_forall₂ {row : List α} {image : List β} (same : Forall₂ R row image)
    {element : α} (member : element ∈ row) : ∃ other ∈ image, R element other := by
  induction same with
  | nil => cases member
  | cons first _ ih =>
      rcases List.mem_cons.mp member with rfl | later
      · exact ⟨_, List.mem_cons_self, first⟩
      · obtain ⟨other, inside, related⟩ := ih later
        exact ⟨other, List.mem_cons_of_mem _ inside, related⟩

theorem exists_original_of_forall₂ {row : List α} {image : List β} (same : Forall₂ R row image)
    {other : β} (member : other ∈ image) : ∃ element ∈ row, R element other :=
  exists_mem_of_forall₂ (R := flip R) same.flip member

/-- Elements that correspond occur as often as each other. -/
theorem count_eq_of_forall₂ [DecidableEq α] [DecidableEq β] (unique : BiUnique R) {element : α}
    {other : β} (related : R element other) {row : List α} {image : List β}
    (same : Forall₂ R row image) : row.count element = image.count other := by
  induction same with
  | nil => rfl
  | cons first _ ih =>
      have equal := rel_eq unique first related
      rw [List.count_cons, List.count_cons, ih]
      simp only [beq_iff_eq, equal]

end Rows

/-! ## Literals -/

/-- A variable of a set and its new number. -/
def Renames (vars : Set Nat) (rename : Nat → Nat) (var image : Nat) : Prop :=
  var ∈ vars ∧ image = rename var

variable {vars : Set Nat} {rename : Nat → Nat}

theorem Renames.biUnique (apart : Set.InjOn rename vars) : BiUnique (Renames vars rename) where
  left := fun _ _ _ ⟨first, same⟩ ⟨second, other⟩ => apart first second (same.symm.trans other)
  right := fun _ _ _ ⟨_, same⟩ ⟨_, other⟩ => same.trans other.symm

namespace Literal

/-- A literal over a variable of a set and the same literal over the new number. -/
structure Renamed (vars : Set Nat) (rename : Nat → Nat) (literal image : Literal) : Prop where
  renames : Renames vars rename literal.var image.var
  polarity_eq : image.polarity = literal.polarity

theorem eq_of_var_eq_of_polarity_eq {first second : Literal} (var : first.var = second.var)
    (polarity : first.polarity = second.polarity) : first = second := by
  cases first
  cases second
  simp_all

theorem Renamed.biUnique (apart : Set.InjOn rename vars) :
    BiUnique (Literal.Renamed vars rename) where
  left := fun _ _ _ first second => eq_of_var_eq_of_polarity_eq
    ((Renames.biUnique apart).left first.renames second.renames)
    (first.polarity_eq.symm.trans second.polarity_eq)
  right := fun _ _ _ first second => eq_of_var_eq_of_polarity_eq
    ((Renames.biUnique apart).right first.renames second.renames)
    (first.polarity_eq.trans second.polarity_eq.symm)

theorem Renamed.negated {literal image : Literal} (same : literal.Renamed vars rename image) :
    literal.negated.Renamed vars rename image.negated :=
  ⟨same.renames, congrArg not same.polarity_eq⟩

end Literal

/-! ## Clauses -/

namespace Clauses

/-- Rows of clauses that are the same but for the numbers of their variables. -/
def Renamed (vars : Set Nat) (rename : Nat → Nat) :
    List (List Literal) → List (List Literal) → Prop :=
  Forall₂ (Forall₂ (Literal.Renamed vars rename))

namespace Renamed

variable {clauses images : List (List Literal)}

/-- Making corresponding literals true leaves clauses that correspond. -/
theorem reduced (same : Renamed vars rename clauses images) (apart : Set.InjOn rename vars)
    {literal image : Literal} (literals : literal.Renamed vars rename image) :
    Renamed vars rename (Clauses.reduced literal clauses) (Clauses.reduced image images) := by
  have unique := Literal.Renamed.biUnique apart
  refine rel_map (fun clause other alike => ?_) (rel_filter (fun clause other alike => ?_) same)
  · refine rel_filter (fun first second related => ?_) alike
    simpa using not_congr (rel_eq unique related literals.negated)
  · simpa using not_congr (rel_mem unique literals alike)

theorem nil_mem_iff (same : Renamed vars rename clauses images) (apart : Set.InjOn rename vars) :
    [] ∈ clauses ↔ [] ∈ images :=
  rel_mem (Literal.Renamed.biUnique apart).forall₂ .nil same

theorem firstUnit (same : Renamed vars rename clauses images) :
    Option.Rel (Literal.Renamed vars rename) (clauses.findSome? SearchState.unitOf)
      (images.findSome? SearchState.unitOf) := by
  refine rel_findSome? (fun clause image alike => ?_) same
  match alike with
  | .nil => exact .none
  | .cons first .nil => exact .some first
  | .cons _ (.cons _ _) => exact .none

/-- The variables of the literals are renamed one by one. -/
theorem varRow {literals images : List Literal}
    (same : Forall₂ (Literal.Renamed vars rename) literals images) :
    Forall₂ (Renames vars rename) (literals.map Literal.var) (images.map Literal.var) :=
  rel_map (fun _ _ related => related.renames) same

theorem exists_mem_vars (same : Renamed vars rename clauses images) {var : Nat}
    (occurs : var ∈ Clauses.vars clauses) :
    ∃ image ∈ Clauses.vars images, Renames vars rename var image := by
  rw [Clauses.vars, List.mem_toFinset] at occurs
  obtain ⟨image, inside, renames⟩ := exists_mem_of_forall₂ (varRow (rel_flatten same)) occurs
  exact ⟨image, List.mem_toFinset.mpr inside, renames⟩

end Renamed

end Clauses

end ChronoSat
