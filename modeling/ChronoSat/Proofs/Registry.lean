/-
# What registering keeps

A registry only grows: the names it has stay where they are, so the number of a
name never changes, and a name is entered once. Reading a row of named literals
into literals therefore gives literals of the registry that comes back, and
leaves every literal read before registered.

That numbers can run out has no part in this. So registering is taken apart: what
it comes to if there is always one more number (`withName`, `numberAll`,
`numberRows`), and that it comes to this exactly if the largest number that it
takes is one that a literal can be made of (`limited`).
-/

import ChronoSat.Proofs.Outcomes
import ChronoSat.Registry
import Mathlib.Data.List.Nodup

namespace ChronoSat.Registry

/-! ## Numbers and names -/

theorem contains_iff {registry : Registry} {var : Nat} :
    registry.contains var = true ↔ 0 < var ∧ var ≤ registry.size := by
  simp [contains]

/-- The numbers with a name are those given out, and the name is at its place. -/
theorem name?_eq_some_iff {registry : Registry} {var : Nat} {name : String} :
    registry.name? var = some name ↔ 0 < var ∧ registry.names[var - 1]? = some name := by
  unfold name?
  split <;> simp_all [Nat.pos_iff_ne_zero]

theorem exists_name?_iff {registry : Registry} {var : Nat} :
    (∃ name, registry.name? var = some name) ↔ 0 < var ∧ var ≤ registry.size := by
  have there : (∃ name, registry.names[var - 1]? = some name) ↔ var - 1 < registry.size := by
    simp [List.getElem?_eq_some_iff, size]
  simp only [name?_eq_some_iff, exists_and_left, there]
  omega

theorem name?_eq_none_iff {registry : Registry} {var : Nat} :
    registry.name? var = none ↔ registry.contains var = false := by
  rw [← Option.not_isSome_iff_eq_none, Option.isSome_iff_exists, exists_name?_iff,
    ← contains_iff, Bool.not_eq_true]

theorem id?_eq_none_iff {registry : Registry} {name : String} :
    registry.id? name = none ↔ name ∉ registry.names := by
  simp [id?]

/-- The names with a number are those registered, and the number is the one registering gives. -/
theorem id?_eq_some_iff {registry : Registry} {name : String} {var : Nat} :
    registry.id? name = some var ↔ name ∈ registry.names ∧ registry.idFor name = var := by
  simp [id?]

/-! ## Without end -/

/-- The registry after a name has been seen, whether there is a number for it or not. -/
def withName (registry : Registry) (name : String) : Registry :=
  if name ∈ registry.names then registry else ⟨registry.names ++ [name]⟩

/-- The literals of a row and the registry that has seen all of its names, whether
there are numbers for them or not. -/
def numberAll (registry : Registry) : NamedClause → List Literal × Registry
  | [] => ([], registry)
  | (name, polarity) :: rest =>
    let (literals, grown) := (registry.withName name).numberAll rest
    (registry.literalFor name polarity :: literals, grown)

/-- The literals of several rows, numbered one row after the other, and the registry
that has seen all of their names. -/
def numberRows (registry : Registry) : List NamedClause → List (List Literal) × Registry
  | [] => ([], registry)
  | row :: rest =>
    let (literals, grown) := registry.numberAll row
    let (more, grown) := grown.numberRows rest
    (literals :: more, grown)

theorem withName_of_mem {registry : Registry} {name : String} (known : name ∈ registry.names) :
    registry.withName name = registry := by
  simp [withName, known]

theorem withName_of_not_mem {registry : Registry} {name : String}
    (fresh : name ∉ registry.names) :
    registry.withName name = ⟨registry.names ++ [name]⟩ := by
  simp [withName, fresh]

/-! ## Registering one name -/

theorem names_prefix_withName (registry : Registry) (name : String) :
    registry.names <+: (registry.withName name).names := by
  by_cases known : name ∈ registry.names
  · have same : registry.names = (registry.withName name).names :=
      congrArg names (withName_of_mem known).symm
    exact same ▸ List.prefix_rfl
  · rw [withName_of_not_mem known]
    exact List.prefix_append ..

theorem nodup_withName {registry : Registry} (distinct : registry.names.Nodup) (name : String) :
    (registry.withName name).names.Nodup := by
  by_cases known : name ∈ registry.names
  · rwa [withName_of_mem known]
  · rw [withName_of_not_mem known]
    refine List.nodup_append.mpr ⟨distinct, List.nodup_singleton name, ?_⟩
    intro other member _ fresh same
    exact known (List.mem_singleton.mp fresh ▸ same ▸ member)

/-- The number that a name is given is registered once the name has been seen. -/
theorem idFor_le_size_withName (registry : Registry) (name : String) :
    registry.idFor name ≤ (registry.withName name).size := by
  by_cases known : name ∈ registry.names
  · rw [withName_of_mem known]
    exact List.idxOf_lt_length_iff.mpr known
  · rw [withName_of_not_mem known, idFor, List.idxOf_eq_length known]
    simp [size]

/-! ## Reading rows of named literals -/

theorem names_prefix_numberAll (registry : Registry) (row : NamedClause) :
    registry.names <+: (registry.numberAll row).2.names := by
  induction row generalizing registry with
  | nil => exact List.prefix_rfl
  | cons named rest ih =>
      exact (names_prefix_withName registry named.1).trans (ih (registry.withName named.1))

theorem nodup_numberAll {registry : Registry} (distinct : registry.names.Nodup)
    (row : NamedClause) : (registry.numberAll row).2.names.Nodup := by
  induction row generalizing registry with
  | nil => exact distinct
  | cons named rest ih => exact ih (nodup_withName distinct named.1)

/-- The literals read are over numbers of the registry that has seen them all. -/
theorem var_le_size_numberAll (registry : Registry) (row : NamedClause) :
    ∀ literal ∈ (registry.numberAll row).1, literal.var ≤ (registry.numberAll row).2.size := by
  induction row generalizing registry with
  | nil => exact fun _ none => absurd none List.not_mem_nil
  | cons named rest ih =>
      intro literal member
      rcases List.mem_cons.mp member with same | later
      · subst same
        exact Nat.le_trans (idFor_le_size_withName registry named.1)
          (names_prefix_numberAll _ rest).length_le
      · exact ih (registry.withName named.1) literal later

theorem names_prefix_numberRows (registry : Registry) (rows : List NamedClause) :
    registry.names <+: (registry.numberRows rows).2.names := by
  induction rows generalizing registry with
  | nil => exact List.prefix_rfl
  | cons row rest ih => exact (names_prefix_numberAll registry row).trans (ih _)

/-! ## As long as there are numbers -/

/-- The result of what takes numbers up to a largest one, if literals can be made of all
of them. It is a fault otherwise. -/
def limited {α : Type} (largest : Nat) (result : α) : Except Fault α :=
  if largest ≤ Literal.maxVar then .ok result else .error .registryFull

section Limited

variable {α β : Type} {largest later : Nat} {result : α}

theorem limited_of_le (fits : largest ≤ Literal.maxVar) (result : α) :
    limited largest result = .ok result :=
  if_pos fits

theorem limited_eq_ok_iff {other : α} :
    limited largest result = .ok other ↔ largest ≤ Literal.maxVar ∧ other = result := by
  by_cases fits : largest ≤ Literal.maxVar <;> simp [limited, fits, eq_comm]

theorem limited_eq_error_iff {fault : Fault} :
    limited largest result = .error fault ↔
      Literal.maxVar < largest ∧ fault = .registryFull := by
  rw [← Nat.not_le]
  by_cases fits : largest ≤ Literal.maxVar <;> simp [limited, fits, eq_comm]

/-- What goes on with more numbers is limited by these. -/
theorem limited_bind {next : α → Except Fault β} {final : β} (grows : largest ≤ later)
    (goesOn : largest ≤ Literal.maxVar → next result = limited later final) :
    limited largest result >>= next = limited later final := by
  by_cases fits : largest ≤ Literal.maxVar
  · rw [limited_of_le fits]
    exact goesOn fits
  · rw [limited, limited, if_neg fits, if_neg fun within => fits (Nat.le_trans grows within)]
    rfl

end Limited

theorem register_eq {registry : Registry} (fits : registry.size ≤ Literal.maxVar)
    (name : String) :
    registry.register name = limited (registry.withName name).size (registry.withName name) := by
  by_cases known : name ∈ registry.names
  · rw [register, if_pos known, withName_of_mem known, limited_of_le fits]
  · have size : (registry.withName name).size = registry.size + 1 := by
      simp [withName_of_not_mem known, Registry.size]
    rw [register, if_neg known, limited, size, withName_of_not_mem known]
    rfl

theorem registerAll_eq {registry : Registry} (fits : registry.size ≤ Literal.maxVar)
    (row : NamedClause) :
    registry.registerAll row =
      limited (registry.numberAll row).2.size (registry.numberAll row) := by
  induction row generalizing registry with
  | nil => exact (limited_of_le fits _).symm
  | cons named rest ih =>
      rw [registerAll, register_eq fits]
      refine limited_bind (names_prefix_numberAll _ rest).length_le fun room => ?_
      rw [ih room]
      exact limited_bind (Nat.le_refl _) fun within => (limited_of_le within _).symm

end ChronoSat.Registry
