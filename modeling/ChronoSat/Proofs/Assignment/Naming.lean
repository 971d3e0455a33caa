/-
# Models by name

An assignment to registered numbers can be read by name: the name of every assigned
number occurs with the value of the number. The assigned numbers come in ascending
order and the names in the order of the names, so the two rows are related by a
rearrangement and not place by place. If exactly the registered numbers have a
value, every name occurs once.
-/

import ChronoSat.Proofs.Assignment.Values
import ChronoSat.Proofs.Outcomes
import ChronoSat.Proofs.Registry

namespace ChronoSat.Assignment

variable {assignment : Assignment} {registry : Registry}

/-- The assignment says something about the registered numbers and no others. -/
def Covers (assignment : Assignment) (numVars : Nat) : Prop :=
  ∀ var, (assignment.value? var).isSome = true ↔ 0 < var ∧ var ≤ numVars

theorem map_fst_pairs_perm {numVars : Nat} (covers : assignment.Covers numVars) :
    (assignment.pairs.map Prod.fst).Perm (List.range' 1 numVars) := by
  have distinct : (assignment.pairs.map Prod.fst).Nodup := by
    rw [List.Nodup, List.pairwise_map]
    exact assignment.pairwise_pairs.imp Nat.ne_of_lt
  rw [List.perm_ext_iff_of_nodup distinct List.nodup_range']
  intro var
  rw [List.mem_range'_1, List.mem_map]
  have covered := covers var
  rw [Option.isSome_iff_exists] at covered
  constructor
  · rintro ⟨⟨_, value⟩, member, rfl⟩
    have := covered.mp ⟨value, mem_pairs.mp member⟩
    omega
  · intro inside
    obtain ⟨value, said⟩ := covered.mpr (by omega)
    exact ⟨(var, value), mem_pairs.mpr said, rfl⟩

/-- The name of a number, or nothing telling if it has none. -/
def nameOf (registry : Registry) (var : Nat) : String :=
  (registry.name? var).getD ""

theorem name?_eq_some_nameOf {var : Nat} (known : 0 < var ∧ var ≤ registry.size) :
    registry.name? var = some (nameOf registry var) := by
  obtain ⟨name, named⟩ := Registry.exists_name?_iff.mpr known
  rw [nameOf, named]
  rfl

theorem map_nameOf_range' (registry : Registry) :
    (List.range' 1 registry.size).map (nameOf registry) = registry.names := by
  apply List.ext_getElem?
  intro place
  rw [List.getElem?_map]
  by_cases inside : place < registry.size
  · rw [List.getElem?_range' inside, Option.map_some, ← name?_eq_some_nameOf (by omega)]
    simp [Registry.name?]
  · rw [List.getElem?_eq_none (by simpa using Nat.le_of_not_lt inside),
      List.getElem?_eq_none (Nat.le_of_not_lt inside)]
    rfl

/-- The assignment gives a value to no numbers but those from 1 on that are given out. -/
def Within (assignment : Assignment) (numVars : Nat) : Prop :=
  ∀ var value, assignment.value? var = some value → 0 < var ∧ var ≤ numVars

theorem Covers.within {numVars : Nat} (covers : assignment.Covers numVars) :
    assignment.Within numVars :=
  fun var _ said => (covers var).mp (said ▸ rfl)

/-- An assigned number by its name. -/
def entryOf (registry : Registry) (pair : Nat × Bool) : String × Bool :=
  (nameOf registry pair.1, pair.2)

/-- An assignment to registered numbers can be read by name. -/
theorem Within.exists_toNamed (within : assignment.Within registry.size) :
    ∃ named, assignment.toNamed registry = .ok named ∧
      named.Perm (assignment.pairs.map (entryOf registry)) ∧
      named.Pairwise fun earlier later => earlier.1 ≤ later.1 := by
  have each : assignment.pairs.mapM (namedPair registry) =
      .ok (assignment.pairs.map (entryOf registry)) := by
    apply Outcomes.mapM_eq_ok
    rintro ⟨var, value⟩ member
    rw [namedPair, name?_eq_some_nameOf (within var value (mem_pairs.mp member))]
    rfl
  let below (left right : String × Bool) : Bool := left.1 ≤ right.1
  have ascending : ((assignment.pairs.map (entryOf registry)).mergeSort below).Pairwise
      fun left right => below left right = true :=
    List.pairwise_mergeSort (fun _ _ _ => by simpa [below] using String.le_trans)
      (fun _ _ => by simpa [below] using String.le_total _ _) _
  exact ⟨_, by rw [toNamed, each]; rfl, List.mergeSort_perm _ _, ascending.imp of_decide_eq_true⟩

/-- The names of assigned numbers are those of registered numbers with a value. -/
theorem Within.mem_entries (within : assignment.Within registry.size) {name : String}
    {value : Bool} :
    (name, value) ∈ assignment.pairs.map (entryOf registry) ↔
      ∃ var, registry.name? var = some name ∧ assignment.value? var = some value := by
  rw [List.mem_map]
  constructor
  · rintro ⟨⟨var, _⟩, member, same⟩
    cases same
    have said := mem_pairs.mp member
    exact ⟨var, name?_eq_some_nameOf (within var _ said), said⟩
  · rintro ⟨var, named, said⟩
    exact ⟨(var, value), mem_pairs.mpr said, by rw [entryOf, nameOf, named]; rfl⟩

/-- An assignment to exactly the registered numbers can be read by name. -/
theorem exists_toNamed_eq_ok (covers : assignment.Covers registry.size) :
    ∃ named, assignment.toNamed registry = .ok named ∧
      (named.map Prod.fst).Perm registry.names ∧
      ∀ name value, (name, value) ∈ named ↔
        ∃ var, registry.name? var = some name ∧ assignment.value? var = some value := by
  obtain ⟨named, read, entries, _⟩ := covers.within.exists_toNamed
  refine ⟨named, read, ?_, fun name value => ?_⟩
  · refine (entries.map Prod.fst).trans ?_
    rw [List.map_map]
    have names := (map_fst_pairs_perm covers).map (nameOf registry)
    rwa [List.map_map, map_nameOf_range'] at names
  · rw [entries.mem_iff, covers.within.mem_entries]

/-! ## Values of names -/

/-- The assignment that gives the registered names the values that they have. -/
def through (registry : Registry) (values : String → Option Bool) : Assignment :=
  ⟨none :: registry.names.map values⟩

theorem value?_through_eq_bind (registry : Registry) (values : String → Option Bool) (var : Nat) :
    (through registry values).value? var = (registry.name? var).bind values := by
  cases var with
  | zero => rfl
  | succ place =>
      rw [value?, through, List.getElem?_cons_succ, List.getElem?_map, Registry.name?,
        if_neg (Nat.succ_ne_zero place), Nat.add_sub_cancel]
      cases registry.names[place]? <;> rfl

theorem value?_through (values : String → Option Bool) {var : Nat} {name : String}
    (named : registry.name? var = some name) :
    (through registry values).value? var = values name := by
  rw [value?_through_eq_bind, named, Option.bind_some]

end ChronoSat.Assignment

namespace ChronoSat.Registry

/-! ## Literals by their names -/

/-- The text of a literal over a registered variable. -/
def spellingOf (registry : Registry) (literal : Literal) : String :=
  Literal.spell (Assignment.nameOf registry literal.var) literal.polarity

theorem render_eq_ok {registry : Registry} {literal : Literal}
    (inside : literal.var ≤ registry.size) :
    registry.render literal = .ok (registry.spellingOf literal) := by
  rw [render, Assignment.name?_eq_some_nameOf ⟨literal.var_pos, inside⟩, spellingOf]

end ChronoSat.Registry
