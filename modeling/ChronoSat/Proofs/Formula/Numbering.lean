/-
# Numbers in the order of first occurrence

Building a formula from rows of named literals numbers the names as they come. What
comes out can be said without going through the rows: the registry holds the names
that occur, each where it occurs first, and every literal has the number of its
name's place. The rows can be read off the formula again, so nothing of them is
lost, and a formula whose registry is in this order is the one that its rows build.
-/

import ChronoSat.Proofs.Assignment.Naming
import ChronoSat.Proofs.Formula.Obtainable
import Mathlib.Data.List.Induction
import Mathlib.Data.List.Perm.Subperm

namespace ChronoSat

/-! ## First occurrences -/

namespace Occurrences

variable {α β : Type} [DecidableEq α] [DecidableEq β]

/-- An element at the end counts only if it is new. -/
theorem eraseDups_concat (row : List α) (element : α) :
    (row ++ [element]).eraseDups =
      if element ∈ row then row.eraseDups else row.eraseDups ++ [element] := by
  by_cases known : element ∈ row <;>
    simp [List.eraseDups_append, List.eraseDups_cons, List.removeAll, known]

theorem nodup_eraseDups (row : List α) : row.eraseDups.Nodup := by
  induction row using List.reverseRecOn with
  | nil => simp
  | append_singleton row element ih =>
      rw [eraseDups_concat]
      split
      · exact ih
      · next fresh =>
          apply List.nodup_append.mpr
          have new : ∀ other ∈ row, other ≠ element :=
            fun other member same => fresh (same ▸ member)
          simpa [ih] using new

theorem eraseDups_of_nodup {row : List α} (distinct : row.Nodup) : row.eraseDups = row := by
  induction row using List.reverseRecOn with
  | nil => rfl
  | append_singleton row element ih =>
      obtain ⟨distinct, _, apart⟩ := List.nodup_append.mp distinct
      have fresh : element ∉ row := fun member => apart element member element (by simp) rfl
      rw [eraseDups_concat, if_neg fresh, ih distinct]

/-- Only first occurrences count in front of a row, too. -/
theorem eraseDups_eraseDups_append (front back : List α) :
    (front.eraseDups ++ back).eraseDups = (front ++ back).eraseDups := by
  induction back using List.reverseRecOn with
  | nil => simpa using eraseDups_of_nodup (nodup_eraseDups front)
  | append_singleton back element ih =>
      rw [← List.append_assoc, ← List.append_assoc, eraseDups_concat, eraseDups_concat, ih]
      simp

/-- What occurs already changes nothing. -/
theorem eraseDups_append_of_subset {front middle : List α} (known : middle ⊆ front) :
    (front ++ middle).eraseDups = front.eraseDups := by
  induction middle using List.reverseRecOn with
  | nil => simp
  | append_singleton middle element ih =>
      have inside : element ∈ front ++ middle := List.mem_append_left _ (known (by simp))
      rw [← List.append_assoc, eraseDups_concat, if_pos inside]
      exact ih fun other member => known (List.mem_append_left _ member)

/-- Rows with the same first occurrences have them with the same row behind. -/
theorem eraseDups_append_congr {left right : List α} (same : left.eraseDups = right.eraseDups)
    (back : List α) : (left ++ back).eraseDups = (right ++ back).eraseDups := by
  rw [← eraseDups_eraseDups_append left, same, eraseDups_eraseDups_append]

/-- A function that tells the elements of a row apart keeps first occurrences. -/
theorem eraseDups_map {f : α → β} {row : List α}
    (apart : ∀ first ∈ row, ∀ second ∈ row, f first = f second → first = second) :
    (row.map f).eraseDups = row.eraseDups.map f := by
  induction row using List.reverseRecOn with
  | nil => simp
  | append_singleton row element ih =>
      have known : f element ∈ row.map f ↔ element ∈ row := by
        refine ⟨fun member => ?_, List.mem_map_of_mem⟩
        obtain ⟨other, inside, same⟩ := List.mem_map.mp member
        exact apart other (by simp [inside]) element (by simp) same ▸ inside
      have shorter := ih fun first inFront second inBack =>
        apart first (by simp [inFront]) second (by simp [inBack])
      rw [List.map_append, List.map_singleton, eraseDups_concat, eraseDups_concat]
      by_cases inside : element ∈ row <;> simp [known, inside, shorter]

end Occurrences

/-! ## What the registry has seen -/

namespace Registry

variable {registry longer : Registry} {name : String}

theorem names_withName (distinct : registry.names.Nodup) (name : String) :
    (registry.withName name).names = (registry.names ++ [name]).eraseDups := by
  rw [Occurrences.eraseDups_concat, Occurrences.eraseDups_of_nodup distinct]
  by_cases known : name ∈ registry.names
  · rw [withName_of_mem known, if_pos known]
  · rw [withName_of_not_mem known, if_neg known]

/-- Reading a row enters its names behind those that are there. -/
theorem names_numberAll (distinct : registry.names.Nodup) (row : NamedClause) :
    (registry.numberAll row).2.names = (registry.names ++ row.map Prod.fst).eraseDups := by
  induction row generalizing registry with
  | nil => simp [numberAll, Occurrences.eraseDups_of_nodup distinct]
  | cons named rest ih =>
      show ((registry.withName named.1).numberAll rest).2.names = _
      rw [ih (nodup_withName distinct named.1), names_withName distinct,
        Occurrences.eraseDups_eraseDups_append, List.map_cons, List.append_assoc,
        List.singleton_append]

/-- Reading rows enters their names behind those that are there. -/
theorem names_numberRows (distinct : registry.names.Nodup) (rows : List NamedClause) :
    (registry.numberRows rows).2.names =
      (registry.names ++ rows.flatten.map Prod.fst).eraseDups := by
  induction rows generalizing registry with
  | nil => simp [numberRows, Occurrences.eraseDups_of_nodup distinct]
  | cons row rest ih =>
      show ((registry.numberAll row).2.numberRows rest).2.names = _
      rw [ih (nodup_numberAll distinct row), names_numberAll distinct,
        Occurrences.eraseDups_eraseDups_append, List.flatten_cons, List.map_append,
        List.append_assoc]

/-! ## The number of a name for good -/

theorem mem_names_withName (registry : Registry) (name : String) :
    name ∈ (registry.withName name).names := by
  by_cases known : name ∈ registry.names
  · rwa [withName_of_mem known]
  · simp [withName_of_not_mem known]

theorem literalFor_eq_of_idFor_eq (same : longer.idFor name = registry.idFor name)
    (polarity : Bool) : longer.literalFor name polarity = registry.literalFor name polarity := by
  simp [literalFor, same]

/-- Growing leaves a registered name its number. -/
theorem idFor_of_grown (known : name ∈ registry.names)
    (grown : registry.names <+: longer.names) : longer.idFor name = registry.idFor name := by
  obtain ⟨added, same⟩ := grown
  rw [idFor, ← same, List.idxOf_append_of_mem known, idFor]

/-- The number announced for a name is the one it is registered under. -/
theorem idFor_withName (registry : Registry) (name : String) :
    (registry.withName name).idFor name = registry.idFor name := by
  by_cases known : name ∈ registry.names
  · rw [withName_of_mem known]
  · rw [withName_of_not_mem known]
    simp [idFor, List.idxOf_append, known]

/-- The literals read are those that any registry grown from there has for the names. -/
theorem fst_numberAll {row : NamedClause}
    (grown : (registry.numberAll row).2.names <+: longer.names) :
    (registry.numberAll row).1 = row.map fun named => longer.literalFor named.1 named.2 := by
  induction row generalizing registry with
  | nil => rfl
  | cons named rest ih =>
      have registered : (registry.withName named.1).names <+: longer.names :=
        (names_prefix_numberAll _ rest).trans grown
      have number : longer.idFor named.1 = registry.idFor named.1 :=
        (idFor_of_grown (mem_names_withName registry named.1) registered).trans
          (idFor_withName registry named.1)
      rw [List.map_cons, literalFor_eq_of_idFor_eq number, ← ih grown]
      rfl

theorem fst_numberRows {rows : List NamedClause}
    (grown : (registry.numberRows rows).2.names <+: longer.names) :
    (registry.numberRows rows).1 =
      rows.map fun row => row.map fun named => longer.literalFor named.1 named.2 := by
  induction rows generalizing registry with
  | nil => rfl
  | cons row rest ih =>
      rw [List.map_cons, ← ih grown,
        ← fst_numberAll ((names_prefix_numberRows _ rest).trans grown)]
      rfl

/-- The name of a name's number is the name. -/
theorem name?_idFor (known : name ∈ registry.names) :
    registry.name? (registry.idFor name) = some name :=
  name?_eq_some_iff.mpr ⟨registry.idFor_pos name, List.getElem?_idxOf known⟩

/-- The number of a number's name is the number. -/
theorem idFor_of_name? (distinct : registry.names.Nodup) {var : Nat}
    (named : registry.name? var = some name) : registry.idFor name = var := by
  obtain ⟨positive, there⟩ := name?_eq_some_iff.mp named
  obtain ⟨inside, same⟩ := List.getElem?_eq_some_iff.mp there
  rw [idFor, ← same, distinct.idxOf_getElem]
  omega

/-- Numbers and names are found from one another. -/
theorem id?_eq_some_iff_name? (distinct : registry.names.Nodup) {var : Nat} :
    registry.id? name = some var ↔ registry.name? var = some name := by
  rw [id?_eq_some_iff]
  constructor
  · rintro ⟨known, rfl⟩
    exact name?_idFor known
  · intro named
    exact ⟨List.mem_of_getElem? (name?_eq_some_iff.mp named).2, idFor_of_name? distinct named⟩

theorem id?_of_grown (grown : registry.names <+: longer.names) {var : Nat}
    (found : registry.id? name = some var) : longer.id? name = some var := by
  obtain ⟨known, rfl⟩ := id?_eq_some_iff.mp found
  exact id?_eq_some_iff.mpr ⟨grown.subset known, idFor_of_grown known grown⟩

end Registry

/-! ## The formula of named rows -/

variable {form : NormalForm}

namespace Formula

/-- The clauses of a formula by the names of their variables. -/
def namedRows (formula : Formula form) : List NamedClause :=
  formula.clauses.map (namedLiterals formula.registry)

/-- A formula stands for rows of named literals, its names numbered as they come: they are
registered in the order in which they occur first, and every literal has the number of
its name. -/
structure NumberedFrom (formula : Formula form) (rows : List NamedClause) : Prop where
  names_eq : formula.registry.names = (rows.flatten.map Prod.fst).eraseDups
  clauses_eq : formula.clauses = rows.map fun row =>
    ⟨form.inner, row.map fun named => formula.registry.literalFor named.1 named.2⟩

/-- The registry holds the names that occur, in the order in which they occur first. -/
def InFirstSeenOrder (formula : Formula form) : Prop :=
  formula.registry.names = (formula.namedRows.flatten.map Prod.fst).eraseDups

theorem numberedFrom_ofNamed (rows : List NamedClause) :
    (ofNamed rows : Formula form).NumberedFrom rows where
  names_eq := by
    have names : (Registry.empty.numberRows rows).2.names = _ :=
      Registry.names_numberRows List.nodup_nil rows
    rwa [Registry.empty, List.nil_append] at names
  clauses_eq := by
    show [] ++ (Registry.empty.numberRows rows).1.map _ = _
    rw [Registry.fst_numberRows List.prefix_rfl, List.nil_append, List.map_map]
    rfl

/-- Rows number one formula only. -/
theorem numberedFrom_iff {formula : Formula form} {rows : List NamedClause} :
    formula.NumberedFrom rows ↔ formula = ofNamed rows := by
  constructor
  · intro numbered
    have built : (ofNamed rows : Formula form).NumberedFrom rows := numberedFrom_ofNamed rows
    have registries : formula.registry = (ofNamed rows : Formula form).registry :=
      congrArg Registry.mk (numbered.names_eq.trans built.names_eq.symm)
    obtain ⟨clauses, registry⟩ := formula
    subst registries
    rw [show clauses = _ from numbered.clauses_eq, ← built.clauses_eq]
  · rintro rfl
    exact numberedFrom_ofNamed rows

/-- There are no more different names in the rows than there are numbers. -/
def Numerable (rows : List NamedClause) : Prop :=
  (rows.flatten.map Prod.fst).eraseDups.length ≤ Literal.maxVar

instance : DecidablePred Numerable := fun rows =>
  inferInstanceAs (Decidable ((rows.flatten.map Prod.fst).eraseDups.length ≤ Literal.maxVar))

theorem NumberedFrom.numVars_eq {formula : Formula form} {rows : List NamedClause}
    (numbered : formula.NumberedFrom rows) :
    formula.numVars = (rows.flatten.map Prod.fst).eraseDups.length :=
  congrArg List.length numbered.names_eq

theorem numVars_ofNamed_le_iff {rows : List NamedClause} :
    (ofNamed rows : Formula form).numVars ≤ Literal.maxVar ↔ Numerable rows := by
  rw [(numberedFrom_ofNamed rows).numVars_eq, Numerable]

theorem numerable_nil : Numerable [] := Nat.zero_le _

/-- If there are numbers for the names of all rows, there are for the first ones. -/
theorem Numerable.of_prefix {rows longer : List NamedClause} (numerable : Numerable longer)
    (begins : rows <+: longer) : Numerable rows := by
  obtain ⟨rest, rfl⟩ := begins
  have grows : (ofNamed rows : Cnf).numVars ≤ ((ofNamed rows : Cnf).withRows rest).numVars :=
    (names_prefix_withRows _ rest).length_le
  rw [ofNamed, ← withRows_append, ← ofNamed, ← ofNamed] at grows
  exact numVars_ofNamed_le_iff.mp (Nat.le_trans grows (numVars_ofNamed_le_iff.mpr numerable))

/-- There are numbers for names that are among so many. -/
theorem numerable_of_subset {rows : List NamedClause} {names : List String}
    (known : rows.flatten.map Prod.fst ⊆ names) (fits : names.length ≤ Literal.maxVar) :
    Numerable rows := by
  have among : (rows.flatten.map Prod.fst).eraseDups.Subperm names :=
    (Occurrences.nodup_eraseDups _).subperm fun _ member => known (List.mem_eraseDups.mp member)
  exact Nat.le_trans among.length_le fits

/-- There are numbers for the names of so few literals. -/
theorem numerable_of_length_le {rows : List NamedClause}
    (few : rows.flatten.length ≤ Literal.maxVar) : Numerable rows :=
  numerable_of_subset (List.Subset.refl _) (by rwa [List.length_map])

/-! ## Reading the rows off the formula -/

/-- Every literal of a clause over registered variables has a name. -/
theorem namedLiterals_eq_map {registry : Registry} {clause : Clause}
    (inside : ∀ literal ∈ clause.literals, literal.var ≤ registry.size) :
    namedLiterals registry clause = clause.literals.map fun literal =>
      (Assignment.nameOf registry literal.var, literal.polarity) := by
  rw [namedLiterals, ← List.filterMap_eq_map]
  apply List.filterMap_congr
  intro literal member
  rw [Assignment.name?_eq_some_nameOf ⟨literal.var_pos, inside literal member⟩]
  rfl

theorem namedLiterals_literalFor {registry : Registry} {row : NamedClause}
    (known : ∀ named ∈ row, named.1 ∈ registry.names) (connective : Connective) :
    namedLiterals registry
      ⟨connective, row.map fun named => registry.literalFor named.1 named.2⟩ = row := by
  rw [namedLiterals, List.filterMap_map]
  refine (List.filterMap_congr fun named member => ?_).trans List.filterMap_some
  simp [Registry.literalFor, Registry.name?_idFor (known named member)]

theorem idFor_nameOf {registry : Registry} (distinct : registry.names.Nodup) {var : Nat}
    (known : 0 < var ∧ var ≤ registry.size) :
    registry.idFor (Assignment.nameOf registry var) = var :=
  Registry.idFor_of_name? distinct (Assignment.name?_eq_some_nameOf known)

theorem literalFor_nameOf {registry : Registry} (distinct : registry.names.Nodup)
    {literal : Literal} (inside : literal.var ≤ registry.size) :
    registry.literalFor (Assignment.nameOf registry literal.var) literal.polarity = literal := by
  have number := idFor_nameOf distinct ⟨literal.var_pos, inside⟩
  obtain ⟨var, polarity, positive⟩ := literal
  simp [Registry.literalFor, number]

/-- The names that occur are registered. -/
theorem NumberedFrom.mem_names {formula : Formula form} {rows : List NamedClause}
    (numbered : formula.NumberedFrom rows) {row : NamedClause} (member : row ∈ rows)
    {named : String × Bool} (inside : named ∈ row) : named.1 ∈ formula.registry.names := by
  rw [numbered.names_eq, List.mem_eraseDups]
  exact List.mem_map_of_mem (List.mem_flatten.mpr ⟨row, member, inside⟩)

/-- Nothing of the rows is lost in the formula. -/
theorem NumberedFrom.namedRows_eq {formula : Formula form} {rows : List NamedClause}
    (numbered : formula.NumberedFrom rows) : formula.namedRows = rows := by
  rw [namedRows, numbered.clauses_eq, List.map_map]
  refine (List.map_congr_left fun row member => ?_).trans (List.map_id rows)
  exact namedLiterals_literalFor (fun named inside => numbered.mem_names member inside) _

/-- A formula whose registry is in order is the one that its own rows build. -/
theorem WellFormed.numberedFrom_namedRows {formula : Formula form}
    (wellFormed : formula.WellFormed) (ordered : formula.InFirstSeenOrder) :
    formula.NumberedFrom formula.namedRows where
  names_eq := ordered
  clauses_eq := by
    rw [namedRows, List.map_map]
    refine (List.map_id _).symm.trans (List.map_congr_left fun clause member => ?_)
    have inside := wellFormed.var_le clause member
    have literals : clause.literals = (namedLiterals formula.registry clause).map
        fun named => formula.registry.literalFor named.1 named.2 := by
      rw [namedLiterals_eq_map inside, List.map_map]
      refine (List.map_id _).symm.trans (List.map_congr_left fun literal there => ?_)
      exact (literalFor_nameOf wellFormed.names_nodup (inside literal there)).symm
    rw [Function.comp_apply, ← literals, ← wellFormed.connective_eq clause member]
    rfl

theorem NumberedFrom.inFirstSeenOrder {formula : Formula form} {rows : List NamedClause}
    (numbered : formula.NumberedFrom rows) : formula.InFirstSeenOrder := by
  rw [InFirstSeenOrder, numbered.namedRows_eq]
  exact numbered.names_eq

end Formula

end ChronoSat
