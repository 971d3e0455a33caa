/-
# Variables named after their numbers

Writing a formula by its numbers loses the names, and reading numbers back makes new names
of them and numbers these as they come. The formula that comes out has the same clauses up
to a renaming of the variables, which keeps apart what was apart. Registered variables that
do not occur get lost on the way. If the numbers occur in ascending order to begin with, the
renaming changes none of them.
-/

import ChronoSat.Proofs.Formula.Evaluation
import ChronoSat.Proofs.Formula.Numbering
import ChronoSat.Proofs.Text.Numeral

namespace ChronoSat.Formula

variable {form : NormalForm} {formula : Formula form}

/-! ## Rows by number -/

/-- The name that is made of a number. -/
def numberedName (var : Nat) : String := "p" ++ toString var

theorem numberedName_inj {first second : Nat} :
    numberedName first = numberedName second ↔ first = second := by
  constructor
  · intro same
    have spelled := congrArg String.toList same
    simp only [numberedName, String.toList_append, List.append_cancel_left_eq,
      String.toList_inj] at spelled
    have read := Text.readDigits_toString first
    rw [spelled, Text.readDigits_toString] at read
    exact (Option.some.inj read).symm
  · rintro rfl
    rfl

/-- The variables of the literals, clause after clause. -/
def occurrences (formula : Formula form) : List Nat :=
  formula.clauses.flatMap fun clause => clause.literals.map Literal.var

theorem mem_occurrences {var : Nat} :
    var ∈ formula.occurrences ↔
      ∃ clause ∈ formula.clauses, ∃ literal ∈ clause.literals, literal.var = var := by
  simp [occurrences]

/-- Rows that name the literals of the clauses name the occurrences. -/
theorem map_fst_flatten {row : Clause → NamedClause} {name : Nat → String}
    (each : ∀ clause ∈ formula.clauses,
      (row clause).map Prod.fst = (clause.literals.map Literal.var).map name) :
    (formula.clauses.map row).flatten.map Prod.fst = formula.occurrences.map name := by
  rw [occurrences, List.flatMap, List.map_flatten, List.map_flatten, List.map_map, List.map_map]
  exact congrArg List.flatten (List.map_congr_left each)

/-- A clause, every variable under a name made of its number. -/
def rowByNumber (clause : Clause) : NamedClause :=
  clause.literals.map fun literal => (numberedName literal.var, literal.polarity)

/-- The clauses of a formula as rows by number. -/
def rowsByNumber (formula : Formula form) : List NamedClause :=
  formula.clauses.map rowByNumber

/-- The formula of the rows by number. -/
def renumbered (formula : Formula form) : Formula form :=
  ofNamed formula.rowsByNumber

/-- What becomes of a literal. -/
def renumber (formula : Formula form) (literal : Literal) : Literal :=
  formula.renumbered.registry.literalFor (numberedName literal.var) literal.polarity

theorem clauses_renumbered (formula : Formula form) :
    formula.renumbered.clauses =
      formula.clauses.map fun clause => ⟨form.inner, clause.literals.map formula.renumber⟩ := by
  rw [renumbered, (numberedFrom_ofNamed _).clauses_eq, rowsByNumber, List.map_map]
  refine List.map_congr_left fun clause _ => ?_
  rw [Function.comp_apply, rowByNumber, List.map_map]
  rfl

theorem size_renumbered (formula : Formula form) : formula.renumbered.size = formula.size := by
  rw [size, clauses_renumbered, List.length_map, size]

/-- The names are made of the numbers that occur, in the order in which they occur first. -/
theorem names_renumbered (formula : Formula form) :
    formula.renumbered.registry.names = formula.occurrences.eraseDups.map numberedName := by
  have rows : formula.rowsByNumber.flatten.map Prod.fst =
      formula.occurrences.map numberedName :=
    map_fst_flatten fun clause _ => by simp [rowByNumber]
  rw [renumbered, (numberedFrom_ofNamed _).names_eq, rows]
  exact Occurrences.eraseDups_map fun _ _ _ _ => numberedName_inj.mp

theorem name?_renumber {clause : Clause} (member : clause ∈ formula.clauses) {literal : Literal}
    (inside : literal ∈ clause.literals) :
    formula.renumbered.registry.name? (formula.renumber literal).var =
      some (numberedName literal.var) := by
  apply Registry.name?_idFor
  rw [names_renumbered]
  apply List.mem_map_of_mem
  rw [List.mem_eraseDups, mem_occurrences]
  exact ⟨clause, member, literal, inside, rfl⟩

/-! ## Numbers that stay -/

theorem mem_vars_iff {registry : Registry} {var : Nat} :
    var ∈ registry.vars ↔ 0 < var ∧ var ≤ registry.size := by
  rw [Registry.vars, List.mem_range'_1]
  omega

/-- Variables that occur are registered. -/
theorem WellFormed.occurrences_subset (wellFormed : formula.WellFormed) :
    formula.occurrences ⊆ formula.registry.vars := by
  intro var member
  obtain ⟨clause, there, literal, inside, rfl⟩ := mem_occurrences.mp member
  exact mem_vars_iff.mpr ⟨literal.var_pos, wellFormed.var_le clause there literal inside⟩

/-- In a registry in order the numbers occur first in ascending order. -/
theorem eraseDups_occurrences (wellFormed : formula.WellFormed)
    (ordered : formula.InFirstSeenOrder) :
    formula.occurrences.eraseDups = formula.registry.vars := by
  have number {var : Nat} (known : var ∈ formula.registry.vars) :
      formula.registry.idFor (Assignment.nameOf formula.registry var) = var :=
    idFor_nameOf wellFormed.names_nodup (mem_vars_iff.mp known)
  have numbers {vars : List Nat} (known : vars ⊆ formula.registry.vars) :
      (vars.map (Assignment.nameOf formula.registry)).map formula.registry.idFor = vars := by
    rw [List.map_map]
    exact (List.map_congr_left fun var member => number (known member)).trans (List.map_id vars)
  have apart : ∀ first ∈ formula.occurrences, ∀ second ∈ formula.occurrences,
      Assignment.nameOf formula.registry first = Assignment.nameOf formula.registry second →
        first = second := by
    intro first inFirst second inSecond same
    rw [← number (wellFormed.occurrences_subset inFirst), same,
      number (wellFormed.occurrences_subset inSecond)]
  have rows : formula.namedRows.flatten.map Prod.fst =
      formula.occurrences.map (Assignment.nameOf formula.registry) :=
    map_fst_flatten fun clause member => by
      simp [namedLiterals_eq_map (wellFormed.var_le clause member)]
  have names : formula.occurrences.eraseDups.map (Assignment.nameOf formula.registry) =
      formula.registry.vars.map (Assignment.nameOf formula.registry) := by
    rw [Registry.vars, Assignment.map_nameOf_range', ordered, rows,
      Occurrences.eraseDups_map apart]
  have occurring : formula.occurrences.eraseDups ⊆ formula.registry.vars :=
    fun var member => wellFormed.occurrences_subset (List.mem_eraseDups.mp member)
  rw [← numbers occurring, names, numbers (List.Subset.refl _)]

/-- The renaming changes nothing if the registry is in order. -/
theorem clauses_renumbered_of_inFirstSeenOrder (wellFormed : formula.WellFormed)
    (ordered : formula.InFirstSeenOrder) : formula.renumbered.clauses = formula.clauses := by
  have distinct : formula.renumbered.registry.names.Nodup :=
    (wellFormed_ofNamed formula.rowsByNumber).names_nodup
  rw [clauses_renumbered]
  refine (List.map_congr_left fun clause member => ?_).trans (List.map_id formula.clauses)
  have literals : clause.literals.map formula.renumber = clause.literals := by
    refine (List.map_congr_left fun literal inside => ?_).trans (List.map_id clause.literals)
    have bound : literal.var - 1 < formula.registry.size := by
      have := wellFormed.var_le clause member literal inside
      have := literal.var_pos
      unfold numVars at *
      omega
    have named : formula.renumbered.registry.name? literal.var =
        some (numberedName literal.var) := by
      rw [Registry.name?_eq_some_iff, names_renumbered, eraseDups_occurrences wellFormed ordered,
        Registry.vars, List.getElem?_map, List.getElem?_range' bound]
      exact ⟨literal.var_pos, by simp [Nat.add_sub_cancel' literal.var_pos]⟩
    have number := Registry.idFor_of_name? distinct named
    obtain ⟨var, polarity, positive⟩ := literal
    simp [renumber, Registry.literalFor, number]
  rw [literals, ← wellFormed.connective_eq clause member]
  rfl

/-! ## Numbers that get lost -/

theorem numVars_renumbered (formula : Formula form) :
    formula.renumbered.numVars = formula.occurrences.eraseDups.length := by
  rw [numVars, Registry.size, names_renumbered, List.length_map]

theorem numVars_eq_length_vars (formula : Formula form) :
    formula.numVars = formula.registry.vars.length := by
  simp [Registry.vars, numVars]

theorem WellFormed.eraseDups_occurrences_subperm (wellFormed : formula.WellFormed) :
    formula.occurrences.eraseDups.Subperm formula.registry.vars :=
  (Occurrences.nodup_eraseDups _).subperm fun _ member =>
    wellFormed.occurrences_subset (List.mem_eraseDups.mp member)

theorem numVars_renumbered_le (wellFormed : formula.WellFormed) :
    formula.renumbered.numVars ≤ formula.numVars := by
  rw [numVars_renumbered, numVars_eq_length_vars]
  exact wellFormed.eraseDups_occurrences_subperm.length_le

/-- There are numbers for the rows by number. -/
theorem numerable_rowsByNumber (wellFormed : formula.WellFormed)
    (fits : formula.numVars ≤ Literal.maxVar) : Numerable formula.rowsByNumber :=
  numVars_ofNamed_le_iff.mp (Nat.le_trans (numVars_renumbered_le wellFormed) fits)

/-- As many variables are registered as before exactly if all of them occur. -/
theorem numVars_renumbered_eq_iff (wellFormed : formula.WellFormed) :
    formula.renumbered.numVars = formula.numVars ↔
      ∀ var ∈ formula.registry.vars, var ∈ formula.occurrences := by
  have occurring := wellFormed.eraseDups_occurrences_subperm
  rw [numVars_renumbered, numVars_eq_length_vars]
  constructor
  · intro same var registered
    have all := occurring.perm_of_length_le same.ge
    exact List.mem_eraseDups.mp (all.mem_iff.mpr registered)
  · intro all
    have distinct : formula.registry.vars.Nodup := List.nodup_range'
    have others : formula.registry.vars.Subperm formula.occurrences.eraseDups :=
      distinct.subperm fun var member => List.mem_eraseDups.mpr (all var member)
    exact Nat.le_antisymm occurring.length_le others.length_le

/-! ## Satisfiability -/

/-- Literals that are replaced by others of the same truth leave clauses as true as they were. -/
theorem hold_map_iff {values others : Nat → Option Bool} {clauses : List (List Literal)}
    (f : Literal → Literal)
    (same : ∀ clause ∈ clauses, ∀ literal ∈ clause,
      values (f literal).var = others literal.var ∧ (f literal).polarity = literal.polarity) :
    Clauses.Hold values (clauses.map (List.map f)) ↔ Clauses.Hold others clauses := by
  rw [Clauses.Hold, List.forall_mem_map]
  refine forall₂_congr fun clause member => ?_
  constructor
  · rintro ⟨_, inside, made⟩
    obtain ⟨literal, there, rfl⟩ := List.mem_map.mp inside
    obtain ⟨value, polarity⟩ := same clause member literal there
    exact ⟨literal, there, by rw [← value, made, polarity]⟩
  · rintro ⟨literal, there, made⟩
    obtain ⟨value, polarity⟩ := same clause member literal there
    exact ⟨f literal, List.mem_map_of_mem there, by rw [value, made, polarity]⟩

/-- An assignment can have any values up to a largest number. -/
theorem exists_value?_eq (values : Nat → Option Bool) (numVars : Nat) :
    ∃ assignment : Assignment, ∀ var ≤ numVars, assignment.value? var = values var := by
  refine ⟨⟨(List.range (numVars + 1)).map values⟩, fun var inside => ?_⟩
  simp [Assignment.value?, List.getElem?_range (Nat.lt_succ_of_le inside)]

/-- A formula is satisfiable if any values make its clauses hold, assignment or not. -/
theorem satisfiable_iff_exists_hold {formula : Cnf} (wellFormed : formula.WellFormed) :
    formula.Satisfiable ↔
      ∃ values, Clauses.Hold values (formula.clauses.map Clause.literals) := by
  constructor
  · rintro ⟨assignment, made⟩
    exact ⟨assignment.value?, (evaluate_iff_hold wellFormed assignment).mp made⟩
  · rintro ⟨values, hold⟩
    obtain ⟨assignment, agrees⟩ := exists_value?_eq values formula.numVars
    refine ⟨assignment, (evaluate_iff_hold wellFormed assignment).mpr ?_⟩
    rw [← List.map_id (formula.clauses.map Clause.literals), ← List.map_id_fun]
    refine (hold_map_iff id fun literals member literal inside => ⟨?_, rfl⟩).mpr hold
    obtain ⟨clause, there, rfl⟩ := List.mem_map.mp member
    exact agrees literal.var (wellFormed.var_le clause there literal inside)

/-- Renaming the variables makes no difference to satisfiability. -/
theorem satisfiable_renumbered_iff {formula : Cnf} (wellFormed : formula.WellFormed) :
    formula.renumbered.Satisfiable ↔ formula.Satisfiable := by
  have clauses : formula.renumbered.clauses.map Clause.literals =
      (formula.clauses.map Clause.literals).map (List.map formula.renumber) := by
    rw [clauses_renumbered, List.map_map, List.map_map]
    rfl
  have renumberedWellFormed : formula.renumbered.WellFormed := wellFormed_ofNamed _
  rw [satisfiable_iff_exists_hold wellFormed, satisfiable_iff_exists_hold renumberedWellFormed,
    clauses]
  constructor
  · rintro ⟨values, hold⟩
    refine ⟨fun var => values (formula.renumbered.registry.idFor (numberedName var)), ?_⟩
    exact (hold_map_iff formula.renumber fun _ _ _ _ => ⟨rfl, rfl⟩).mp hold
  · rintro ⟨values, hold⟩
    refine ⟨fun number => values (formula.occurrences.eraseDups.getD (number - 1) 0), ?_⟩
    refine (hold_map_iff formula.renumber
      fun literals member literal inside => ⟨?_, rfl⟩).mpr hold
    obtain ⟨clause, there, rfl⟩ := List.mem_map.mp member
    have named := (Registry.name?_eq_some_iff.mp (name?_renumber there inside)).2
    rw [names_renumbered, List.getElem?_map, Option.map_eq_some_iff] at named
    obtain ⟨var, found, same⟩ := named
    rw [List.getD_eq_getElem?_getD, found, Option.getD_some, numberedName_inj.mp same]

end ChronoSat.Formula
