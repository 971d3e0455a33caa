/-
# Appending by name

What is appended are the rows that another formula stands for, so appending is a matter of rows:
the longer formula stands for the rows of the one with those of the other behind them. What can
be said of a formula by its rows alone can then be said of the longer one, whatever numbers the
names have in either registry and whatever names are registered without being used.

Its clauses are written by their rows, and so they are written as they were. Rows may be appended
in any grouping. Values that belong to names make the rows true or not, so an appended formula is
true if its parts are. And a row is what the texts of its literals spell, so that adding these
texts clause by clause does the same, also in place, down to the fault of running out of numbers.

Appending comes to a fault exactly if the names of the one formula and those used by the other are
more than there are numbers.
-/

import ChronoSat.Proofs.Formula.Editing
import ChronoSat.Proofs.Formula.Evaluation
import ChronoSat.Proofs.Infix.RoundTrip

namespace ChronoSat

variable {form : NormalForm}

/-! ## Truth by name -/

/-- What a connective makes of truth values. -/
def Connective.truth : Connective → List Bool → Bool
  | conj, parts => parts.all id
  | disj, parts => parts.any id

theorem Connective.truth_append (connective : Connective) (front back : List Bool) :
    connective.truth (front ++ back) =
      connective.truth [connective.truth front, connective.truth back] := by
  cases connective <;> simp [truth]

/-- Whether rows of named literals are true: the literals of a row are joined by the connective of
the clauses, and the rows by the other. -/
def NamedClause.truth (form : NormalForm) (values : String → Option Bool)
    (rows : List NamedClause) : Bool :=
  form.outer.truth <| rows.map fun row =>
    form.inner.truth <| row.map fun named => values named.1 == some named.2

theorem Clause.evaluate_eq_truth (clause : Clause) (assignment : Assignment) :
    clause.evaluate assignment =
      clause.connective.truth (clause.literals.map (holdsIn assignment)) := by
  rw [evaluate]
  cases clause.connective <;> simp [Connective.truth]

namespace Formula

variable {formula other third : Formula form}

theorem valueIn_eq_truth (formula : Formula form) (assignment : Assignment) :
    formula.valueIn assignment =
      form.outer.truth (formula.clauses.map fun clause => clause.evaluate assignment) := by
  cases form <;> simp [valueIn, evaluate, Connective.truth, NormalForm.outer]

/-- Values of names make a formula as true as the rows that it stands for. -/
theorem WellFormed.valueIn_through (wellFormed : formula.WellFormed)
    (values : String → Option Bool) :
    formula.valueIn (.through formula.registry values) =
      NamedClause.truth form values formula.namedRows := by
  rw [valueIn_eq_truth, NamedClause.truth, namedRows, List.map_map]
  refine congrArg _ (List.map_congr_left fun clause member => ?_)
  have inside := wellFormed.var_le clause member
  rw [Clause.evaluate_eq_truth, wellFormed.connective_eq clause member, Function.comp_apply,
    namedLiterals_eq_map inside, List.map_map]
  refine congrArg _ (List.map_congr_left fun literal there => ?_)
  have value := Assignment.value?_through values
    (Assignment.name?_eq_some_nameOf ⟨literal.var_pos, inside literal there⟩)
  rw [Bool.eq_iff_iff, Clause.holdsIn_iff, value, Function.comp_apply, beq_iff_eq]

/-! ## Rows behind rows -/

/-- A name is found in a longer registry under the number that it had. -/
theorem namedLiterals_of_grown {registry longer : Registry}
    (grown : registry.names <+: longer.names) {clause : Clause}
    (inside : ∀ literal ∈ clause.literals, literal.var ≤ registry.size) :
    namedLiterals longer clause = namedLiterals registry clause := by
  obtain ⟨added, same⟩ := grown
  refine List.filterMap_congr fun literal member => ?_
  obtain ⟨name, named⟩ := Registry.exists_name?_iff.mpr ⟨literal.var_pos, inside literal member⟩
  obtain ⟨positive, there⟩ := Registry.name?_eq_some_iff.mp named
  have kept : longer.names[literal.var - 1]? = some name := by
    rw [← same, List.getElem?_append_left (List.getElem?_eq_some_iff.mp there).1, there]
  rw [named, Registry.name?_eq_some_iff.mpr ⟨positive, kept⟩]

theorem clauses_withRows (formula : Formula form) (rows : List NamedClause) :
    (formula.withRows rows).clauses = formula.clauses ++ rows.map fun row =>
      ⟨form.inner, row.map fun named =>
        (formula.withRows rows).registry.literalFor named.1 named.2⟩ := by
  show formula.clauses ++ (formula.registry.numberRows rows).1.map _ = _
  rw [Registry.fst_numberRows List.prefix_rfl, List.map_map]
  rfl

/-- A formula with rows added stands for its own rows and those behind them. -/
theorem WellFormed.namedRows_withRows (wellFormed : formula.WellFormed) (rows : List NamedClause) :
    (formula.withRows rows).namedRows = formula.namedRows ++ rows := by
  have names : (formula.withRows rows).registry.names =
      (formula.registry.names ++ rows.flatten.map Prod.fst).eraseDups :=
    Registry.names_numberRows wellFormed.names_nodup rows
  rw [namedRows, clauses_withRows, List.map_append]
  congr 1
  · exact List.map_congr_left fun clause member =>
      namedLiterals_of_grown (names_prefix_withRows formula rows) (wellFormed.var_le clause member)
  · rw [List.map_map]
    refine (List.map_congr_left fun row member => ?_).trans (List.map_id rows)
    refine namedLiterals_literalFor (fun named inside => ?_) form.inner
    rw [names, List.mem_eraseDups]
    exact List.mem_append_right _
      (List.mem_map_of_mem (List.mem_flatten.mpr ⟨row, member, inside⟩))

/-- Appending is appending rows, as long as there are numbers for their names. -/
theorem append_eq_limited (fits : formula.numVars ≤ Literal.maxVar) (other : Formula form) :
    formula.append other =
      Registry.limited (formula.withRows other.namedRows).numVars
        (formula.withRows other.namedRows) :=
  append_eq fits other

/-- Numbers run out if the names of both formulas are too many. -/
theorem append_eq_error_iff (obtained : Obtainable formula) {fault : Fault} :
    formula.append other = .error fault ↔ fault = .registryFull ∧
      Literal.maxVar <
        (formula.registry.names ++ other.namedRows.flatten.map Prod.fst).eraseDups.length := by
  have names := Registry.names_numberRows obtained.wellFormed.names_nodup other.namedRows
  rw [append_eq_limited obtained.numVars_le, Registry.limited_eq_error_iff, ← names, and_comm]
  rfl

/-- Appending is appending rows, and these can be grouped in any way. -/
theorem append_assoc (fits : formula.numVars ≤ Literal.maxVar) (otherObtained : Obtainable other)
    {joined : Formula form} (appended : other.append third = .ok joined) :
    (formula.append other >>= fun longer => longer.append third) = formula.append joined := by
  have rows : joined.namedRows = other.namedRows ++ third.namedRows := by
    obtain ⟨_, rfl⟩ := (append_eq_ok_iff otherObtained.numVars_le).mp appended
    exact otherObtained.wellFormed.namedRows_withRows _
  have grows := (names_prefix_withRows (formula.withRows other.namedRows) third.namedRows).length_le
  rw [append_eq_limited fits, append_eq_limited fits joined, rows, withRows_append]
  exact Registry.limited_bind grows fun room => append_eq_limited room third

/-- The clauses that are appended are written as they were, and so are those they are appended
to. -/
theorem WellFormed.map_render_withRows (wellFormed : formula.WellFormed)
    (otherWellFormed : other.WellFormed) :
    (formula.withRows other.namedRows).clauses.map
        (fun clause => clause.render (formula.withRows other.namedRows).registry) =
      formula.clauses.map (fun clause => clause.render formula.registry) ++
        other.clauses.map (fun clause => clause.render other.registry) := by
  rw [(wellFormed.withRows _).map_render_eq, wellFormed.namedRows_withRows, List.map_append,
    wellFormed.map_render_eq, otherWellFormed.map_render_eq]

/-- A formula with the rows of another is as true as its parts. -/
theorem WellFormed.valueIn_withRows (wellFormed : formula.WellFormed)
    (otherWellFormed : other.WellFormed) (values : String → Option Bool) :
    (formula.withRows other.namedRows).valueIn
        (.through (formula.withRows other.namedRows).registry values) =
      form.outer.truth [formula.valueIn (.through formula.registry values),
        other.valueIn (.through other.registry values)] := by
  rw [(wellFormed.withRows _).valueIn_through, wellFormed.namedRows_withRows,
    wellFormed.valueIn_through, otherWellFormed.valueIn_through, NamedClause.truth,
    List.map_append, Connective.truth_append]
  rfl

/-! ## Texts of literals -/

/-- A row is what the texts of its literals spell. -/
theorem spells_spelled {row : NamedClause} (spellable : row.Spellable) :
    Infix.Spells (Infix.spelled row) row := by
  rw [Infix.Spells, Infix.spelled, List.map_map]
  exact List.map_congr_left fun named member =>
    Literal.split?_spell (spellable named member) named.2

/-- Adding the texts of rows clause by clause is adding the rows. -/
theorem foldlM_addClause (fits : formula.numVars ≤ Literal.maxVar) {rows : List NamedClause}
    (spellable : ∀ row ∈ rows, row.Spellable) :
    (rows.map Infix.spelled).foldlM addClause formula =
      (Registry.limited (formula.withRows rows).numVars (formula.withRows rows)).mapError
        .fault := by
  induction rows generalizing formula with
  | nil =>
      rw [withRows_nil, Registry.limited_of_le fits]
      rfl
  | cons row rest ih =>
      obtain ⟨rowSpellable, others⟩ := List.forall_mem_cons.mp spellable
      have added : formula.addClause (Infix.spelled row) =
          (formula.addNamed row).mapError .fault := by
        rw [addClause, readLiteral_mapM_eq_ok_iff.mpr (spells_spelled rowSpellable)]
        rfl
      rw [List.map_cons, List.foldlM_cons, added, addNamed_eq fits, withRows_cons]
      by_cases room : (formula.withRow row).numVars ≤ Literal.maxVar
      · rw [Registry.limited_of_le room]
        exact ih room others
      · -- The names that are too many already are not fewer with the rest.
        have exceeds : Literal.maxVar < ((formula.withRow row).withRows rest).numVars :=
          Nat.lt_of_lt_of_le (Nat.lt_of_not_le room)
            (names_prefix_withRows (formula.withRow row) rest).length_le
        rw [Registry.limited_eq_error_iff.mpr ⟨Nat.lt_of_not_le room, rfl⟩,
          Registry.limited_eq_error_iff.mpr ⟨exceeds, rfl⟩]
        rfl

/-- In place, too, the texts of a row are entered as the row is. -/
theorem draft_addClause_spelled {row : NamedClause} (spellable : row.Spellable) :
    Draft.addClause form (Infix.spelled row) = Draft.pushMade form (row.mapM Ledger.enter) := by
  have none : (Infix.spelled row).find? (fun text => (Literal.split? text).isNone) = none := by
    refine List.find?_eq_none.mpr fun text member => ?_
    obtain ⟨named, inside, rfl⟩ := List.mem_map.mp member
    rw [Literal.split?_spell (spellable named inside)]
    exact Bool.false_ne_true
  rw [Draft.addClause, none, Registry.mapM_intern (spells_spelled spellable)]

theorem draft_append_eq_forM (spellable : other.registry.Spellable) :
    Draft.append other = (other.namedRows.map Infix.spelled).forM (Draft.addClause form) := by
  have rows := spellable_namedRows spellable
  rw [Draft.append]
  rw [namedRows] at rows ⊢
  -- Only the clauses get fewer. They are written with the registry of the whole formula.
  generalize other.clauses = clauses at rows ⊢
  induction clauses with
  | nil => rfl
  | cons clause rest ih =>
      obtain ⟨rowSpellable, others⟩ := List.forall_mem_cons.mp rows
      rw [List.map_cons, List.map_cons, List.forM, List.forM,
        draft_addClause_spelled rowSpellable, ih others]

/-- The texts of the literals of a formula are those of its rows. -/
theorem WellFormed.mapM_render_eq_ok (wellFormed : formula.WellFormed) :
    formula.clauses.mapM (fun clause => clause.literals.mapM formula.registry.render) =
      .ok (formula.namedRows.map Infix.spelled) := by
  rw [namedRows, List.map_map]
  refine Outcomes.mapM_eq_ok fun clause member => ?_
  have inside := wellFormed.var_le clause member
  rw [Function.comp_apply, namedLiterals_eq_map inside, Infix.spelled, List.map_map]
  refine Outcomes.mapM_eq_ok fun literal there => ?_
  rw [Registry.render_eq_ok (inside literal there)]
  rfl

/-! ## Concatenation -/

/-- Appending is concatenation by name. It is a fault exactly if the names of the one formula and
those of the literals of the other are more than there are numbers. Otherwise the names that the
formula has come first in the registry and keep their numbers, its clauses come first and stay as
they are, and those behind them are written as they were in the formula that they come from. And if
truth values belong to names, the longer formula is true if both parts are, or one part is if the
form is disjunctive. The same is reached by writing every literal of the other formula and adding
the texts clause by clause, also if the formula is edited in place. Three formulas can be appended
in either grouping. -/
theorem append_by_name (obtained : Obtainable formula) (otherObtained : Obtainable other) :
    (∀ fault, formula.append other = .error fault ↔ fault = .registryFull ∧
      Literal.maxVar <
        (formula.registry.names ++ other.namedRows.flatten.map Prod.fst).eraseDups.length) ∧
    (∀ longer, formula.append other = .ok longer →
      formula.registry.names <+: longer.registry.names ∧
      (∀ name var, formula.registry.id? name = some var → longer.registry.id? name = some var) ∧
      (∃ added, longer.clauses = formula.clauses ++ added ∧
        added.map (fun clause => clause.render longer.registry) =
          other.clauses.map fun clause => clause.render other.registry) ∧
      ∀ values : String → Option Bool,
        longer.valueIn (.through longer.registry values) =
          form.outer.truth [formula.valueIn (.through formula.registry values),
            other.valueIn (.through other.registry values)]) ∧
    (∃ texts, other.clauses.mapM (fun clause => clause.literals.mapM other.registry.render) =
        .ok texts ∧
      texts.foldlM addClause formula = (formula.append other).mapError .fault ∧
      Draft.append other = texts.forM (Draft.addClause form)) ∧
    ∀ third joined : Formula form, other.append third = .ok joined →
      (formula.append other >>= fun longer => longer.append third) = formula.append joined := by
  have wellFormed := obtained.wellFormed
  have otherWellFormed := otherObtained.wellFormed
  have fits := obtained.numVars_le
  refine ⟨fun fault => append_eq_error_iff obtained, fun longer appended => ?_, ?_,
    fun third joined => append_assoc fits otherObtained⟩
  · obtain ⟨_, rfl⟩ := Registry.limited_eq_ok_iff.mp
      ((append_eq_limited fits other).symm.trans appended)
    have grown := names_prefix_withRows formula other.namedRows
    have clauses := clauses_withRows formula other.namedRows
    have written := wellFormed.map_render_withRows otherWellFormed
    rw [clauses, List.map_append] at written
    exact ⟨grown, fun name var found => Registry.id?_of_grown grown found,
      ⟨_, clauses, (List.append_inj written (by simp)).2⟩,
      wellFormed.valueIn_withRows otherWellFormed⟩
  · have spellable := otherObtained.spellable
    refine ⟨_, otherWellFormed.mapM_render_eq_ok, ?_, draft_append_eq_forM spellable⟩
    rw [append_eq_limited fits, foldlM_addClause fits (spellable_namedRows spellable)]

/-- A formula reduced to one clause, with the name of a variable left that occurs no more. -/
def withUnusedName : Cnf :=
  let names : Registry := ⟨["c", "a", "b"]⟩
  ⟨[⟨.disj, [names.literalFor "a" true, names.literalFor "b" false]⟩], names⟩

theorem obtainable_withUnusedName : Obtainable withUnusedName := by
  have whole : Obtainable (.ofNamed [[("c", true)], [("a", true), ("b", false)]] : Cnf) :=
    .addClauses [["c"], ["a", "¬b"]] .empty rfl
  exact @Obtainable.reduce _ _ ⟨[none, some true]⟩ whole (by decide)

/-- The clause comes in under the numbers that its names have, and the unused name does not. -/
theorem append_by_name_withUnusedName :
    let formula : Cnf := .ofNamed [[("b", true), ("a", false)]]
    ∃ longer : Cnf, formula.append withUnusedName = .ok longer ∧
      longer.registry = ⟨["b", "a"]⟩ ∧
      (∃ added, longer.clauses = formula.clauses ++ added ∧
        added.map (fun clause => clause.render longer.registry) = ["(a v ¬b)"]) ∧
      longer.registry.id? "a" = some 2 := by
  intro formula
  obtain ⟨_, named, _⟩ := append_by_name gathered_twoLiterals.obtainable obtainable_withUnusedName
  have appended : formula.append withUnusedName = .ok (formula.withRows withUnusedName.namedRows) :=
    rfl
  obtain ⟨_, kept, ⟨added, clauses, written⟩, _⟩ := named _ appended
  exact ⟨_, appended, by decide, ⟨added, clauses, written.trans (by decide)⟩,
    kept "a" 2 (by decide)⟩

end Formula

end ChronoSat
