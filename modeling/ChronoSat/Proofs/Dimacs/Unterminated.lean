/-
# Clause files without terminators

Where no zero ends a clause, the end of its line does, but only if a clause is open there. The
line of an empty clause is blank, so the clause is lost when the file is read. Nothing else is:
what is read is the formula that the file with zeros gives, without its empty clauses. As an
empty clause is one that nothing satisfies, an unsatisfiable formula may be read back as a
satisfiable one. The problem line still counts the clause that is lost, so there is a warning.
-/

import ChronoSat.Proofs.Dimacs.RoundTrip

namespace ChronoSat

namespace Formula

section Empty

variable {form : NormalForm} {formula : Formula form}

/-- The formula without its empty clauses. -/
def withoutEmpty (formula : Formula form) : Formula form :=
  { formula with clauses := formula.clauses.filter fun clause => !clause.isEmpty }

theorem WellFormed.withoutEmpty (wellFormed : formula.WellFormed) :
    formula.withoutEmpty.WellFormed :=
  wellFormed.of_subset (List.filter_subset_self _)

theorem hasEmptyClause_eq_false_iff :
    formula.hasEmptyClause = false ↔ ∀ clause ∈ formula.clauses, clause.isEmpty = false := by
  simp [hasEmptyClause]

theorem size_withoutEmpty_eq_iff :
    formula.withoutEmpty.size = formula.size ↔ formula.hasEmptyClause = false := by
  rw [size, withoutEmpty, size, List.length_filter_eq_length_iff, hasEmptyClause_eq_false_iff]
  simp

theorem withoutEmpty_eq_self_iff :
    formula.withoutEmpty = formula ↔ formula.hasEmptyClause = false := by
  constructor
  · intro same
    exact size_withoutEmpty_eq_iff.mp (congrArg size same)
  · intro allFull
    have kept : formula.clauses.filter (fun clause => !clause.isEmpty) = formula.clauses :=
      List.filter_eq_self.mpr fun clause member => by
        simp [hasEmptyClause_eq_false_iff.mp allFull clause member]
    rw [withoutEmpty, kept]

/-! ## Renumbering -/

theorem occurrences_withoutEmpty (formula : Formula form) :
    formula.withoutEmpty.occurrences = formula.occurrences := by
  rw [occurrences, occurrences, withoutEmpty]
  induction formula.clauses with
  | nil => rfl
  | cons clause rest ih =>
      by_cases blank : clause.literals = []
      · simpa [Clause.isEmpty, blank] using ih
      · simpa [Clause.isEmpty, blank] using ih

/-- Empty clauses have no variables, so numbers are given as if they were not there. -/
theorem renumbered_withoutEmpty (formula : Formula form) :
    formula.withoutEmpty.renumbered = formula.renumbered.withoutEmpty := by
  have names : formula.withoutEmpty.renumbered.registry.names =
      formula.renumbered.registry.names := by
    rw [names_renumbered, names_renumbered, occurrences_withoutEmpty]
  have registries : formula.withoutEmpty.renumbered.registry = formula.renumbered.registry :=
    congrArg Registry.mk names
  have renumber : formula.withoutEmpty.renumber = formula.renumber := by
    funext literal
    rw [Formula.renumber, registries, Formula.renumber]
  have clauses : formula.withoutEmpty.renumbered.clauses =
      formula.renumbered.withoutEmpty.clauses := by
    rw [clauses_renumbered, renumber, withoutEmpty, withoutEmpty, clauses_renumbered,
      List.filter_map]
    simp [Function.comp_def, Clause.isEmpty]
  exact congrArg₂ Formula.mk clauses registries

theorem hasEmptyClause_renumbered (formula : Formula form) :
    formula.renumbered.hasEmptyClause = formula.hasEmptyClause := by
  have isEmpty (clause : Clause) :
      Clause.isEmpty ⟨form.inner, clause.literals.map formula.renumber⟩ = clause.isEmpty :=
    List.isEmpty_map
  rw [hasEmptyClause, clauses_renumbered, List.any_map, hasEmptyClause]
  exact congrArg formula.clauses.any (funext isEmpty)

end Empty

/-! ## Satisfiability -/

theorem not_satisfiable_of_hasEmptyClause {formula : Cnf} (wellFormed : formula.WellFormed)
    (empty : formula.hasEmptyClause = true) : ¬formula.Satisfiable := by
  rintro ⟨assignment, made⟩
  obtain ⟨clause, member, blank⟩ := List.any_eq_true.mp empty
  have nil : clause.literals = [] := List.isEmpty_iff.mp blank
  exact Clauses.not_hold_of_nil_mem (nil ▸ List.mem_map_of_mem member)
    ((evaluate_iff_hold wellFormed assignment).mp made)

/-- Dropping the empty clauses makes a difference to satisfiability exactly if there are some
and the other clauses can be satisfied. -/
theorem satisfiable_withoutEmpty_iff {formula : Cnf} (wellFormed : formula.WellFormed) :
    (formula.withoutEmpty.Satisfiable ↔ formula.Satisfiable) ↔
      ¬(formula.hasEmptyClause = true ∧ formula.withoutEmpty.Satisfiable) := by
  cases empty : formula.hasEmptyClause with
  | false => simp [withoutEmpty_eq_self_iff.mpr empty]
  | true => simp [not_satisfiable_of_hasEmptyClause wellFormed empty]

end Formula

namespace Dimacs

variable {formula : Cnf}

/-- The line of a clause is one open run of integers, or blank. -/
theorem inOrder_clauseWords_none {clause : Clause} (announced : Prop)
    (fits : ∀ literal ∈ clause.literals, literal.var ≤ Literal.maxVar) :
    InOrder announced (clauseWords .none clause)
      (if clause.isEmpty then [] else [Formula.rowByNumber clause]) := by
  rw [clauseWords, Terminator.closing, List.append_nil]
  by_cases blank : clause.literals = []
  · simpa [Clause.isEmpty, blank] using InOrder.blank
  · have nonempty : clause.literals.map Literal.toInt ≠ [] := by simpa using blank
    have ordered : InOrder announced ((clause.literals.map Literal.toInt).map toString) _ :=
      .integers (map_readSigned_numerals (natAbs_lt_of_mem_map_toInt fits))
        (.last (zero_not_mem_map_toInt clause.literals) nonempty)
    rw [List.map_singleton, map_namedLiteral_toInt] at ordered
    simpa [Clause.isEmpty, blank] using ordered

/-- The file without terminators is read as the file with terminators is, apart from the empty
clauses. -/
theorem read_toUTF8_none (wellFormed : formula.WellFormed)
    (fits : formula.numVars ≤ Literal.maxVar) (sizeFits : formula.size ≤ Text.unsignedLimit)
    {text : String} (written : text.toList = fileText .none formula) :
    read text.toUTF8.toList = ⟨.ok formula.renumbered.withoutEmpty,
      countWarnings (some ⟨1, formula.numVars, formula.size⟩)
        formula.renumbered.withoutEmpty⟩ := by
  have ordered : ∀ clause ∈ formula.clauses, ∀ announced,
      InOrder announced (clauseWords .none clause)
        (if clause.isEmpty then [] else [Formula.rowByNumber clause]) :=
    fun clause member announced => inOrder_clauseWords_none announced fun literal inside =>
      Nat.le_trans (wellFormed.var_le clause member literal inside) fits
  have given : formula.withoutEmpty.rowsByNumber = formula.clauses.flatMap fun clause =>
      if clause.isEmpty then [] else [Formula.rowByNumber clause] := by
    rw [Formula.rowsByNumber, Formula.withoutEmpty]
    induction formula.clauses with
    | nil => rfl
    | cons clause rest ih => by_cases blank : clause.isEmpty <;> simp [blank, ih]
  have numerable := Formula.numerable_rowsByNumber wellFormed.withoutEmpty fits
  rw [given] at numerable
  rw [← Formula.renumbered_withoutEmpty, Formula.renumbered, given]
  exact read_fileText fits sizeFits ordered numerable written

/-- Both files of a formula and what is read from them. -/
theorem exists_readings (obtained : Obtainable formula)
    (sizeFits : formula.size ≤ Text.unsignedLimit) :
    ∃ ended bare warnings, write formula .zero = .ok ended ∧
      read ended.toUTF8.toList = ⟨.ok formula.renumbered, warnings⟩ ∧
      write formula .none = .ok bare ∧
      read bare.toUTF8.toList = ⟨.ok formula.renumbered.withoutEmpty,
        countWarnings (some ⟨1, formula.numVars, formula.size⟩)
          formula.renumbered.withoutEmpty⟩ := by
  have wellFormed := obtained.wellFormed
  have fits := obtained.numVars_le
  obtain ⟨ended, endedWritten, endedText⟩ := exists_write_eq_fileText wellFormed .zero
  obtain ⟨bare, bareWritten, bareText⟩ := exists_write_eq_fileText wellFormed .none
  exact ⟨ended, bare, _, endedWritten, read_toUTF8 wellFormed fits sizeFits endedText,
    bareWritten, read_toUTF8_none wellFormed fits sizeFits bareText⟩

/-- As many clauses come back as were written exactly if none is empty. -/
theorem size_kept_eq_iff (formula : Cnf) :
    formula.renumbered.withoutEmpty.size = formula.size ↔ formula.hasEmptyClause = false := by
  rw [← formula.size_renumbered, Formula.size_withoutEmpty_eq_iff,
    Formula.hasEmptyClause_renumbered]

/-- Writing clause files without terminators and reading them. A formula is written with and
without terminators and read from both files, and the second reading is the first without its
empty clauses. So the readings are the same, and as many clauses come back as were written,
exactly if the formula has no empty clause. Satisfiability comes back unless there is an empty
clause and the others can be satisfied. There is a warning if a clause is lost. -/
theorem read_write_unterminated (obtained : Obtainable formula)
    (sizeFits : formula.size ≤ Text.unsignedLimit) :
    ∃ ended bare whole kept warnings bareWarnings,
      write formula .zero = .ok ended ∧ read ended.toUTF8.toList = ⟨.ok whole, warnings⟩ ∧
      write formula .none = .ok bare ∧ read bare.toUTF8.toList = ⟨.ok kept, bareWarnings⟩ ∧
      kept = whole.withoutEmpty ∧
      (kept = whole ↔ formula.hasEmptyClause = false) ∧
      (kept.size = formula.size ↔ formula.hasEmptyClause = false) ∧
      ((kept.Satisfiable ↔ formula.Satisfiable) ↔
        ¬(formula.hasEmptyClause = true ∧ formula.withoutEmpty.Satisfiable)) ∧
      (formula.hasEmptyClause = true → bareWarnings ≠ []) := by
  have wellFormed := obtained.wellFormed
  obtain ⟨ended, bare, warnings, endedWritten, endedRead, bareWritten, bareRead⟩ :=
    exists_readings obtained sizeFits
  refine ⟨ended, bare, formula.renumbered, formula.renumbered.withoutEmpty, warnings, _,
    endedWritten, endedRead, bareWritten, bareRead, rfl, ?_, size_kept_eq_iff formula, ?_, ?_⟩
  · rw [Formula.withoutEmpty_eq_self_iff, Formula.hasEmptyClause_renumbered]
  · rw [← Formula.renumbered_withoutEmpty,
      Formula.satisfiable_renumbered_iff wellFormed.withoutEmpty,
      Formula.satisfiable_withoutEmpty_iff wellFormed]
  · intro lost
    have fewer : formula.size ≠ formula.renumbered.withoutEmpty.size := by
      intro same
      simp [(size_kept_eq_iff formula).mp same.symm] at lost
    simp [countWarnings, fewer]

/-- A clause of two literals comes back from either file. -/
theorem read_write_unterminated_twoLiterals :
    let formula : Cnf := .ofNamed [[("b", true), ("a", false)]]
    ∃ ended bare reread warnings bareWarnings,
      write formula .zero = .ok ended ∧ read ended.toUTF8.toList = ⟨.ok reread, warnings⟩ ∧
      write formula .none = .ok bare ∧ read bare.toUTF8.toList = ⟨.ok reread, bareWarnings⟩ := by
  intro formula
  obtain ⟨ended, bare, whole, kept, warnings, bareWarnings, endedWritten, endedRead, bareWritten,
    bareRead, _, same, _⟩ :=
    read_write_unterminated Formula.gathered_twoLiterals.obtainable (by decide)
  obtain rfl : kept = whole := same.mpr (by decide)
  exact ⟨ended, bare, kept, warnings, bareWarnings, endedWritten, endedRead, bareWritten,
    bareRead⟩

/-- A unit and an empty clause. -/
def unitAndEmpty : Cnf := .ofNamed [[("p1", true)], []]

theorem obtainable_unitAndEmpty : Obtainable unitAndEmpty :=
  .addClauses [["p1"], []] .empty rfl

/-- Of the unit and the empty clause, which cannot be satisfied together, the file without
terminators gives the unit, which can. -/
theorem read_write_unterminated_unitAndEmpty :
    Obtainable unitAndEmpty ∧ ∃ ended bare whole kept warnings bareWarnings,
      write unitAndEmpty .zero = .ok ended ∧ read ended.toUTF8.toList = ⟨.ok whole, warnings⟩ ∧
      write unitAndEmpty .none = .ok bare ∧ read bare.toUTF8.toList = ⟨.ok kept, bareWarnings⟩ ∧
      kept ≠ whole ∧ kept.size ≠ unitAndEmpty.size ∧ kept.Satisfiable ∧
      ¬unitAndEmpty.Satisfiable := by
  obtain ⟨ended, bare, warnings, endedWritten, endedRead, bareWritten, bareRead⟩ :=
    exists_readings obtainable_unitAndEmpty (by decide)
  have different : unitAndEmpty.renumbered.withoutEmpty ≠ unitAndEmpty.renumbered := by decide
  have fewer : unitAndEmpty.renumbered.withoutEmpty.size ≠ unitAndEmpty.size := by decide
  have made : unitAndEmpty.renumbered.withoutEmpty.Satisfiable :=
    ⟨⟨[none, some true]⟩, by decide⟩
  have unmade : ¬unitAndEmpty.Satisfiable :=
    Formula.not_satisfiable_of_hasEmptyClause obtainable_unitAndEmpty.wellFormed (by decide)
  exact ⟨obtainable_unitAndEmpty, ended, bare, _, _, warnings, _, endedWritten, endedRead,
    bareWritten, bareRead, different, fewer, made, unmade⟩

end Dimacs

end ChronoSat
