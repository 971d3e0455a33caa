/-
# Formulas that can be obtained

A formula is built by reading text, reading a clause file, drawing at random,
distributing a disjunctive one, and by adding, dropping and reducing clauses.
Every history of these operations ends in a well-formed formula: names are
distinct, every literal is over a registered variable, and every clause has the
connective of the formula's form. An operation that would need a number beyond the
last one that a literal can be made of gives no formula, so there are never more
variables than that.
-/

import ChronoSat.Cnf.Distribution
import ChronoSat.Cnf.Reduction
import ChronoSat.Cnf.Sampling
import ChronoSat.Dimacs.Reader
import ChronoSat.Infix.Reader
import ChronoSat.Proofs.Formula.Rows
import ChronoSat.Proofs.Outcomes

namespace ChronoSat

variable {form : NormalForm}

/-- What every operation on formulas may count on. -/
structure Formula.WellFormed (formula : Formula form) : Prop where
  /-- No name is registered twice. -/
  names_nodup : formula.registry.names.Nodup
  /-- The literals are over registered variables. -/
  var_le : ∀ clause ∈ formula.clauses, ∀ literal ∈ clause.literals, literal.var ≤ formula.numVars
  /-- The literals of a clause are joined as the form says. -/
  connective_eq : ∀ clause ∈ formula.clauses, clause.connective = form.inner

/-- A formula that some history of operations ends in. -/
inductive Obtainable : {form : NormalForm} → Formula form → Prop
  /-- A formula without clauses and names. -/
  | empty {form : NormalForm} : Obtainable (Formula.empty : Formula form)
  /-- Text is read. -/
  | parse {form : NormalForm} {text : String} {formula : Formula form}
      (read : Formula.parse text = .ok formula) : Obtainable formula
  /-- A clause is added by name. -/
  | addClause {form : NormalForm} {formula longer : Formula form} {texts : List String}
      (before : Obtainable formula) (added : formula.addClause texts = .ok longer) :
      Obtainable longer
  /-- A clause is added by literal. -/
  | pushClause {form : NormalForm} {formula longer : Formula form} {clause : Clause}
      (before : Obtainable formula) (pushed : formula.pushClause clause = .ok longer) :
      Obtainable longer
  /-- The clauses of another formula are added. -/
  | append {form : NormalForm} {formula other longer : Formula form}
      (before : Obtainable formula) (added : Obtainable other)
      (appended : formula.append other = .ok longer) : Obtainable longer
  /-- Repeated clauses are dropped. -/
  | simplify {form : NormalForm} {formula : Formula form} (before : Obtainable formula) :
      Obtainable formula.simplify
  /-- An assignment is applied. -/
  | reduce {formula reduced : Cnf} {assignment : Assignment} (before : Obtainable formula)
      (applied : formula.reduce assignment = .ok reduced) : Obtainable reduced
  /-- A disjunctive formula is distributed. -/
  | distribute {formula : Dnf} (before : Obtainable formula) : Obtainable formula.distribute
  /-- A clause file is read. -/
  | readDimacs {bytes : List UInt8} {formula : Cnf}
      (read : (Dimacs.read bytes).result = .ok formula) : Obtainable formula
  /-- A formula is drawn. -/
  | random {γ : Type} [RandomSource γ] {numVars count width : Nat} {source : γ} {formula : Cnf}
      (drawn : (Formula.random numVars count width source).1 = .ok formula) :
      Obtainable formula

namespace Formula

theorem wellFormed_empty : (empty : Formula form).WellFormed :=
  ⟨List.nodup_nil, nofun, nofun⟩

/-- Every literal has its integer. -/
theorem WellFormed.encode_eq_ok {formula : Formula form} (wellFormed : formula.WellFormed) :
    formula.encode = .ok (formula.clauses.map fun clause => clause.literals.map Literal.toInt) := by
  refine Outcomes.mapM_eq_ok fun clause member => Outcomes.mapM_eq_ok fun literal inside => ?_
  have registered : formula.registry.contains literal.var = true :=
    Registry.contains_iff.mpr ⟨literal.var_pos, wellFormed.var_le clause member literal inside⟩
  rw [Registry.encode, if_pos registered]

/-! ## Adding clauses -/

theorem WellFormed.withRow {formula : Formula form} (wellFormed : formula.WellFormed)
    (row : NamedClause) : (formula.withRow row).WellFormed where
  names_nodup := Registry.nodup_numberAll wellFormed.names_nodup row
  var_le := by
    intro clause member literal inside
    rcases List.mem_append.mp member with earlier | added
    · exact Nat.le_trans (wellFormed.var_le clause earlier literal inside)
        (Registry.names_prefix_numberAll _ row).length_le
    · rw [List.mem_singleton.mp added] at inside
      exact Registry.var_le_size_numberAll _ row literal inside
  connective_eq := by
    intro clause member
    rcases List.mem_append.mp member with earlier | added
    · exact wellFormed.connective_eq clause earlier
    · rw [List.mem_singleton.mp added]

theorem WellFormed.withRows {formula : Formula form} (wellFormed : formula.WellFormed)
    (rows : List NamedClause) : (formula.withRows rows).WellFormed := by
  rw [withRows_eq_foldl]
  induction rows generalizing formula with
  | nil => exact wellFormed
  | cons row rest ih => exact ih (wellFormed.withRow row)

theorem wellFormed_ofNamed (rows : List NamedClause) :
    (ofNamed rows : Formula form).WellFormed :=
  wellFormed_empty.withRows rows

theorem WellFormed.of_pushClause {formula longer : Formula form}
    (wellFormed : formula.WellFormed) {clause : Clause}
    (pushed : formula.pushClause clause = .ok longer) : longer.WellFormed := by
  obtain ⟨values, encoded, same⟩ := Outcomes.bind_eq_ok.mp pushed
  cases same
  refine ⟨wellFormed.names_nodup, ?_, ?_⟩
  · intro other member literal inside
    rcases List.mem_append.mp member with earlier | added
    · exact wellFormed.var_le other earlier literal inside
    · rw [List.mem_singleton.mp added] at inside
      obtain ⟨value, known⟩ := Outcomes.exists_eq_ok_of_mapM encoded literal inside
      unfold Registry.encode at known
      split at known
      · next registered => exact (Registry.contains_iff.mp registered).2
      · cases known
  · intro other member
    rcases List.mem_append.mp member with earlier | added
    · exact wellFormed.connective_eq other earlier
    · rw [List.mem_singleton.mp added]

/-! ## Dropping and reducing clauses -/

/-- Clauses may be dropped. -/
theorem WellFormed.of_subset {formula : Formula form} (wellFormed : formula.WellFormed)
    {clauses : List Clause} (kept : clauses ⊆ formula.clauses) :
    ({ formula with clauses := clauses } : Formula form).WellFormed where
  names_nodup := wellFormed.names_nodup
  var_le clause member := wellFormed.var_le clause (kept member)
  connective_eq clause member := wellFormed.connective_eq clause (kept member)

theorem firstOfEach_subset (earlier clauses : List Clause) :
    firstOfEach earlier clauses ⊆ clauses := by
  induction clauses generalizing earlier with
  | nil => exact List.Subset.refl _
  | cons clause rest ih =>
      rw [firstOfEach]
      split
      · exact List.Subset.trans (ih earlier) (List.subset_cons_self ..)
      · exact List.cons_subset_cons clause (ih (clause :: earlier))

/-- What reduction leaves of a clause is the clause without some literals. -/
theorem reduce_eq_some {clause rest : Clause} {assignment : Assignment}
    (left : clause.reduce assignment = some rest) :
    rest.connective = clause.connective ∧ rest.literals ⊆ clause.literals := by
  unfold Clause.reduce at left
  split at left
  · cases left
  · cases left
    exact ⟨rfl, List.filter_subset_self _⟩

theorem registry_of_reduce {formula reduced : Cnf} {assignment : Assignment}
    (applied : formula.reduce assignment = .ok reduced) :
    reduced.registry = formula.registry := by
  unfold Formula.reduce at applied
  split at applied
  · cases applied
    rfl
  · obtain ⟨_, _, same⟩ := Outcomes.bind_eq_ok.mp applied
    cases same
    rfl

theorem WellFormed.of_reduce {formula reduced : Cnf} (wellFormed : formula.WellFormed)
    {assignment : Assignment} (applied : formula.reduce assignment = .ok reduced) :
    reduced.WellFormed := by
  unfold Formula.reduce at applied
  split at applied
  · cases applied
    exact wellFormed
  · next clauses _ =>
      obtain ⟨_, _, same⟩ := Outcomes.bind_eq_ok.mp applied
      cases same
      refine ⟨wellFormed.names_nodup, ?_, ?_⟩
      · intro clause member literal inside
        obtain ⟨whole, there, left⟩ := List.mem_filterMap.mp member
        exact wellFormed.var_le whole there literal ((reduce_eq_some left).2 inside)
      · intro clause member
        obtain ⟨whole, there, left⟩ := List.mem_filterMap.mp member
        rw [(reduce_eq_some left).1]
        exact wellFormed.connective_eq whole there

/-! ## Distributing -/

/-- A choice takes its elements from the rows. -/
theorem exists_mem_of_mem_choices {α : Type} {rows : List (List α)} {choice : List α}
    (chosen : choice ∈ choices rows) : ∀ element ∈ choice, ∃ row ∈ rows, element ∈ row := by
  induction rows generalizing choice with
  | nil =>
      rw [List.mem_singleton.mp chosen]
      exact nofun
  | cons row rest ih =>
      obtain ⟨pick, inRow, extended⟩ := List.mem_flatMap.mp chosen
      obtain ⟨later, inRest, same⟩ := List.mem_map.mp extended
      subst same
      intro element member
      rcases List.mem_cons.mp member with picked | chosenLater
      · exact ⟨row, List.mem_cons_self, picked ▸ inRow⟩
      · obtain ⟨other, there, inside⟩ := ih inRest element chosenLater
        exact ⟨other, List.mem_cons_of_mem _ there, inside⟩

theorem WellFormed.distribute {formula : Dnf} (wellFormed : formula.WellFormed) :
    formula.distribute.WellFormed where
  names_nodup := wellFormed.names_nodup
  var_le := by
    intro clause member literal inside
    obtain ⟨choice, chosen, same⟩ := List.mem_map.mp member
    subst same
    obtain ⟨row, inRows, inRow⟩ := exists_mem_of_mem_choices chosen literal inside
    obtain ⟨source, there, same⟩ := List.mem_map.mp inRows
    subst same
    exact wellFormed.var_le source there literal inRow
  connective_eq := by
    intro clause member
    obtain ⟨choice, _, same⟩ := List.mem_map.mp member
    rw [← same]
    rfl

/-! ## Reading and drawing -/

theorem intake_of_takeHeader {number : Nat} {words : List String}
    {progress next : Dimacs.Progress}
    (taken : Dimacs.takeHeader number words progress = .ok next) :
    next.intake = progress.intake := by
  unfold Dimacs.takeHeader at taken
  split at taken
  · obtain rfl := Except.ok.inj taken
    rfl
  · obtain ⟨_, _, same⟩ := Outcomes.bind_eq_ok.mp taken
    obtain rfl := Except.ok.inj same
    rfl

/-- The clauses taken in are those of named rows, and there is a number for every name. -/
def Counted (intake : Intake form) : Prop :=
  ∃ rows, intake = (ofNamed rows).intake ∧ (ofNamed rows : Formula form).numVars ≤ Literal.maxVar

theorem counted_start : Counted (.start : Intake form) :=
  ⟨[], rfl, Nat.zero_le _⟩

theorem Counted.takeYield {intake taken : Intake form} (counted : Counted intake) {given : Yield}
    (read : intake.takeYield given = .ok taken) : Counted taken := by
  obtain ⟨rows, rfl, fits⟩ := counted
  obtain ⟨within, _, rfl⟩ := (takeYield_eq_ok_iff fits).mp read
  rw [ofNamed, ← withRows_append] at within ⊢
  exact ⟨rows ++ given.rows, rfl, within⟩

theorem Counted.exists_ofNamed {intake : Intake form} (counted : Counted intake) :
    ∃ rows, intake.formula = ofNamed rows ∧ intake.formula.numVars ≤ Literal.maxVar := by
  obtain ⟨rows, rfl, fits⟩ := counted
  rw [formula_intake]
  exact ⟨rows, rfl, fits⟩

theorem exists_ofNamed_of_parse {text : String} {formula : Formula form}
    (read : parse text = .ok formula) :
    ∃ rows, formula = ofNamed rows ∧ formula.numVars ≤ Literal.maxVar := by
  obtain ⟨taken, within, same⟩ := Outcomes.bind_eq_ok.mp read
  obtain rfl := Except.ok.inj same
  exact (counted_start.takeYield within).exists_ofNamed

/-- Whatever lines are read, the clauses taken in are those of named rows. -/
theorem exists_ofNamed_of_readLines {lines : List (List UInt8)} {number : Nat}
    {progress : Dimacs.Progress} {formula : Cnf} (counted : Counted progress.intake)
    (read : (Dimacs.readLines number progress lines).result = .ok formula) :
    ∃ rows, formula = ofNamed rows ∧ formula.numVars ≤ Literal.maxVar := by
  induction lines generalizing number progress with
  | nil => exact Except.ok.inj read ▸ counted.exists_ofNamed
  | cons line rest ih =>
      rw [Dimacs.readLines] at read
      split at read
      · cases read
      dsimp only at read
      split at read
      · cases read
      · exact Except.ok.inj read ▸ counted.exists_ofNamed
      · next next taken =>
          refine ih ?_ read
          split at taken
          · cases taken
          · obtain rfl := Option.some.inj (Except.ok.inj taken)
            exact counted
          · obtain ⟨_, header, ⟨⟩⟩ :=
              Outcomes.map_eq_ok_iff.mp (Outcomes.mapError_eq_ok_iff.mp taken)
            exact (intake_of_takeHeader header).symm ▸ counted
          · obtain ⟨_, integers, ⟨⟩⟩ := Outcomes.map_eq_ok_iff.mp taken
            obtain ⟨_, within, same⟩ := Outcomes.bind_eq_ok.mp integers
            exact Except.ok.inj same ▸ counted.takeYield within

/-- The clauses drawn make a formula as long as there are numbers for their names. -/
theorem random_eq {γ : Type} [RandomSource γ] {numVars width : Nat} {pool : Array Nat}
    (filled : Sampling.pool numVars width = .ok pool) (count : Nat) (source : γ) :
    random numVars count width source =
      let (clauses, later) := Sampling.drawClauses width count pool source
      ((Registry.limited (ofNamed clauses : Cnf).numVars (ofNamed clauses)).mapError .fault,
        later) := by
  have noNames : (empty : Cnf).numVars ≤ Literal.maxVar := Nat.zero_le _
  rw [random, filled]
  dsimp only [Intake.start]
  rw [takeAll_intake noNames, Registry.limited, Registry.limited, ofNamed]
  by_cases fits : (empty.withRows (Sampling.drawClauses width count pool source).1 : Cnf).numVars ≤
    Literal.maxVar <;> simp [fits, Except.mapError]

/-- A formula that is drawn is that of the clauses drawn. -/
theorem random_eq_ok {γ : Type} [RandomSource γ] {numVars count width : Nat} {source : γ}
    {formula : Cnf} (drawn : (random numVars count width source).1 = .ok formula) :
    ∃ pool, Sampling.pool numVars width = .ok pool ∧
      formula = ofNamed (Sampling.drawClauses width count pool source).1 ∧
      formula.numVars ≤ Literal.maxVar := by
  cases filled : Sampling.pool numVars width with
  | error failure =>
      rw [random, filled] at drawn
      cases drawn
  | ok pool =>
      rw [random_eq filled] at drawn
      obtain ⟨fits, rfl⟩ :=
        Registry.limited_eq_ok_iff.mp (Outcomes.mapError_eq_ok_iff.mp drawn)
      exact ⟨pool, rfl, rfl, fits⟩

end Formula

/-! ## Whole histories -/

/-- Every variable of a formula is one that a literal can be made of. -/
theorem Obtainable.numVars_le {formula : Formula form} (obtained : Obtainable formula) :
    formula.numVars ≤ Literal.maxVar := by
  induction obtained with
  | empty => exact Nat.zero_le _
  | parse read =>
      obtain ⟨_, _, fits⟩ := Formula.exists_ofNamed_of_parse read
      exact fits
  | addClause _ added ih =>
      obtain ⟨_, _, fits, rfl⟩ := (Formula.addClause_eq_ok_iff ih).mp added
      exact fits
  | pushClause _ pushed ih =>
      obtain ⟨_, _, same⟩ := Outcomes.bind_eq_ok.mp pushed
      cases same
      exact ih
  | append _ _ appended ih _ => exact ((Formula.append_eq_ok_iff ih).mp appended).1
  | simplify _ ih => exact ih
  | reduce _ applied ih =>
      rw [Formula.numVars, Formula.registry_of_reduce applied]
      exact ih
  | distribute _ ih => exact ih
  | readDimacs read =>
      obtain ⟨_, _, fits⟩ := Formula.exists_ofNamed_of_readLines Formula.counted_start read
      exact fits
  | random drawn =>
      obtain ⟨_, _, _, fits⟩ := Formula.random_eq_ok drawn
      exact fits

/-- Every history of operations ends in a well-formed formula. -/
theorem Obtainable.wellFormed {formula : Formula form} (obtained : Obtainable formula) :
    formula.WellFormed := by
  induction obtained with
  | empty => exact Formula.wellFormed_empty
  | parse read =>
      obtain ⟨rows, rfl, _⟩ := Formula.exists_ofNamed_of_parse read
      exact Formula.wellFormed_ofNamed rows
  | addClause before added ih =>
      obtain ⟨row, _, _, rfl⟩ := (Formula.addClause_eq_ok_iff before.numVars_le).mp added
      exact ih.withRow row
  | pushClause _ pushed ih => exact ih.of_pushClause pushed
  | append before _ appended ih _ =>
      obtain ⟨_, rfl⟩ := (Formula.append_eq_ok_iff before.numVars_le).mp appended
      exact ih.withRows _
  | simplify _ ih => exact ih.of_subset (Formula.firstOfEach_subset [] _)
  | reduce _ applied ih => exact ih.of_reduce applied
  | distribute _ ih => exact ih.distribute
  | readDimacs read =>
      obtain ⟨rows, rfl, _⟩ := Formula.exists_ofNamed_of_readLines Formula.counted_start read
      exact Formula.wellFormed_ofNamed rows
  | random drawn =>
      obtain ⟨_, _, rfl, _⟩ := Formula.random_eq_ok drawn
      exact Formula.wellFormed_ofNamed _

/-! ## Several clauses -/

/-- Clauses are added by name, one after the other. -/
theorem Obtainable.addClauses {formula longer : Formula form} (rows : List (List String))
    (before : Obtainable formula) (added : rows.foldlM Formula.addClause formula = .ok longer) :
    Obtainable longer := by
  induction rows generalizing formula with
  | nil =>
      cases added
      exact before
  | cons texts rest ih =>
      rw [List.foldlM_cons] at added
      obtain ⟨between, first, others⟩ := Outcomes.bind_eq_ok.mp added
      exact ih (.addClause before first) others

end ChronoSat
