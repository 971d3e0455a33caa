/-
# Formulas that are gathered clause by clause

A formula that is built by adding clauses, and perhaps by dropping repeated ones, has its
names registered in the order in which they occur first. Adding by name keeps the order
because names are registered as they come, adding by literal because the literals are over
registered variables, and a dropped clause has no name that an earlier one has not.
Reducing and distributing do not keep it: they leave the registry as it is while names
disappear from the clauses or change places.
-/

import ChronoSat.Proofs.Formula.Names
import ChronoSat.Proofs.Formula.Repetition

namespace ChronoSat

variable {form : NormalForm}

/-- A formula that is gathered from clauses, on a history that neither reduces nor distributes
it. What is appended may have any history. -/
inductive Gathered : {form : NormalForm} → Formula form → Prop
  /-- A formula without clauses and names. -/
  | empty {form : NormalForm} : Gathered (Formula.empty : Formula form)
  /-- Text is read. -/
  | parse {form : NormalForm} {text : String} {formula : Formula form}
      (read : Formula.parse text = .ok formula) : Gathered formula
  /-- A clause is added by name. -/
  | addClause {form : NormalForm} {formula longer : Formula form} {texts : List String}
      (before : Gathered formula) (added : formula.addClause texts = .ok longer) :
      Gathered longer
  /-- A clause is added by literal. -/
  | pushClause {form : NormalForm} {formula longer : Formula form} {clause : Clause}
      (before : Gathered formula) (pushed : formula.pushClause clause = .ok longer) :
      Gathered longer
  /-- The clauses of another formula are added. -/
  | append {form : NormalForm} {formula other longer : Formula form} (before : Gathered formula)
      (added : Obtainable other) (appended : formula.append other = .ok longer) : Gathered longer
  /-- Repeated clauses are dropped. -/
  | simplify {form : NormalForm} {formula : Formula form} (before : Gathered formula) :
      Gathered formula.simplify
  /-- A clause file is read. -/
  | readDimacs {bytes : List UInt8} {formula : Cnf}
      (read : (Dimacs.read bytes).result = .ok formula) : Gathered formula
  /-- A formula is drawn. -/
  | random {γ : Type} [RandomSource γ] {numVars count width : Nat} {source : γ} {formula : Cnf}
      (drawn : (Formula.random numVars count width source).1 = .ok formula) : Gathered formula

theorem Gathered.obtainable {formula : Formula form} (gathered : Gathered formula) :
    Obtainable formula := by
  induction gathered with
  | empty => exact .empty
  | parse read => exact .parse read
  | addClause _ added ih => exact .addClause ih added
  | pushClause _ pushed ih => exact .pushClause ih pushed
  | append _ added appended ih => exact .append ih added appended
  | simplify _ ih => exact .simplify ih
  | readDimacs read => exact .readDimacs read
  | random drawn => exact .random drawn

namespace Formula

/-! ## Adding clauses -/

theorem inFirstSeenOrder_ofNamed (rows : List NamedClause) :
    (ofNamed rows : Formula form).InFirstSeenOrder :=
  (numberedFrom_ofNamed rows).inFirstSeenOrder

/-- Rows behind a formula in order are rows behind those it stands for. -/
theorem InFirstSeenOrder.withRows {formula : Formula form} (ordered : formula.InFirstSeenOrder)
    (wellFormed : formula.WellFormed) (rows : List NamedClause) :
    (formula.withRows rows).InFirstSeenOrder := by
  have built : formula = ofNamed formula.namedRows :=
    numberedFrom_iff.mp (wellFormed.numberedFrom_namedRows ordered)
  have longer : formula.withRows rows = ofNamed (formula.namedRows ++ rows) := by
    rw [ofNamed, withRows_append, ← ofNamed, ← built]
  exact longer ▸ inFirstSeenOrder_ofNamed _

/-- The names of a clause over registered variables are registered. -/
theorem fst_namedLiterals_subset (registry : Registry) (clause : Clause) :
    (namedLiterals registry clause).map Prod.fst ⊆ registry.names := by
  intro name member
  obtain ⟨named, inside, rfl⟩ := List.mem_map.mp member
  obtain ⟨literal, _, known⟩ := List.mem_filterMap.mp inside
  obtain ⟨name, there, rfl⟩ := Option.map_eq_some_iff.mp known
  exact List.mem_of_getElem? (Registry.name?_eq_some_iff.mp there).2

/-- A clause over registered variables adds no name. -/
theorem InFirstSeenOrder.pushed {formula : Formula form} (ordered : formula.InFirstSeenOrder)
    (clause : Clause) :
    ({ formula with clauses := formula.clauses ++ [clause] } : Formula form).InFirstSeenOrder := by
  have known : (namedLiterals formula.registry clause).map Prod.fst ⊆
      formula.namedRows.flatten.map Prod.fst := by
    intro name member
    have registered := fst_namedLiterals_subset formula.registry clause member
    rwa [ordered, List.mem_eraseDups] at registered
  have unchanged := Occurrences.eraseDups_append_of_subset known
  simp only [InFirstSeenOrder, namedRows, List.map_append, List.map_singleton,
    List.flatten_append, List.flatten_singleton] at ordered unchanged ⊢
  rw [unchanged, ordered]

/-! ## Dropping repeated clauses -/

/-- Equivalent clauses have the same names. -/
theorem fst_namedLiterals_subset_of_isEquivalent {registry : Registry} {kept clause : Clause}
    (equivalent : kept.isEquivalent clause = true) :
    (namedLiterals registry clause).map Prod.fst ⊆ (namedLiterals registry kept).map Prod.fst :=
  List.map_subset _ (List.filterMap_subset _ (Clause.subset_of_isEquivalent equivalent))

/-- Whatever is dropped has its names in front of it. -/
theorem InFirstSeenOrder.simplify {formula : Formula form} (ordered : formula.InFirstSeenOrder) :
    formula.simplify.InFirstSeenOrder := by
  have nothing : ∀ kept ∈ ([] : List Clause),
      (namedLiterals formula.registry kept).map Prod.fst ⊆ [] := nofun
  have same := eraseDups_firstOfEach fst_namedLiterals_subset_of_isEquivalent formula.clauses
    nothing
  have names (clauses : List Clause) :
      (clauses.map (namedLiterals formula.registry)).flatten.map Prod.fst =
        clauses.flatMap fun clause => (namedLiterals formula.registry clause).map Prod.fst := by
    rw [List.map_flatten, List.map_map]
    rfl
  rw [InFirstSeenOrder, namedRows, names] at ordered
  exact (ordered.trans same.symm).trans (congrArg List.eraseDups (names _).symm)

end Formula

/-- The names of a gathered formula are registered in the order in which they occur first. -/
theorem Gathered.inFirstSeenOrder {formula : Formula form} (gathered : Gathered formula) :
    formula.InFirstSeenOrder := by
  induction gathered with
  | empty => exact Formula.inFirstSeenOrder_ofNamed []
  | parse read =>
      obtain ⟨rows, rfl, _⟩ := Formula.exists_ofNamed_of_parse read
      exact Formula.inFirstSeenOrder_ofNamed rows
  | addClause before added ih =>
      obtain ⟨row, _, rfl⟩ := Formula.exists_row_of_addClause before.obtainable.numVars_le added
      exact ih.withRows before.obtainable.wellFormed [row]
  | pushClause _ pushed ih =>
      obtain ⟨_, _, same⟩ := Outcomes.bind_eq_ok.mp pushed
      obtain rfl := Except.ok.inj same
      exact ih.pushed _
  | append before _ appended ih =>
      obtain ⟨_, rfl⟩ := (Formula.append_eq_ok_iff before.obtainable.numVars_le).mp appended
      exact ih.withRows before.obtainable.wellFormed _
  | simplify _ ih => exact ih.simplify
  | readDimacs read =>
      obtain ⟨rows, rfl, _⟩ := Formula.exists_ofNamed_of_readLines Formula.counted_start read
      exact Formula.inFirstSeenOrder_ofNamed rows
  | random drawn =>
      obtain ⟨_, _, rfl, _⟩ := Formula.random_eq_ok drawn
      exact Formula.inFirstSeenOrder_ofNamed _

/-- A clause of two literals, gathered by name. -/
theorem Formula.gathered_twoLiterals :
    Gathered (Formula.ofNamed [[("b", true), ("a", false)]] : Cnf) := by
  have added : (Formula.empty : Cnf).addClause ["b", "¬a"] =
      .ok (Formula.ofNamed [[("b", true), ("a", false)]]) := by
    decide
  exact .addClause .empty added

end ChronoSat
