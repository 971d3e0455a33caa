/-
# Formulas that are edited in place

The operations that change a formula are functions from one formula to another, so a failure
cannot change anything. A formula that is edited in place has no earlier self to go back to:
a clause is added literal by literal, names are entered into the registry's tables as they are
met, and what is done before a failure stays done. This module gives the operations as programs
over a draft, and each ends as the function does. None that refuses has touched the draft,
because whatever a clause can be refused for is looked for before the first name is entered.

So an edit that is refused can be left out of a formula's history, and the draft that any edits
lead to is that of a formula that can be obtained. Every such formula is consistent, and its
names begin with those that the formula had before.
-/

import ChronoSat.Proofs.Formula.Gathered
import ChronoSat.Proofs.Formula.Reduction
import ChronoSat.Proofs.Ledger

namespace ChronoSat

variable {form : NormalForm}

/-! ## Consistency -/

/-- What a formula promises about its names, numbers and clauses. -/
structure Formula.Consistent (formula : Formula form) : Prop where
  names_nodup : formula.registry.names.Nodup
  /-- A name is the text of a positive literal. -/
  splits : ∀ name ∈ formula.registry.names, Literal.split? name = some (name, true)
  id_iff_name : ∀ name var,
    formula.registry.id? name = some var ↔ formula.registry.name? var = some name
  has_id : ∀ name, name ∈ formula.registry.names ↔ ∃ var, formula.registry.id? name = some var
  has_name : ∀ var,
    0 < var ∧ var ≤ formula.numVars ↔ ∃ name, formula.registry.name? var = some name
  registered : ∀ clause ∈ formula.clauses, ∀ literal ∈ clause.literals,
    formula.registry.contains literal.var = true
  connective_eq : ∀ clause ∈ formula.clauses, clause.connective = form.inner
  encodes : ∃ rows, formula.encode = .ok rows

theorem Obtainable.consistent {formula : Formula form} (obtained : Obtainable formula) :
    formula.Consistent where
  names_nodup := obtained.wellFormed.names_nodup
  splits name known := Literal.split?_spell (obtained.spellable name known) true
  id_iff_name _ _ := Registry.id?_eq_some_iff_name? obtained.wellFormed.names_nodup
  has_id name := by simp [Registry.id?_eq_some_iff]
  has_name _ := Registry.exists_name?_iff.symm
  registered clause member literal inside := Registry.contains_iff.mpr
    ⟨literal.var_pos, obtained.wellFormed.var_le clause member literal inside⟩
  connective_eq := obtained.wellFormed.connective_eq
  encodes := ⟨_, obtained.wellFormed.encode_eq_ok⟩

/-! ## Programs over a draft -/

/-- A formula while it is edited. -/
structure Draft where
  clauses : List Clause
  ledger : Ledger

/-- The draft of a formula. -/
def Formula.draft (formula : Formula form) : Draft := ⟨formula.clauses, formula.registry.ledger⟩

namespace Draft

/-- Runs a program over the tables, which leaves the clauses as they are. -/
def onLedger {α : Type} (program : EStateM Failure Ledger α) : EStateM Failure Draft α :=
  fun draft =>
    match program.run draft.ledger with
    | .ok value ledger => .ok value { draft with ledger }
    | .error failure ledger => .error failure { draft with ledger }

/-- Adds a clause at the end. -/
def push (clause : Clause) : EStateM Failure Draft Unit :=
  modify fun draft => { draft with clauses := draft.clauses ++ [clause] }

/-- Adds the clause of the literals that a program over the tables gives. -/
def pushMade (form : NormalForm) (program : EStateM Failure Ledger (List Literal)) :
    EStateM Failure Draft Unit := do
  let literals ← onLedger program
  push ⟨form.inner, literals⟩

/-- Adds a clause by name. Nothing is entered before all texts have been looked at. -/
def addClause (form : NormalForm) (texts : List String) : EStateM Failure Draft Unit :=
  match texts.find? fun text => (Literal.split? text).isNone with
  | some bad => throw (.error (.invalidLiteral bad))
  | none => pushMade form (texts.mapM Ledger.intern)

/-- Adds a clause by literal, under the connective of the form. -/
def pushClause (form : NormalForm) (clause : Clause) : EStateM Failure Draft Unit := do
  let draft ← get
  match clause.literals.mapM draft.ledger.encode with
  | .error problem => throw (.error problem)
  | .ok _ => push ⟨form.inner, clause.literals⟩

/-- Adds the clauses of a formula one after the other. -/
def append (other : Formula form) : EStateM Failure Draft Unit :=
  other.clauses.forM fun clause =>
    pushMade form ((Formula.namedLiterals other.registry clause).mapM Ledger.enter)

/-- Drops every clause that is equivalent to an earlier one. -/
def simplify : EStateM Failure Draft Unit :=
  modify fun draft => { draft with clauses := Formula.firstOfEach [] draft.clauses }

/-- Puts what an assignment leaves of the clauses in their place. Literals are made of the
assigned variables only if there are clauses to go through. -/
def reduce (assignment : Assignment) : EStateM Failure Draft Unit := do
  let draft ← get
  match draft.clauses, assignment.toLiterals with
  | [], _ => return
  | _, .error fault => throw (.fault fault)
  | clauses, .ok literals =>
    set { draft with clauses := clauses.filterMap (Clause.applyAll literals) }

end Draft

/-- What can be done to a formula. -/
inductive Edit : NormalForm → Type
  | addClause {form : NormalForm} (texts : List String) : Edit form
  | pushClause {form : NormalForm} (clause : Clause) : Edit form
  | append {form : NormalForm} (other : Formula form) (obtained : Obtainable other) : Edit form
  | simplify {form : NormalForm} : Edit form
  | reduce (assignment : Assignment) : Edit .conjunctive

namespace Edit

/-- The edit as a function. -/
def apply {form : NormalForm} : Edit form → Formula form → Except Failure (Formula form)
  | addClause texts, formula => formula.addClause texts
  | pushClause clause, formula => (formula.pushClause clause).mapError .error
  | append other _, formula => (formula.append other).mapError .fault
  | simplify, formula => .ok formula.simplify
  | reduce assignment, formula => (Formula.reduce formula assignment).mapError .fault

/-- The clauses that the edit adds by name. -/
def rows {form : NormalForm} : Edit form → List NamedClause
  | addClause texts => [texts.filterMap Literal.split?]
  | append other _ => other.namedRows
  | pushClause _ | simplify | reduce _ => []

/-- The edit as a program. -/
def program {form : NormalForm} : Edit form → EStateM Failure Draft Unit
  | addClause texts => Draft.addClause form texts
  | pushClause clause => Draft.pushClause form clause
  | append other _ => Draft.append other
  | simplify => Draft.simplify
  | reduce assignment => Draft.reduce assignment

/-- How an edit of a formula may end. -/
inductive Ends (edit : Edit form) (formula : Formula form) :
    EStateM.Result Failure Draft Unit → Prop
  /-- With the formula that the function gives. The names that there were come first. -/
  | done {longer : Formula form} (applied : edit.apply formula = .ok longer)
      (obtained : Obtainable longer)
      (grows : formula.registry.names <+: longer.registry.names) :
      Ends edit formula (.ok () longer.draft)
  /-- With the failure that the function gives, and nothing touched. -/
  | refused {problem : Failure} (refused : edit.apply formula = .error problem) :
      Ends edit formula (.error problem formula.draft)
  /-- With the fault that the function gives, as the clauses that are added by name have more
  names than there are numbers. What is left of the draft is not told. -/
  | full {left : Draft} (faulted : edit.apply formula = .error (.fault .registryFull))
      (exceeds : Literal.maxVar < (formula.withRows edit.rows).numVars) :
      Ends edit formula (.error (.fault .registryFull) left)

/-- Makes an edit of a draft. Whoever is refused may go on with the draft, but nobody goes on
after a fault. -/
def step (draft : Draft) (edit : Edit form) : Option Draft :=
  match edit.program.run draft with
  | .ok _ after => some after
  | .error (.error _) after => some after
  | .error (.fault _) _ => none

end Edit

/-! ## Programs end as the functions do -/

namespace Formula

variable {formula : Formula form}

theorem numbered_onLedger {α : Type} {program : EStateM Failure Ledger α} {draft : Draft}
    {value : α} {ledger : Ledger} {largest : Nat}
    (ended : Numbered value ledger largest (program.run draft.ledger)) :
    Numbered value { draft with ledger } largest ((Draft.onLedger program).run draft) := by
  rw [EStateM.run, Draft.onLedger]
  generalize program.run draft.ledger = reached at ended
  cases ended with
  | done fits => exact .done fits
  | full exceeds => exact .full exceeds

/-- A row of names is added as its clause. -/
theorem numbered_pushMade (fits : formula.numVars ≤ Literal.maxVar) (row : NamedClause) :
    Numbered () (formula.withRow row).draft (formula.withRow row).numVars
      ((Draft.pushMade form (row.mapM Ledger.enter)).run formula.draft) :=
  (numbered_onLedger (Registry.numbered_mapM_enter fits row)).bind (Nat.le_refl _) .done

/-- Rows of names are added as their clauses. -/
theorem numbered_forM_pushMade {α : Type} (row : α → NamedClause) (elements : List α)
    (fits : formula.numVars ≤ Literal.maxVar) :
    Numbered () (formula.withRows (elements.map row)).draft
      (formula.withRows (elements.map row)).numVars
      ((elements.forM fun element =>
        Draft.pushMade form ((row element).mapM Ledger.enter)).run formula.draft) := by
  induction elements generalizing formula with
  | nil =>
      rw [List.map_nil, withRows_nil]
      exact .done fits
  | cons element rest ih =>
      rw [List.map_cons, withRows_cons]
      exact (numbered_pushMade fits (row element)).bind
        (names_prefix_withRows _ (rest.map row)).length_le fun room => ih room

end Formula

namespace Edit

open Formula

variable {formula longer : Formula form} {edit : Edit form}

/-- A program that adds the clauses of an edit ends as the function that does. -/
theorem Ends.of_numbered {result : EStateM.Result Failure Draft Unit}
    (ended : Numbered () (formula.withRows edit.rows).draft (formula.withRows edit.rows).numVars
      result)
    (applies : edit.apply formula =
      (Registry.limited (formula.withRows edit.rows).numVars
        (formula.withRows edit.rows)).mapError .fault)
    (obtained : ∀ longer, edit.apply formula = .ok longer → Obtainable longer) :
    edit.Ends formula result := by
  cases ended with
  | done fits =>
      have applied : edit.apply formula = .ok (formula.withRows edit.rows) := by
        rw [applies, Registry.limited_of_le fits]
        rfl
      exact .done applied (obtained _ applied) (names_prefix_withRows _ _)
  | full exceeds =>
      refine .full (applies.trans ?_) exceeds
      rw [Registry.limited_eq_error_iff.mpr ⟨exceeds, rfl⟩]
      rfl

/-- A text that is not found to spell nothing is read. -/
theorem exists_readLiteral_eq_ok {text : String}
    (spells : (Literal.split? text).isNone = false) : ∃ named, readLiteral text = .ok named := by
  unfold readLiteral
  cases split : Literal.split? text with
  | none => simp [split] at spells
  | some named => exact ⟨named, rfl⟩

/-- The literals of a clause are what its texts spell. -/
theorem filterMap_split? {texts : List String} {row : NamedClause}
    (spells : Infix.Spells texts row) : texts.filterMap Literal.split? = row :=
  calc
    texts.filterMap Literal.split? = (texts.map Literal.split?).filterMap id := by simp
    _ = (row.map some).filterMap id := congrArg (List.filterMap id) spells
    _ = row := by simp

/-- Adding a clause by name is refused for the first text that spells no literal. -/
theorem ends_addClause (obtained : Obtainable formula) (texts : List String) :
    (addClause texts).Ends formula ((addClause texts : Edit form).program.run formula.draft) := by
  rw [program, Draft.addClause]
  cases found : texts.find? fun text => (Literal.split? text).isNone with
  | some bad =>
      obtain ⟨unspelled, before, after, rfl, earlier⟩ := List.find?_eq_some_iff_append.mp found
      have unread : readLiteral bad = .error (.invalidLiteral bad) := by
        rw [readLiteral, Option.isNone_iff_eq_none.mp unspelled]
      have stopped : (before ++ bad :: after).mapM readLiteral = .error (.invalidLiteral bad) :=
        Outcomes.mapM_eq_error_iff.mpr ⟨before, bad, after, rfl, fun text member =>
          exists_readLiteral_eq_ok (by simpa using earlier text member), unread⟩
      have refused : formula.addClause (before ++ bad :: after) =
          .error (.error (.invalidLiteral bad)) := by
        rw [Formula.addClause, stopped]
        rfl
      exact .refused refused
  | none =>
      obtain ⟨row, taken⟩ := Outcomes.exists_mapM_eq_ok fun text (member : text ∈ texts) =>
        exists_readLiteral_eq_ok (Bool.eq_false_iff.mpr (List.find?_eq_none.mp found text member))
      have spells := readLiteral_mapM_eq_ok_iff.mp taken
      have rows : (addClause texts : Edit form).rows = [row] :=
        congrArg (fun row => [row]) (filterMap_split? spells)
      have literals : texts.mapM Ledger.intern = row.mapM Ledger.enter :=
        Registry.mapM_intern spells
      refine .of_numbered ?_ ?_ fun longer added => .addClause obtained added
      · rw [rows, withRows_cons, withRows_nil]
        exact literals ▸ numbered_pushMade obtained.numVars_le row
      · rw [rows, withRows_cons, withRows_nil, apply, Formula.addClause, taken]
        exact congrArg (Except.mapError Failure.fault) (addNamed_eq obtained.numVars_le row)

/-- Adding a clause by literal is refused for the first that is over no registered variable. -/
theorem ends_pushClause (obtained : Obtainable formula) (clause : Clause) :
    (pushClause clause).Ends formula
      ((pushClause clause : Edit form).program.run formula.draft) := by
  have run : (pushClause clause : Edit form).program.run formula.draft =
      match clause.encode formula.registry with
      | .error problem => .error (.error problem) formula.draft
      | .ok _ => .ok () ⟨formula.clauses ++ [⟨form.inner, clause.literals⟩],
          formula.registry.ledger⟩ := by
    rw [program, Draft.pushClause, EStateM.run_bind, EStateM.run_get, Clause.encode]
    -- The tables of a registry encode a literal as the registry does.
    show (match clause.literals.mapM formula.registry.encode with
      | .error problem => throw (.error problem)
      | .ok _ => Draft.push ⟨form.inner, clause.literals⟩ : EStateM Failure Draft Unit).run
        formula.draft = _
    cases clause.literals.mapM formula.registry.encode <;> rfl
  rw [run]
  cases encoded : clause.encode formula.registry with
  | error problem =>
      have refused : formula.pushClause clause = .error problem := by
        rw [Formula.pushClause, encoded]
        rfl
      exact .refused (congrArg (Except.mapError Failure.error) refused)
  | ok values =>
      have pushed : formula.pushClause clause =
          .ok { formula with clauses := formula.clauses ++ [⟨form.inner, clause.literals⟩] } := by
        rw [Formula.pushClause, encoded]
        rfl
      have applied : (pushClause clause).apply formula = .ok _ :=
        congrArg (Except.mapError Failure.error) pushed
      exact .done applied (.pushClause obtained pushed) List.prefix_rfl

theorem ends_append (obtained : Obtainable formula) {other : Formula form}
    (otherObtained : Obtainable other) :
    (append other otherObtained).Ends formula
      ((append other otherObtained).program.run formula.draft) :=
  .of_numbered (numbered_forM_pushMade _ other.clauses obtained.numVars_le)
    (congrArg (Except.mapError Failure.fault) (append_eq obtained.numVars_le other))
    fun _ applied => .append obtained otherObtained (Outcomes.mapError_eq_ok_iff.mp applied)

theorem ends_simplify (obtained : Obtainable formula) :
    (simplify : Edit form).Ends formula ((simplify : Edit form).program.run formula.draft) :=
  .done rfl obtained.simplify List.prefix_rfl

/-- Reducing is refused for an assigned number that is no variable's. -/
theorem ends_reduce {formula : Cnf} (obtained : Obtainable formula) (assignment : Assignment) :
    (reduce assignment).Ends formula ((reduce assignment).program.run formula.draft) := by
  obtain ⟨clauses, registry⟩ := formula
  cases clauses with
  | nil => exact .done rfl obtained List.prefix_rfl
  | cons clause rest =>
      rw [program, Draft.reduce, EStateM.run_bind, EStateM.run_get]
      cases read : assignment.toLiterals with
      | error fault =>
          have refused : Formula.reduce ⟨clause :: rest, registry⟩ assignment = .error fault := by
            rw [Formula.reduce, read]
            rfl
          exact .refused (congrArg (Except.mapError Failure.fault) refused)
      | ok literals =>
          have reduced : Formula.reduce ⟨clause :: rest, registry⟩ assignment =
              .ok ⟨(clause :: rest).filterMap (Clause.applyAll literals), registry⟩ := by
            rw [Formula.reduce, read, ← funext (Clause.reduce_eq_applyAll read)]
            rfl
          have applied : (reduce assignment).apply ⟨clause :: rest, registry⟩ = .ok _ :=
            congrArg (Except.mapError Failure.fault) reduced
          exact .done applied (.reduce obtained reduced) List.prefix_rfl

/-- Every edit ends as its function does. -/
theorem ends_program (obtained : Obtainable formula) (edit : Edit form) :
    edit.Ends formula (edit.program.run formula.draft) := by
  cases edit with
  | addClause texts => exact ends_addClause obtained texts
  | pushClause clause => exact ends_pushClause obtained clause
  | append other otherObtained => exact ends_append obtained otherObtained
  | simplify => exact ends_simplify obtained
  | reduce assignment => exact ends_reduce obtained assignment

/-- A refusal leaves the draft as it was. -/
theorem Ends.draft_eq {problem : Error} {left : Draft}
    (ended : edit.Ends formula (.error (.error problem) left)) : left = formula.draft := by
  cases ended with
  | refused _ => rfl

/-- A step that can be gone on from leads to the draft of a formula that can be obtained. -/
theorem exists_of_step (obtained : Obtainable formula) {after : Draft}
    (made : edit.step formula.draft = some after) :
    ∃ longer : Formula form, after = longer.draft ∧ Obtainable longer ∧
      formula.registry.names <+: longer.registry.names := by
  have ended := ends_program obtained edit
  rw [step] at made
  generalize edit.program.run formula.draft = result at ended made
  cases ended with
  | done _ longerObtained grows =>
      obtain rfl := Option.some.inj made
      exact ⟨_, rfl, longerObtained, grows⟩
  | @refused problem _ =>
      cases problem with
      | error problem =>
          obtain rfl := Option.some.inj made
          exact ⟨formula, rfl, obtained, List.prefix_rfl⟩
      | fault fault => cases made
  | full => cases made

/-- So do any number of them. -/
theorem exists_of_steps (obtained : Obtainable formula) (edits : List (Edit form))
    {after : Draft} (made : edits.foldlM step formula.draft = some after) :
    ∃ longer : Formula form, after = longer.draft ∧ Obtainable longer ∧
      formula.registry.names <+: longer.registry.names := by
  induction edits generalizing formula with
  | nil => exact ⟨formula, (Option.some.inj made).symm, obtained, List.prefix_rfl⟩
  | cons edit rest ih =>
      obtain ⟨between, first, others⟩ := Option.bind_eq_some_iff.mp made
      obtain ⟨next, rfl, nextObtained, grows⟩ := exists_of_step obtained first
      obtain ⟨longer, same, longerObtained, growsFurther⟩ := ih nextObtained others
      exact ⟨longer, same, longerObtained, grows.trans growsFurther⟩

end Edit

namespace Formula

variable {formula : Formula form}

/-- Formulas stay consistent. A formula of any history is. An edit in place ends as the
function that it carries out does, and one that is refused leaves clauses, names and numbers
exactly as they were. Whatever edits are made, those that are refused among them, the draft
they lead to is that of a formula that can be obtained, so it is consistent again. Its names
begin with those of the formula, which keep their numbers. -/
theorem consistent_edited (obtained : Obtainable formula) :
    formula.Consistent ∧
      (∀ edit : Edit form, edit.Ends formula (edit.program.run formula.draft)) ∧
      (∀ (edit : Edit form) (problem : Error) (left : Draft),
        edit.program.run formula.draft = .error (.error problem) left → left = formula.draft) ∧
      ∀ (edits : List (Edit form)) (after : Draft),
        edits.foldlM Edit.step formula.draft = some after →
          ∃ longer : Formula form, after = longer.draft ∧ Obtainable longer ∧
            longer.Consistent ∧ formula.registry.names <+: longer.registry.names ∧
            ∀ name var, formula.registry.id? name = some var →
              longer.registry.id? name = some var := by
  refine ⟨obtained.consistent, Edit.ends_program obtained, ?_, ?_⟩
  · intro edit problem left refused
    exact Edit.Ends.draft_eq (refused ▸ Edit.ends_program obtained edit)
  · intro edits after made
    obtain ⟨longer, same, longerObtained, grows⟩ := Edit.exists_of_steps obtained edits made
    exact ⟨longer, same, longerObtained, longerObtained.consistent, grows,
      fun name var found => Registry.id?_of_grown grows found⟩

/-- Of a clause that is refused not even the names in front of the bad text are entered, and the
clause added after it goes on with the next number. -/
theorem consistent_edited_twoLiterals :
    let formula : Cnf := .ofNamed [[("b", true), ("a", false)]]
    let edits : List (Edit .conjunctive) := [.addClause ["d", "¬¬e"], .addClause ["¬c", "b"]]
    ∃ (after : Draft) (longer : Cnf), edits.foldlM Edit.step formula.draft = some after ∧
      after.ledger.names = ["b", "a", "c"] ∧ after = longer.draft ∧ longer.Consistent ∧
      longer.registry.id? "b" = some 1 := by
  intro formula edits
  obtain ⟨_, _, _, lead⟩ := consistent_edited gathered_twoLiterals.obtainable
  have names : (edits.foldlM Edit.step formula.draft).map (fun after => after.ledger.names) =
      some ["b", "a", "c"] := by
    rfl
  obtain ⟨after, made, entered⟩ := Option.map_eq_some_iff.mp names
  obtain ⟨longer, same, _, consistent, _, kept⟩ := lead edits after made
  exact ⟨after, longer, made, entered, same, consistent, kept "b" 1 (by decide)⟩

end Formula

end ChronoSat
