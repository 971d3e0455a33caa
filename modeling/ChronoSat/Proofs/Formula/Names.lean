/-
# Names that can be registered

A name is registered only if a literal's text can spell it: text is split before it is
registered, and the names that clause files and random formulas give their variables are
spelled from a letter and digits. So whatever the history of a formula, a literal that
is written with its name is split into the same name and polarity again.
-/

import ChronoSat.Proofs.Dimacs.LineByLine
import ChronoSat.Proofs.Infix.Grammar
import ChronoSat.Proofs.Text.Numeral

namespace ChronoSat

variable {form : NormalForm}

/-! ## Names -/

namespace Literal

theorem isName_of_split? {text : String} {named : String × Bool}
    (spells : split? text = some named) : isName named.1 = true := by
  obtain ⟨valid, same⟩ := Option.ite_none_right_eq_some.mp spells
  exact Option.some.inj same ▸ valid

theorem isName_iff {name : String} :
    isName name = true ↔
      name.toList ≠ [] ∧ name ∉ reservedNames ∧
        ∀ character ∈ name.toList, isNameChar character = true := by
  simp [isName, and_assoc]

theorem toList_spell_false (name : String) : (spell name false).toList = '¬' :: name.toList := by
  simp [spell, negationSign]

/-- A literal that is written is split into its name and polarity again. -/
theorem split?_spell {name : String} (valid : isName name = true) (polarity : Bool) :
    split? (spell name polarity) = some (name, polarity) := by
  cases polarity with
  | false => simp [split?, toList_spell_false, valid]
  | true =>
      have unsigned : ∀ rest, name.toList ≠ '¬' :: rest := by
        intro rest signed
        have refused := (isName_iff.mp valid).2.2 '¬' (signed ▸ List.mem_cons_self)
        simp [isNameChar, negationSign] at refused
      unfold split? spell
      split
      · next rest signed => exact absurd signed (unsigned rest)
      · simp [valid]

theorem isNameChar_of_isDigit {character : Char} (digit : character.isDigit = true) :
    isNameChar character = true := by
  have other (excluded : Char) (symbol : excluded.isDigit = false) : character ≠ excluded := by
    rintro rfl
    simp [digit] at symbol
  simp [isNameChar, Text.isBlank_of_isDigit digit, other '(' rfl, other ')' rfl,
    other negationSign rfl]

/-- The letter and digits that clause files and random formulas name variables by. -/
theorem isName_numbered (number : Nat) : isName ("p" ++ toString number) = true := by
  rw [isName_iff]
  refine ⟨by simp, ?_, ?_⟩
  · intro reserved
    have letter : ∀ word ∈ reservedNames, word.toList.head? ≠ some 'p' := by decide
    exact letter _ reserved (by simp)
  · intro character member
    rw [String.toList_append, List.mem_append] at member
    rcases member with letter | digit
    · obtain rfl : character = 'p' := by simpa using letter
      decide
    · exact isNameChar_of_isDigit (Text.isDigit_of_mem_toString digit)

end Literal

/-! ## Rows of names -/

/-- The literals of a row go by names. -/
def NamedClause.Spellable (row : NamedClause) : Prop :=
  ∀ named ∈ row, Literal.isName named.1 = true

/-- All registered names can be spelled. -/
def Registry.Spellable (registry : Registry) : Prop :=
  ∀ name ∈ registry.names, Literal.isName name = true

theorem Registry.spellable_empty : Registry.empty.Spellable :=
  fun _ none => absurd none List.not_mem_nil

theorem Infix.MoreLiterals.spellable {tokens : List Infix.Token} {row : NamedClause}
    (derived : Infix.MoreLiterals form tokens row) : row.Spellable := by
  induction derived with
  | none => exact nofun
  | some _ spells _ ih => exact List.forall_mem_cons.mpr ⟨Literal.isName_of_split? spells, ih⟩

theorem Infix.ClauseText.spellable {tokens : List Infix.Token} {row : NamedClause}
    (derived : Infix.ClauseText form tokens row) : row.Spellable := by
  cases derived with
  | bare spells => exact List.forall_mem_cons.mpr ⟨Literal.isName_of_split? spells, nofun⟩
  | empty => exact nofun
  | row spells others =>
      exact List.forall_mem_cons.mpr ⟨Literal.isName_of_split? spells, others.spellable⟩

theorem Infix.MoreClauses.spellable {tokens : List Infix.Token} {rows : List NamedClause}
    (derived : Infix.MoreClauses form tokens rows) : ∀ row ∈ rows, row.Spellable := by
  induction derived with
  | none => exact nofun
  | some _ clause _ ih => exact List.forall_mem_cons.mpr ⟨clause.spellable, ih⟩

theorem Infix.FormulaText.spellable {tokens : List Infix.Token} {rows : List NamedClause}
    (derived : Infix.FormulaText form tokens rows) : ∀ row ∈ rows, row.Spellable := by
  cases derived with
  | empty => exact nofun
  | clauses first others => exact List.forall_mem_cons.mpr ⟨first.spellable, others.spellable⟩

theorem Dimacs.InOrder.spellable {announced : Prop} {words : List String}
    {clauses : List NamedClause} (ordered : Dimacs.InOrder announced words clauses) :
    ∀ row ∈ clauses, row.Spellable := by
  cases ordered with
  | blank | comment | repeated | problem => exact nofun
  | integers =>
      intro row member named inside
      obtain ⟨run, _, rfl⟩ := List.mem_map.mp member
      obtain ⟨value, _, rfl⟩ := List.mem_map.mp inside
      exact Literal.isName_numbered value.natAbs

theorem Dimacs.Meaning.spellable {lines : List (List UInt8)} {rows : List NamedClause}
    (meaning : Dimacs.Meaning lines rows) : ∀ row ∈ rows, row.Spellable := by
  induction meaning with
  | nil => exact nofun
  | concat _ _ ordered ih => exact List.forall_mem_append.mpr ⟨ih, ordered.spellable⟩

section Draws

variable {γ : Type} [RandomSource γ]

theorem Sampling.spellable_drawPolarities (numbers : List Nat) (source : γ) :
    (Sampling.drawPolarities numbers source).1.Spellable := by
  induction numbers generalizing source with
  | nil => exact nofun
  | cons number rest ih =>
      exact List.forall_mem_cons.mpr ⟨Literal.isName_numbered number, ih _⟩

theorem Sampling.spellable_drawClauses (width count : Nat) (pool : Array Nat) (source : γ) :
    ∀ row ∈ (Sampling.drawClauses width count pool source).1, row.Spellable := by
  induction count generalizing pool source with
  | zero => exact nofun
  | succ count ih =>
      exact List.forall_mem_cons.mpr ⟨Sampling.spellable_drawPolarities _ _, ih _ _⟩

end Draws

/-! ## Registries of formulas -/

namespace Formula

/-- Names that can be spelled stay so when clauses of such names are added. -/
theorem spellable_withRows {formula : Formula form} (distinct : formula.registry.names.Nodup)
    (spellable : formula.registry.Spellable) {rows : List NamedClause}
    (added : ∀ row ∈ rows, row.Spellable) : (formula.withRows rows).registry.Spellable := by
  intro name member
  have inside : name ∈ (formula.registry.numberRows rows).2.names := member
  rw [Registry.names_numberRows distinct, List.mem_eraseDups, List.mem_append] at inside
  rcases inside with known | new
  · exact spellable name known
  · obtain ⟨named, there, rfl⟩ := List.mem_map.mp new
    obtain ⟨row, inRows, inRow⟩ := List.mem_flatten.mp there
    exact added row inRows named inRow

theorem spellable_ofNamed {rows : List NamedClause} (spellable : ∀ row ∈ rows, row.Spellable) :
    (ofNamed rows : Formula form).registry.Spellable :=
  spellable_withRows List.nodup_nil Registry.spellable_empty spellable

theorem readLiteral_mapM_eq_ok_iff {texts : List String} {row : NamedClause} :
    texts.mapM readLiteral = .ok row ↔ Infix.Spells texts row := by
  apply Outcomes.mapM_eq_ok_iff_map_eq
  intro text named
  unfold readLiteral
  cases Literal.split? text <;> simp

/-- A clause that is added by name is a row that its texts spell. -/
theorem exists_row_of_addClause {formula longer : Formula form} {texts : List String}
    (fits : formula.numVars ≤ Literal.maxVar) (added : formula.addClause texts = .ok longer) :
    ∃ row, Infix.Spells texts row ∧ longer = formula.withRows [row] := by
  obtain ⟨row, taken, _, same⟩ := (addClause_eq_ok_iff fits).mp added
  refine ⟨row, readLiteral_mapM_eq_ok_iff.mp taken, ?_⟩
  rw [withRows_cons, withRows_nil, same]

theorem spellable_of_spells {texts : List String} {row : NamedClause}
    (spells : Infix.Spells texts row) : row.Spellable := by
  intro named member
  have spelled : some named ∈ texts.map Literal.split? := spells ▸ List.mem_map_of_mem member
  obtain ⟨text, _, split⟩ := List.mem_map.mp spelled
  exact Literal.isName_of_split? split

theorem spellable_namedRows {formula : Formula form} (spellable : formula.registry.Spellable) :
    ∀ row ∈ formula.namedRows, row.Spellable := by
  intro row member named inside
  obtain ⟨clause, _, rfl⟩ := List.mem_map.mp member
  obtain ⟨literal, _, known⟩ := List.mem_filterMap.mp inside
  obtain ⟨name, there, rfl⟩ := Option.map_eq_some_iff.mp known
  exact spellable name (List.mem_of_getElem? (Registry.name?_eq_some_iff.mp there).2)

end Formula

/-- Every registered name can be spelled, whatever the history of the formula. -/
theorem Obtainable.spellable {formula : Formula form} (obtained : Obtainable formula) :
    formula.registry.Spellable := by
  induction obtained with
  | empty => exact Registry.spellable_empty
  | parse read =>
      obtain ⟨rows, derived, _, rfl⟩ := Formula.parse_eq_ok_iff.mp read
      exact Formula.spellable_ofNamed derived.spellable
  | addClause before added ih =>
      obtain ⟨row, spells, rfl⟩ := Formula.exists_row_of_addClause before.numVars_le added
      exact Formula.spellable_withRows before.wellFormed.names_nodup ih
        (List.forall_mem_singleton.mpr (Formula.spellable_of_spells spells))
  | pushClause _ pushed ih =>
      obtain ⟨_, _, same⟩ := Outcomes.bind_eq_ok.mp pushed
      obtain rfl := Except.ok.inj same
      exact ih
  | append before _ appended ih otherIh =>
      obtain ⟨_, rfl⟩ := (Formula.append_eq_ok_iff before.numVars_le).mp appended
      exact Formula.spellable_withRows before.wellFormed.names_nodup ih
        (Formula.spellable_namedRows otherIh)
  | simplify _ ih => exact ih
  | reduce _ applied ih => rwa [Formula.registry_of_reduce applied]
  | distribute _ ih => exact ih
  | readDimacs read =>
      obtain ⟨_, rows, _, meaning, _, rfl⟩ := Dimacs.exists_meaning_of_read read
      exact Formula.spellable_ofNamed meaning.spellable
  | random drawn =>
      obtain ⟨_, _, rfl, _⟩ := Formula.random_eq_ok drawn
      exact Formula.spellable_ofNamed (Sampling.spellable_drawClauses _ _ _ _)

end ChronoSat
