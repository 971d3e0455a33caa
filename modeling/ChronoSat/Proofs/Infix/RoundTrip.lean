/-
# Formula text that is written and read

Writing a formula depends on its clauses by name only, and the text is one that the
grammar derives for those rows: names are words, so are connectives, and what stands
between them separates. So the text of any formula is read, as the formula that its rows
build. That is the formula itself if its registry is in order, and in any case one with
the same rows, which is written the same way.
-/

import ChronoSat.Infix.Writer
import ChronoSat.Proofs.Formula.Gathered
import ChronoSat.Proofs.Text.Joining

namespace ChronoSat.Infix

variable {form : NormalForm}

/-! ## Names and connectives in a text -/

theorem unbroken_symbol (connective : Connective) :
    Text.Unbroken tokenBreak connective.symbol := by
  cases connective <;> decide

theorem unbroken_spell {name : String} (valid : Literal.isName name = true) (polarity : Bool) :
    Text.Unbroken tokenBreak (Literal.spell name polarity) := by
  obtain ⟨nonempty, _, visible⟩ := Literal.isName_iff.mp valid
  have inner : ∀ character ∈ name.toList, tokenBreak character = none := by
    intro character member
    have said := visible character member
    simp only [Literal.isNameChar, Bool.not_eq_true', Bool.or_eq_false_iff, beq_eq_false_iff_ne]
      at said
    obtain ⟨⟨⟨notBlank, notOpening⟩, notClosing⟩, _⟩ := said
    simp [tokenBreak, notBlank, notOpening, notClosing]
  cases polarity with
  | true => exact ⟨nonempty, inner⟩
  | false =>
      rw [Text.Unbroken, Literal.toList_spell_false, List.forall_mem_cons]
      exact ⟨List.cons_ne_nil _ _, by decide, inner⟩

/-- What stands between two parts of a text that a connective joins. -/
def separator (connective : Connective) : String :=
  " " ++ connective.symbol ++ " "

theorem toList_separator (connective : Connective) :
    (separator connective).toList = ' ' :: (connective.symbol.toList ++ [' ']) := by
  simp [separator]

theorem tokenBreak_space : tokenBreak ' ' = some [] := by decide

theorem isTokens_separator {text : List Char} {tokens : List Token} (connective : Connective)
    (rest : IsTokens text tokens) :
    IsTokens ((separator connective).toList ++ text) (.word connective.symbol :: tokens) := by
  have stops : Text.Stops tokenBreak (' ' :: text) :=
    Text.stops_cons text (by simp [tokenBreak_space])
  have word : IsTokens _ (.word connective.symbol :: tokens) :=
    (unbroken_symbol connective).lexed stops (.stop tokenBreak_space rest)
  rw [toList_separator, List.cons_append, List.append_assoc]
  exact .stop tokenBreak_space word

theorem stops_joined {text : List Char} (connective : Connective) (parts : List String)
    (stops : Text.Stops tokenBreak text) :
    Text.Stops tokenBreak (Text.joined (separator connective) parts ++ text) := by
  cases parts with
  | nil => exact stops
  | cons part rest =>
      rw [Text.joined_cons, toList_separator]
      exact Text.stops_cons _ (by simp [tokenBreak_space])

/-! ## Rows as text -/

/-- The literals of a row as text. -/
def spelled (row : NamedClause) : List String :=
  row.map fun named => Literal.spell named.1 named.2

/-- A row as the text of a clause. -/
def rowText (form : NormalForm) (row : NamedClause) : String :=
  let body := (separator form.inner).intercalate (spelled row)
  if row.length = 1 then body else "(" ++ body ++ ")"

theorem joins_symbol (connective : Connective) : Joins connective connective.symbol := by
  cases connective with
  | conj => exact .wedge
  | disj => exact .letter

theorem isTokens_opening {text : List Char} {tokens : List Token} (rest : IsTokens text tokens) :
    IsTokens ('(' :: text) (.opening :: tokens) :=
  Text.Lexed.stop (show tokenBreak '(' = some [.opening] by decide) rest

theorem isTokens_closing {text : List Char} {tokens : List Token} (rest : IsTokens text tokens) :
    IsTokens (')' :: text) (.closing :: tokens) :=
  Text.Lexed.stop (show tokenBreak ')' = some [.closing] by decide) rest

theorem stops_closing (text : List Char) : Text.Stops tokenBreak (')' :: text) :=
  Text.stops_cons text (by decide)

theorem exists_moreLiterals (form : NormalForm) {row : NamedClause} (spellable : row.Spellable)
    {text : List Char} {tokens : List Token} (stops : Text.Stops tokenBreak text)
    (rest : IsTokens text tokens) :
    ∃ front, MoreLiterals form front row ∧
      IsTokens (Text.joined (separator form.inner) (spelled row) ++ text) (front ++ tokens) := by
  induction row with
  | nil => exact ⟨[], .none, rest⟩
  | cons named row ih =>
      obtain ⟨valid, others⟩ := List.forall_mem_cons.mp spellable
      obtain ⟨front, derived, lexed⟩ := ih others
      refine ⟨_, .some (joins_symbol form.inner) (Literal.split?_spell valid named.2)
        derived, ?_⟩
      have word : IsTokens _ (.word (Literal.spell named.1 named.2) :: (front ++ tokens)) :=
        (unbroken_spell valid named.2).lexed (stops_joined form.inner (spelled row) stops) lexed
      rw [spelled, List.map_cons, Text.joined_cons, List.append_assoc, List.append_assoc]
      exact isTokens_separator form.inner word

/-- The text of a row is a clause of the grammar, if what follows it ends a word. -/
theorem exists_clauseText (form : NormalForm) {row : NamedClause} (spellable : row.Spellable)
    {text : List Char} {tokens : List Token} (stops : Text.Stops tokenBreak text)
    (rest : IsTokens text tokens) :
    ∃ front, ClauseText form front row ∧
      IsTokens ((rowText form row).toList ++ text) (front ++ tokens) := by
  match row with
  | [] =>
      have body : (rowText form []).toList = ['(', ')'] := by simp [rowText, spelled]
      refine ⟨_, .empty, ?_⟩
      rw [body]
      exact isTokens_opening (isTokens_closing rest)
  | [named] =>
      have valid := spellable named List.mem_cons_self
      refine ⟨_, .bare (Literal.split?_spell valid named.2), ?_⟩
      have bare : rowText form [named] = Literal.spell named.1 named.2 := by
        simp [rowText, spelled]
      rw [bare]
      exact (unbroken_spell valid named.2).lexed stops rest
  | named :: second :: row =>
      obtain ⟨valid, others⟩ := List.forall_mem_cons.mp spellable
      obtain ⟨front, derived, lexed⟩ :=
        exists_moreLiterals form others (stops_closing text) (isTokens_closing rest)
      refine ⟨_, .row (Literal.split?_spell valid named.2) derived, ?_⟩
      have body : (rowText form (named :: second :: row)).toList = '(' ::
          ((Literal.spell named.1 named.2).toList ++
            Text.joined (separator form.inner) (spelled (second :: row))) ++ [')'] := by
        rw [← Text.toList_intercalate]
        simp [rowText, spelled]
      have word := (unbroken_spell valid named.2).lexed
        (stops_joined form.inner (spelled (second :: row)) (stops_closing text)) lexed
      rw [body]
      simpa using isTokens_opening word

/-- The text of a row is a clause, too, if it goes on with further clauses. -/
theorem exists_clauseText_joined {row : NamedClause} (spellable : row.Spellable)
    {rows : List NamedClause} {back : List Token}
    (rest : IsTokens (Text.joined (separator form.outer) (rows.map (rowText form))) back) :
    ∃ front, ClauseText form front row ∧
      IsTokens ((rowText form row).toList ++
        Text.joined (separator form.outer) (rows.map (rowText form))) (front ++ back) := by
  apply exists_clauseText form spellable _ rest
  simpa using stops_joined form.outer (rows.map (rowText form)) Text.stops_nil

theorem exists_moreClauses (form : NormalForm) {rows : List NamedClause}
    (spellable : ∀ row ∈ rows, row.Spellable) :
    ∃ tokens, MoreClauses form tokens rows ∧
      IsTokens (Text.joined (separator form.outer) (rows.map (rowText form))) tokens := by
  induction rows with
  | nil => exact ⟨[], .none, .nil⟩
  | cons row rows ih =>
      obtain ⟨rowSpellable, others⟩ := List.forall_mem_cons.mp spellable
      obtain ⟨back, derivedBack, lexedBack⟩ := ih others
      obtain ⟨front, derived, lexed⟩ := exists_clauseText_joined rowSpellable lexedBack
      refine ⟨_, .some (joins_symbol form.outer) derived derivedBack, ?_⟩
      rw [List.map_cons, Text.joined_cons]
      exact isTokens_separator form.outer lexed

/-- The text of rows is a formula of the grammar. -/
theorem exists_formulaText (form : NormalForm) {rows : List NamedClause}
    (spellable : ∀ row ∈ rows, row.Spellable) :
    ∃ tokens, FormulaText form tokens rows ∧
      IsTokens ((separator form.outer).intercalate (rows.map (rowText form))).toList tokens := by
  cases rows with
  | nil => exact ⟨[], .empty, .nil⟩
  | cons row rows =>
      obtain ⟨rowSpellable, others⟩ := List.forall_mem_cons.mp spellable
      obtain ⟨back, derivedBack, lexedBack⟩ := exists_moreClauses form others
      obtain ⟨front, derived, lexed⟩ := exists_clauseText_joined rowSpellable lexedBack
      refine ⟨_, .clauses derived derivedBack, ?_⟩
      rwa [List.map_cons, Text.toList_intercalate]

end ChronoSat.Infix

namespace ChronoSat.Formula

variable {form : NormalForm} {formula : Formula form}

/-- A literal over a registered variable is written by its name. -/
theorem literalText_eq_spell {registry : Registry} {literal : Literal}
    (inside : literal.var ≤ registry.size) :
    Clause.literalText registry literal =
      Literal.spell (Assignment.nameOf registry literal.var) literal.polarity := by
  rw [Clause.literalText, Registry.render_eq_ok inside]
  rfl

/-- The literals of a clause over registered variables are written by their names. -/
theorem map_literalText_eq_spelled {registry : Registry} {clause : Clause}
    (inside : ∀ literal ∈ clause.literals, literal.var ≤ registry.size) :
    clause.literals.map (Clause.literalText registry) =
      Infix.spelled (namedLiterals registry clause) := by
  rw [namedLiterals_eq_map inside, Infix.spelled, List.map_map]
  exact List.map_congr_left fun literal there => literalText_eq_spell (inside literal there)

/-- Clauses are written by their rows. -/
theorem WellFormed.map_render_eq (wellFormed : formula.WellFormed) :
    formula.clauses.map (fun clause => clause.render formula.registry) =
      formula.namedRows.map (Infix.rowText form) := by
  rw [namedRows, List.map_map]
  refine List.map_congr_left fun clause member => ?_
  have inside := wellFormed.var_le clause member
  have size : (namedLiterals formula.registry clause).length = clause.literals.length := by
    rw [namedLiterals_eq_map inside, List.length_map]
  by_cases single : clause.literals.length = 1 <;>
    simp [Clause.render, Clause.isUnit, Infix.rowText, Infix.separator,
      map_literalText_eq_spelled inside, size, single, wellFormed.connective_eq clause member]

/-- A formula is written by its rows. -/
theorem WellFormed.render_eq (wellFormed : formula.WellFormed) :
    formula.render =
      (Infix.separator form.outer).intercalate (formula.namedRows.map (Infix.rowText form)) := by
  rw [← wellFormed.map_render_eq]
  rfl

theorem numerable_namedRows (fits : formula.numVars ≤ Literal.maxVar) :
    Numerable formula.namedRows := by
  have known : formula.namedRows.flatten.map Prod.fst ⊆ formula.registry.names := by
    intro name member
    obtain ⟨named, inRows, rfl⟩ := List.mem_map.mp member
    obtain ⟨row, there, inRow⟩ := List.mem_flatten.mp inRows
    obtain ⟨clause, _, rfl⟩ := List.mem_map.mp there
    exact fst_namedLiterals_subset formula.registry clause (List.mem_map_of_mem inRow)
  exact numerable_of_subset known fits

/-- Any formula's text is read, as the formula that its rows build. -/
theorem parse_render_eq (obtained : Obtainable formula) :
    parse formula.render = .ok (ofNamed formula.namedRows : Formula form) := by
  obtain ⟨tokens, derived, lexed⟩ :=
    Infix.exists_formulaText form (spellable_namedRows obtained.spellable)
  rw [← obtained.wellFormed.render_eq] at lexed
  obtain rfl := Infix.tokens_eq_iff.mpr lexed
  exact parse_eq_ok_iff.mpr ⟨_, derived, numerable_namedRows obtained.numVars_le, rfl⟩

/-- A formula whose registry is in order is read back from its text. -/
theorem parse_render_of_inFirstSeenOrder (obtained : Obtainable formula)
    (ordered : formula.InFirstSeenOrder) : parse formula.render = .ok formula := by
  rw [parse_render_eq obtained,
    ← numberedFrom_iff.mp (obtained.wellFormed.numberedFrom_namedRows ordered)]

/-- Writing and reading formula text. A gathered formula is read back from its text, registry
included. The text of any formula is read as one that is written the same way. And a formula
that was read from any text is read back from its own. -/
theorem parse_render (form : NormalForm) :
    (∀ formula : Formula form, Gathered formula → parse formula.render = .ok formula) ∧
    (∀ formula : Formula form, Obtainable formula →
      ∃ reread : Formula form, parse formula.render = .ok reread ∧
        reread.render = formula.render) ∧
    ∀ (text : String) (formula : Formula form), parse text = .ok formula →
      parse formula.render = .ok formula := by
  refine ⟨?_, ?_, ?_⟩
  · intro formula gathered
    exact parse_render_of_inFirstSeenOrder gathered.obtainable gathered.inFirstSeenOrder
  · intro formula obtained
    refine ⟨_, parse_render_eq obtained, ?_⟩
    rw [(wellFormed_ofNamed _).render_eq, obtained.wellFormed.render_eq,
      (numberedFrom_ofNamed _).namedRows_eq]
  · intro text formula read
    exact parse_render_of_inFirstSeenOrder (.parse read) (Gathered.parse read).inFirstSeenOrder

theorem parse_render_twoLiterals :
    parse (ofNamed [[("b", true), ("a", false)]] : Cnf).render =
      .ok (ofNamed [[("b", true), ("a", false)]] : Cnf) :=
  (parse_render .conjunctive).1 _ gathered_twoLiterals

end ChronoSat.Formula
