/-
# The grammar of formula text

A formula is nothing, or a clause followed by further clauses, each behind the
formula's connective. A clause is a bare literal or a row in parentheses, which may be
empty, with the clause's connective between the literals.

The reader goes through the tokens one by one. What it still asks of them at a stage
is a piece of the grammar, `Expected`: one token turns what is expected at its stage
into what is expected at the next. So the reader accepts what the grammar derives and
nothing else, and gives the rows of the derivation.

It registers the names of a clause before it looks at what follows. So numbers may run out
in a text whether it is one of the grammar or not: they do if the clauses that are complete
use too many names, and these are the clauses of the longest beginning that is derived.
-/

import ChronoSat.Proofs.Formula.Numbering
import ChronoSat.Proofs.Text.Cutting

namespace ChronoSat.Infix

variable {form : NormalForm}

/-! ## Derivations -/

/-- The words that join as a connective does: a letter or a sign for *or*, a sign for *and*. -/
inductive Joins : Connective → String → Prop
  | letter : Joins .disj "v"
  | vee : Joins .disj "∨"
  | wedge : Joins .conj "∧"

/-- Further literals of a row, each behind the connective of the clause. -/
inductive MoreLiterals (form : NormalForm) : List Token → NamedClause → Prop
  | none : MoreLiterals form [] []
  | some {joint word : String} {named : String × Bool} {tokens : List Token} {row : NamedClause}
      (joins : Joins form.inner joint) (spells : Literal.split? word = some named)
      (others : MoreLiterals form tokens row) :
      MoreLiterals form (.word joint :: .word word :: tokens) (named :: row)

/-- The tokens of a clause and its literals by name. -/
inductive ClauseText (form : NormalForm) : List Token → NamedClause → Prop
  /-- A literal stands by itself. -/
  | bare {word : String} {named : String × Bool} (spells : Literal.split? word = some named) :
      ClauseText form [.word word] [named]
  /-- Nothing stands between the parentheses. -/
  | empty : ClauseText form [.opening, .closing] []
  /-- Literals stand between the parentheses. -/
  | row {word : String} {named : String × Bool} {tokens : List Token} {row : NamedClause}
      (spells : Literal.split? word = some named) (others : MoreLiterals form tokens row) :
      ClauseText form (.opening :: .word word :: (tokens ++ [.closing])) (named :: row)

/-- Further clauses, each behind the connective of the formula. -/
inductive MoreClauses (form : NormalForm) : List Token → List NamedClause → Prop
  | none : MoreClauses form [] []
  | some {word : String} {front back : List Token} {row : NamedClause} {rows : List NamedClause}
      (separates : Joins form.outer word) (clause : ClauseText form front row)
      (others : MoreClauses form back rows) :
      MoreClauses form (.word word :: (front ++ back)) (row :: rows)

/-- The tokens of a formula and its clauses by name. -/
inductive FormulaText (form : NormalForm) : List Token → List NamedClause → Prop
  | empty : FormulaText form [] []
  | clauses {front back : List Token} {row : NamedClause} {rows : List NamedClause}
      (first : ClauseText form front row) (others : MoreClauses form back rows) :
      FormulaText form (front ++ back) (row :: rows)

theorem ClauseText.ne_nil {tokens : List Token} {row : NamedClause}
    (clause : ClauseText form tokens row) : tokens ≠ [] := by
  cases clause <;> exact List.cons_ne_nil _ _

/-! A literal takes a token, so a row of tokens derives no more literals than its length. -/

section Length

variable {tokens : List Token} {row : NamedClause} {rows : List NamedClause}

theorem MoreLiterals.length_le (literals : MoreLiterals form tokens row) :
    row.length ≤ tokens.length := by
  induction literals with
  | none => exact Nat.le_refl 0
  | some _ _ _ ih =>
      simp only [List.length_cons]
      omega

theorem ClauseText.length_le (clause : ClauseText form tokens row) :
    row.length ≤ tokens.length := by
  cases clause with
  | bare => exact Nat.le_refl 1
  | empty => exact Nat.zero_le 2
  | row _ others =>
      have behind := others.length_le
      simp only [List.length_cons, List.length_append, List.length_nil]
      omega

theorem MoreClauses.length_le (clauses : MoreClauses form tokens rows) :
    rows.flatten.length ≤ tokens.length := by
  induction clauses with
  | none => exact Nat.le_refl 0
  | some _ clause _ ih =>
      have first := clause.length_le
      simp only [List.flatten_cons, List.length_append, List.length_cons]
      omega

theorem FormulaText.length_le (text : FormulaText form tokens rows) :
    rows.flatten.length ≤ tokens.length := by
  cases text with
  | empty => exact Nat.le_refl 0
  | clauses clause others =>
      have first := clause.length_le
      have behind := others.length_le
      simp only [List.flatten_cons, List.length_append]
      omega

end Length

theorem joins_iff {connective : Connective} {word : String} :
    Joins connective word ↔ connective.matchesWord word = true := by
  rw [Connective.matchesWord, List.contains_iff_mem]
  constructor
  · rintro (_ | _ | _) <;> simp [Connective.spellings]
  · intro spelled
    cases connective with
    | conj =>
        obtain rfl := List.mem_singleton.mp spelled
        exact .wedge
    | disj =>
        obtain rfl | other := List.mem_cons.mp spelled
        · exact .letter
        · obtain rfl := List.mem_singleton.mp other
          exact .vee

/-! ## What a stage expects -/

/-- Words and the literals that they spell, one for one. -/
def Spells (words : List String) (row : NamedClause) : Prop :=
  words.map Literal.split? = row.map some

/-- The rest of a row and what follows it, behind the words of the row so far. -/
inductive AfterLiteral (form : NormalForm) (latestFirst : List String) :
    List Token → List NamedClause → Prop
  | intro {inside behind : List Token} {spelled row : NamedClause} {rows : List NamedClause}
      (spells : Spells latestFirst.reverse spelled) (literals : MoreLiterals form inside row)
      (clauses : MoreClauses form behind rows) :
      AfterLiteral form latestFirst (inside ++ .closing :: behind) ((spelled ++ row) :: rows)

/-- What may follow a parenthesis or a connective of the clause: a literal, or the end of a
row without words. -/
inductive AfterJoint (form : NormalForm) :
    List String → List Token → List NamedClause → Prop
  | empty {behind : List Token} {rows : List NamedClause}
      (clauses : MoreClauses form behind rows) :
      AfterJoint form [] (.closing :: behind) ([] :: rows)
  | literal {latestFirst : List String} {word : String} {tokens : List Token}
      {rows : List NamedClause} (rest : AfterLiteral form (word :: latestFirst) tokens rows) :
      AfterJoint form latestFirst (.word word :: tokens) rows

/-- The tokens that the reader accepts at a stage, and the rows that they complete. -/
def Expected (form : NormalForm) : Stage → List Token → List NamedClause → Prop
  | .start, tokens, rows => FormulaText form tokens rows
  | .clause, tokens, rows => FormulaText form tokens rows ∧ tokens ≠ []
  | .separator, tokens, rows => MoreClauses form tokens rows
  | .literal latestFirst, tokens, rows => AfterJoint form latestFirst tokens rows
  | .joint latestFirst, tokens, rows => AfterLiteral form latestFirst tokens rows

/-- What a stage expects of the tokens behind one that is taken there: that the stage it
leads to accepts them, and that the clause it completes comes before those they complete. -/
def Leads (form : NormalForm) (taken : Except Error (Option NamedClause × Stage))
    (tokens : List Token) (rows : List NamedClause) : Prop :=
  ∃ completed next more, taken = .ok (completed, next) ∧
    Expected form next tokens more ∧ rows = completed.toList ++ more

section Leads

variable {next : Stage} {row : NamedClause} {tokens : List Token} {rows : List NamedClause}

@[simp] theorem not_leads_error {problem : Error} :
    ¬Leads form (.error problem) tokens rows :=
  nofun

@[simp] theorem leads_ok_none :
    Leads form (.ok (none, next)) tokens rows ↔ Expected form next tokens rows := by
  constructor
  · rintro ⟨_, _, _, ⟨⟩, expected, rfl⟩
    exact expected
  · exact fun expected => ⟨none, next, rows, rfl, expected, rfl⟩

@[simp] theorem leads_ok_some :
    Leads form (.ok (some row, next)) tokens rows ↔
      ∃ more, Expected form next tokens more ∧ rows = row :: more := by
  constructor
  · rintro ⟨_, _, more, ⟨⟩, expected, rfl⟩
    exact ⟨more, expected, rfl⟩
  · rintro ⟨more, expected, rfl⟩
    exact ⟨some row, next, more, rfl, expected, rfl⟩

end Leads

/-! ## Words that spell literals -/

/-- A connective spells no literal. -/
theorem isConnective_of_split? {word : String} {named : String × Bool}
    (spells : Literal.split? word = some named) : form.isConnective word = false := by
  have refused : ∀ reserved ∈ Literal.reservedNames, Literal.split? reserved = none := by
    decide
  have unmatched (connective : Connective) : connective.matchesWord word = false := by
    have reserved : ∀ spelling ∈ connective.spellings, spelling ∈ Literal.reservedNames := by
      cases connective <;> decide
    rw [← Bool.not_eq_true]
    intro spelled
    rw [refused word (reserved word (List.contains_iff_mem.mp spelled))] at spells
    cases spells
  rw [NormalForm.isConnective, unmatched, unmatched, Bool.or_false]

theorem spells_concat {words : List String} {word : String} {row : NamedClause} :
    Spells (words ++ [word]) row ↔
      ∃ front named, row = front ++ [named] ∧ Spells words front ∧
        Literal.split? word = some named := by
  constructor
  · intro spells
    rw [Spells, List.map_append, List.append_eq_map_iff] at spells
    obtain ⟨front, back, rfl, spells, last⟩ := spells
    rw [List.map_singleton, List.map_eq_singleton_iff] at last
    obtain ⟨named, rfl, spelled⟩ := last
    exact ⟨front, named, rfl, spells.symm, spelled.symm⟩
  · rintro ⟨front, named, rfl, spells, spelled⟩
    rw [Spells, List.map_append, spells, List.map_append, List.map_singleton, spelled]
    rfl

theorem spells_singleton {word : String} {row : NamedClause} :
    Spells [word] row ↔ ∃ named, row = [named] ∧ Literal.split? word = some named := by
  rw [Spells, List.map_singleton, eq_comm, List.map_eq_singleton_iff]
  simp only [eq_comm]

theorem namedLiterals_eq_ok {position : Nat} {words : List String} {row : NamedClause} :
    namedLiterals position words = .ok row ↔ Spells words row := by
  apply Outcomes.mapM_eq_ok_iff_map_eq
  intro word named
  cases Literal.split? word <;> simp

theorem exists_complaint_of_namedLiterals {position : Nat} {words : List String}
    {problem : Error} (failed : namedLiterals position words = .error problem) :
    ∃ complaint, problem = .formulaText position complaint := by
  obtain ⟨_, word, _, _, _, failed⟩ := Outcomes.mapM_eq_error_iff.mp failed
  cases spelled : Literal.split? word with
  | none =>
      rw [spelled] at failed
      exact ⟨.badLiteral word, (Except.error.inj failed).symm⟩
  | some named =>
      rw [spelled] at failed
      cases failed

/-! ## One token -/

section Step

variable {position : Nat} {latestFirst : List String} {token : Token} {tokens : List Token}
  {rows : List NamedClause}

/-- Behind a clause an outer connective has to follow, and then a clause. -/
theorem moreClauses_cons_iff :
    MoreClauses form (token :: tokens) rows ↔
      Leads form (takeSeparator form position token) tokens rows := by
  constructor
  · rintro (_ | ⟨separates, clause, others⟩)
    rw [takeSeparator, if_pos (joins_iff.mp separates), leads_ok_none]
    exact ⟨.clauses clause others, List.append_ne_nil_of_left_ne_nil clause.ne_nil _⟩
  · intro leads
    cases token with
    | word word =>
        rw [takeSeparator] at leads
        split at leads
        · next separates =>
            obtain ⟨text, nonempty⟩ := leads_ok_none.mp leads
            cases text with
            | empty => exact absurd rfl nonempty
            | clauses first others => exact .some (joins_iff.mpr separates) first others
        · simp at leads
    | opening => simp [takeSeparator] at leads
    | closing => simp [takeSeparator] at leads

/-- A literal of a row has to follow, or the end of a row without words. -/
theorem afterJoint_cons_iff :
    AfterJoint form latestFirst (token :: tokens) rows ↔
      Leads form (takeLiteral form position latestFirst token) tokens rows := by
  constructor
  · rintro (⟨clauses⟩ | ⟨rest⟩)
    · exact leads_ok_some.mpr ⟨_, clauses, rfl⟩
    · have after := rest
      obtain ⟨spells, _, _⟩ := rest
      rw [List.reverse_cons, spells_concat] at spells
      obtain ⟨_, named, _, _, spelled⟩ := spells
      rw [takeLiteral, isConnective_of_split? spelled]
      exact leads_ok_none.mpr after
  · intro leads
    cases token with
    | word word =>
        rw [takeLiteral] at leads
        split at leads
        · simp at leads
        · exact .literal (leads_ok_none.mp leads)
    | opening => simp [takeLiteral] at leads
    | closing =>
        cases latestFirst with
        | nil =>
            obtain ⟨more, clauses, rfl⟩ := leads_ok_some.mp leads
            exact .empty clauses
        | cons word earlier => simp [takeLiteral] at leads

/-- Behind a literal of a row the row goes on or ends, and its words have to spell literals. -/
theorem afterLiteral_cons_iff (behindWord : latestFirst ≠ []) :
    AfterLiteral form latestFirst (token :: tokens) rows ↔
      Leads form (takeJoint form position latestFirst token) tokens rows := by
  constructor
  · intro after
    generalize whole : token :: tokens = all at after
    obtain ⟨spells, literals, clauses⟩ := after
    cases literals with
    | none =>
        obtain ⟨rfl, rfl⟩ := List.cons.inj whole
        rw [takeJoint, namedLiterals_eq_ok.mpr spells]
        exact leads_ok_some.mpr ⟨_, clauses, by simp⟩
    | @some joint word named inside row joins spelled others =>
        obtain ⟨rfl, rfl⟩ := List.cons.inj whole
        rw [takeJoint, if_pos (joins_iff.mp joins), leads_ok_none]
        have longer : Spells (word :: latestFirst).reverse _ :=
          List.reverse_cons ▸ spells_concat.mpr ⟨_, named, rfl, spells, spelled⟩
        have after := AfterLiteral.intro longer others clauses
        rw [List.append_assoc] at after
        exact .literal after
  · intro leads
    cases token with
    | word joint =>
        rw [takeJoint] at leads
        split at leads
        · next joins =>
            obtain _ | ⟨spells, others, clauses⟩ := leads_ok_none.mp leads
            · exact absurd rfl behindWord
            · rw [List.reverse_cons, spells_concat] at spells
              obtain ⟨spelled, named, rfl, earlier, last⟩ := spells
              have after :=
                AfterLiteral.intro earlier (.some (joins_iff.mpr joins) last others) clauses
              rwa [List.append_cons spelled] at after
        · simp at leads
    | opening => simp [takeJoint] at leads
    | closing =>
        rw [takeJoint] at leads
        cases spelled : namedLiterals (position + 1) latestFirst.reverse with
        | error problem => simp [spelled, bind, Except.bind] at leads
        | ok row =>
            rw [spelled] at leads
            obtain ⟨more, clauses, rfl⟩ := leads_ok_some.mp leads
            have after := AfterLiteral.intro (namedLiterals_eq_ok.mp spelled) .none clauses
            simpa using after

/-- A clause has to begin. -/
theorem formulaText_cons_iff :
    FormulaText form (token :: tokens) rows ↔
      Leads form (beginClause form position token) tokens rows := by
  constructor
  · intro text
    generalize whole : token :: tokens = all at text
    obtain _ | ⟨first, others⟩ := text
    · cases whole
    cases first with
    | @bare word named spelled =>
        obtain ⟨rfl, rfl⟩ := List.cons.inj whole
        have spells : Spells [word] [named] := spells_singleton.mpr ⟨named, rfl, spelled⟩
        rw [beginClause, isConnective_of_split? spelled, namedLiterals_eq_ok.mpr spells]
        exact leads_ok_some.mpr ⟨_, others, rfl⟩
    | empty =>
        obtain ⟨rfl, rfl⟩ := List.cons.inj whole
        exact leads_ok_none.mpr (.empty others)
    | @row word named inside row spelled literals =>
        obtain ⟨rfl, rfl⟩ := List.cons.inj whole
        have spells : Spells [word].reverse [named] := spells_singleton.mpr ⟨named, rfl, spelled⟩
        have after := AfterLiteral.intro spells literals others
        exact leads_ok_none.mpr (.literal (by simpa using after))
  · intro leads
    cases token with
    | word word =>
        rw [beginClause] at leads
        split at leads
        · simp at leads
        cases spelled : namedLiterals (position + 1) [word] with
        | error problem => simp [spelled, bind, Except.bind] at leads
        | ok row =>
            rw [spelled] at leads
            obtain ⟨more, clauses, rfl⟩ := leads_ok_some.mp leads
            obtain ⟨named, rfl, last⟩ := spells_singleton.mp (namedLiterals_eq_ok.mp spelled)
            exact .clauses (.bare last) clauses
    | opening =>
        obtain clauses | ⟨spells, literals, clauses⟩ := leads_ok_none.mp leads
        · exact .clauses .empty clauses
        · obtain ⟨named, rfl, spelled⟩ := spells_singleton.mp spells
          have text := FormulaText.clauses (.row spelled literals) clauses
          simpa using text
    | closing => simp [beginClause] at leads

/-- A token turns what its stage expects into what the next one does. -/
theorem expected_cons_iff {stage : Stage} (position : Nat) (behindWord : stage ≠ .joint []) :
    Expected form stage (token :: tokens) rows ↔
      Leads form (step form position stage token) tokens rows := by
  cases stage with
  | start => exact formulaText_cons_iff
  | clause =>
      rw [Expected, and_iff_left (List.cons_ne_nil token tokens)]
      exact formulaText_cons_iff
  | separator => exact moreClauses_cons_iff
  | literal latestFirst => exact afterJoint_cons_iff
  | joint latestFirst => exact afterLiteral_cons_iff fun none => behindWord (none ▸ rfl)

end Step

/-- Nothing more is expected exactly where the text may end. -/
theorem expected_nil_iff (position : Nat) {stage : Stage} {rows : List NamedClause} :
    Expected form stage [] rows ↔ finish form position stage = .ok () ∧ rows = [] := by
  have nothing : FormulaText form [] rows ↔ rows = [] := by
    constructor
    · generalize none : [] = tokens
      rintro (_ | ⟨first, _⟩)
      · rfl
      · exact absurd (List.append_eq_nil_iff.mp none.symm).1 first.ne_nil
    · rintro rfl
      exact .empty
  cases stage with
  | start => exact nothing.trans (and_iff_right rfl).symm
  | clause => exact ⟨fun expected => absurd rfl expected.2, nofun⟩
  | separator =>
      constructor
      · rintro ⟨⟩
        exact ⟨rfl, rfl⟩
      · rintro ⟨_, rfl⟩
        exact .none
  | literal latestFirst => exact ⟨nofun, nofun⟩
  | joint latestFirst =>
      refine ⟨?_, nofun⟩
      generalize none : [] = tokens
      rintro ⟨_, _, _⟩
      exact absurd none (List.append_ne_nil_of_right_ne_nil _ (List.cons_ne_nil _ _)).symm

/-! ## What a token can lead to -/

/-- A token is refused with a complaint about the text, or completes a clause, so that the end
or an outer connective has to follow, or leads to a stage that does not stand behind a literal
without a word. -/
def Orderly : Except Error (Option NamedClause × Stage) → Prop
  | .error problem => ∃ position complaint, problem = .formulaText position complaint
  | .ok (some _, next) => next = .separator
  | .ok (none, next) => next ≠ .joint []

theorem Orderly.behindWord {completed : Option NamedClause} {next : Stage}
    (orderly : Orderly (.ok (completed, next))) : next ≠ .joint [] := by
  cases completed with
  | none => exact orderly
  | some row =>
      obtain rfl : next = .separator := orderly
      exact nofun

theorem orderly_completed (position : Nat) (words : List String) :
    Orderly (do return (some (← namedLiterals position words), .separator)) := by
  cases spelled : namedLiterals position words with
  | error problem =>
      obtain ⟨complaint, same⟩ := exists_complaint_of_namedLiterals spelled
      exact ⟨position, complaint, same⟩
  | ok row => exact rfl

theorem orderly_beginClause (position : Nat) (token : Token) :
    Orderly (beginClause form position token) := by
  cases token with
  | word word =>
      rw [beginClause]
      split
      · exact ⟨_, _, rfl⟩
      · exact orderly_completed _ _
  | opening => exact nofun
  | closing => exact ⟨_, _, rfl⟩

theorem orderly_step (position : Nat) (stage : Stage) (token : Token) :
    Orderly (step form position stage token) := by
  cases stage with
  | start => exact orderly_beginClause position token
  | clause => exact orderly_beginClause position token
  | separator =>
      cases token <;> simp only [step, takeSeparator]
      case word word =>
        split
        · exact nofun
        · exact ⟨_, _, rfl⟩
      all_goals exact ⟨_, _, rfl⟩
  | literal latestFirst =>
      cases token <;> simp only [step, takeLiteral]
      case word word =>
        split
        · exact ⟨_, _, rfl⟩
        · exact nofun
      case opening => exact ⟨_, _, rfl⟩
      case closing =>
        split
        · exact rfl
        · exact ⟨_, _, rfl⟩
  | joint latestFirst =>
      cases token <;> simp only [step, takeJoint]
      case word word =>
        split
        · exact nofun
        · exact ⟨_, _, rfl⟩
      case opening => exact ⟨_, _, rfl⟩
      case closing => exact orderly_completed _ _

/-! ## All tokens -/

section All

variable {position : Nat} {stage : Stage} {tokens front : List Token} {rows : List NamedClause}

theorem readFrom_cons_of_ok {token : Token} {completed : Option NamedClause} {next : Stage}
    (taken : step form position stage token = .ok (completed, next)) :
    readFrom form position stage (token :: tokens) =
      ⟨completed.toList ++ (readFrom form (position + 1) next tokens).rows,
        (readFrom form (position + 1) next tokens).ended⟩ := by
  rw [readFrom, taken]

theorem readFrom_cons_of_error {token : Token} {problem : Error}
    (refused : step form position stage token = .error problem) :
    readFrom form position stage (token :: tokens) = ⟨[], .error problem⟩ := by
  rw [readFrom, refused]

/-- From any stage on, the reader gives the rows of what is expected there. -/
theorem readFrom_eq_iff (behindWord : stage ≠ .joint []) :
    readFrom form position stage tokens = ⟨rows, .ok ()⟩ ↔ Expected form stage tokens rows := by
  induction tokens generalizing position stage rows with
  | nil =>
      rw [expected_nil_iff position, readFrom, Yield.mk.injEq, @eq_comm _ [], and_comm]
  | cons token rest ih =>
      have orderly : Orderly (step form position stage token) := orderly_step position stage token
      rw [expected_cons_iff position behindWord]
      cases taken : step form position stage token with
      | error problem => simp [readFrom_cons_of_error taken]
      | ok reached =>
          obtain ⟨completed, next⟩ := reached
          rw [taken] at orderly
          rw [readFrom_cons_of_ok taken, Yield.mk.injEq]
          constructor
          · rintro ⟨rfl, ended⟩
            exact ⟨completed, next, _, rfl, (ih orderly.behindWord).mp (Yield.ext rfl ended), rfl⟩
          · rintro ⟨_, _, more, ⟨⟩, expected, rfl⟩
            rw [(ih orderly.behindWord).mpr expected]
            exact ⟨rfl, rfl⟩

/-- The rows of a beginning that is expected are read, whatever is behind it. -/
theorem rows_prefix_readFrom (position : Nat) (behindWord : stage ≠ .joint [])
    (expected : Expected form stage front rows) (behind : List Token) :
    rows <+: (readFrom form position stage (front ++ behind)).rows := by
  induction front generalizing position stage rows with
  | nil =>
      obtain ⟨_, rfl⟩ := (expected_nil_iff position).mp expected
      exact List.nil_prefix
  | cons token rest ih =>
      have orderly : Orderly (step form position stage token) := orderly_step position stage token
      obtain ⟨completed, next, more, taken, others, rfl⟩ :=
        (expected_cons_iff position behindWord).mp expected
      rw [taken] at orderly
      rw [List.cons_append, readFrom_cons_of_ok taken]
      exact (List.prefix_append_right_inj _).mpr (ih (position + 1) orderly.behindWord others)

/-- The rows that are read are none or those of a beginning that is expected. -/
theorem exists_expected_of_readFrom (position : Nat) (behindWord : stage ≠ .joint []) :
    (readFrom form position stage tokens).rows = [] ∨
      ∃ front, front <+: tokens ∧
        Expected form stage front (readFrom form position stage tokens).rows := by
  induction tokens generalizing position stage with
  | nil => exact .inl rfl
  | cons token rest ih =>
      have orderly : Orderly (step form position stage token) := orderly_step position stage token
      cases taken : step form position stage token with
      | error problem => exact .inl (by rw [readFrom_cons_of_error taken])
      | ok reached =>
          obtain ⟨completed, next⟩ := reached
          rw [taken] at orderly
          have leads {front : List Token} {more : List NamedClause}
              (expected : Expected form next front more) :
              Expected form stage (token :: front) (completed.toList ++ more) :=
            (expected_cons_iff position behindWord).mpr
              ⟨completed, next, more, taken, expected, rfl⟩
          rw [readFrom_cons_of_ok taken]
          rcases ih (position + 1) orderly.behindWord with none | ⟨front, begins, expected⟩
          · rw [none]
            cases completed with
            | none => exact .inl rfl
            | some row =>
                obtain rfl : next = .separator := orderly
                exact .inr ⟨[token], ⟨rest, rfl⟩, leads MoreClauses.none⟩
          · exact .inr ⟨token :: front, List.prefix_cons_inj token |>.mpr begins, leads expected⟩

/-- Whatever is refused is refused as text that could not be understood. -/
theorem exists_complaint_of_readFrom {problem : Error}
    (refused : (readFrom form position stage tokens).ended = .error problem) :
    ∃ place complaint, problem = .formulaText place complaint := by
  induction tokens generalizing position stage with
  | nil =>
      rw [readFrom] at refused
      cases stage <;> cases refused <;> exact ⟨_, _, rfl⟩
  | cons token rest ih =>
      have orderly : Orderly (step form position stage token) := orderly_step position stage token
      cases taken : step form position stage token with
      | error other =>
          rw [readFrom_cons_of_error taken] at refused
          rw [taken] at orderly
          exact Except.error.inj refused ▸ orderly
      | ok reached =>
          rw [readFrom_cons_of_ok taken] at refused
          exact ih refused

end All

theorem readTokens_eq_iff {tokens : List Token} {rows : List NamedClause} :
    readTokens form tokens = ⟨rows, .ok ()⟩ ↔ FormulaText form tokens rows :=
  readFrom_eq_iff nofun

end ChronoSat.Infix

namespace ChronoSat.Formula

variable {form : NormalForm}

section Parse

variable {text : String}

/-- What becomes of a text is what becomes of taking in what is read. -/
theorem parse_eq (text : String) :
    (parse text : Except Failure (Formula form)) =
      (Formula.empty.intake.takeYield (Infix.readTokens form (Infix.tokens text))).map
        Intake.formula := by
  rw [parse, Intake.start]
  cases Formula.empty.intake.takeYield (Infix.readTokens form (Infix.tokens text)) <;> rfl

theorem parse_eq_ok_iff {formula : Formula form} :
    parse text = .ok formula ↔
      ∃ rows, Infix.FormulaText form (Infix.tokens text) rows ∧ Numerable rows ∧
        formula = ofNamed rows := by
  have noNames : (empty : Formula form).numVars ≤ Literal.maxVar := Nat.zero_le _
  simp only [parse_eq, Outcomes.map_eq_ok_iff, takeYield_eq_ok_iff noNames]
  constructor
  · rintro ⟨_, ⟨fits, ended, rfl⟩, rfl⟩
    exact ⟨_, Infix.readTokens_eq_iff.mp (Yield.ext rfl ended), numVars_ofNamed_le_iff.mp fits,
      formula_intake _⟩
  · rintro ⟨rows, derived, numerable, rfl⟩
    rw [Infix.readTokens_eq_iff.mpr derived]
    exact ⟨_, ⟨numVars_ofNamed_le_iff.mpr numerable, rfl, rfl⟩, formula_intake _⟩

/-- Numbers run out in what is complete of a text, and that is the text of a formula. -/
theorem parse_eq_fault_iff {fault : Fault} :
    (parse text : Except Failure (Formula form)) = .error (.fault fault) ↔
      fault = .registryFull ∧ ∃ front rows, front <+: Infix.tokens text ∧
        Infix.FormulaText form front rows ∧ ¬Numerable rows := by
  have noNames : (empty : Formula form).numVars ≤ Literal.maxVar := Nat.zero_le _
  rw [parse_eq, Outcomes.map_eq_error_iff, takeYield_eq_fault_iff noNames, and_comm,
    ← Nat.not_le, ← ofNamed, numVars_ofNamed_le_iff]
  have atStart : Infix.Stage.start ≠ .joint [] := by simp
  refine and_congr_right fun _ => ⟨fun exceeds => ?_, ?_⟩
  · rcases Infix.exists_expected_of_readFrom 0 atStart with none | ⟨front, begins, derived⟩
    · exact absurd (none ▸ numerable_nil) exceeds
    · exact ⟨front, _, begins, derived, exceeds⟩
  · rintro ⟨front, rows, ⟨behind, whole⟩, derived, exceeds⟩ numerable
    have read := Infix.rows_prefix_readFrom 0 atStart derived behind
    rw [whole] at read
    exact exceeds (numerable.of_prefix read)

/-- So few characters derive no more names than there are numbers. -/
theorem numerable_of_formulaText {tokens front : List Infix.Token} {rows : List NamedClause}
    (isTokens : Infix.IsTokens text.toList tokens) (short : text.length ≤ Literal.maxVar)
    (begins : front <+: tokens) (derived : Infix.FormulaText form front rows) :
    Numerable rows := by
  apply numerable_of_length_le
  calc rows.flatten.length ≤ front.length := derived.length_le
    _ ≤ tokens.length := begins.length_le
    _ ≤ text.toList.length := isTokens.length_le
    _ = text.length := String.length_toList
    _ ≤ Literal.maxVar := short

/-- A text is refused for what reading it ended with. -/
theorem ended_of_parse {problem : Error}
    (refused : (parse text : Except Failure (Formula form)) = .error (.error problem)) :
    (Infix.readTokens form (Infix.tokens text)).ended = .error problem := by
  rw [parse_eq, Outcomes.map_eq_error_iff] at refused
  have noNames : (empty : Formula form).numVars ≤ Literal.maxVar := Nat.zero_le _
  exact ((takeYield_eq_error_iff noNames).mp refused).2

end Parse

/-- The reader accepts its grammar. A text has one row of tokens. It is accepted exactly if
that row is derived, and then the formula is the one of the derivation: its clauses are the
derived ones in order, under the connective of the form, and its names are numbered as
they come. Any other text is refused as one that could not be understood. Only where the
clauses that are complete use more names than there are numbers, there is no answer but a
fault, and that takes more characters than there are numbers. -/
theorem parse_iff_formulaText (text : String) :
    (∃! tokens, Infix.IsTokens text.toList tokens) ∧
    ∀ tokens, Infix.IsTokens text.toList tokens →
      (∀ formula : Formula form, parse text = .ok formula ↔
        ∃ rows, Infix.FormulaText form tokens rows ∧ Numerable rows ∧
          formula.NumberedFrom rows) ∧
      (∀ problem, (parse text : Except Failure (Formula form)) = .error (.error problem) →
        (∀ rows, ¬Infix.FormulaText form tokens rows) ∧
          ∃ position complaint, problem = .formulaText position complaint) ∧
      (∀ fault, (parse text : Except Failure (Formula form)) = .error (.fault fault) ↔
        fault = .registryFull ∧ ∃ front rows, front <+: tokens ∧
          Infix.FormulaText form front rows ∧ ¬Numerable rows) ∧
      (text.length ≤ Literal.maxVar → ∀ front rows, front <+: tokens →
        Infix.FormulaText form front rows → Numerable rows) := by
  refine ⟨⟨Infix.tokens text, Infix.tokens_eq_iff.mp rfl, ?_⟩, ?_⟩
  · intro tokens tokenized
    exact (Infix.tokens_eq_iff.mpr tokenized).symm
  intro tokens tokenized
  obtain rfl := Infix.tokens_eq_iff.mpr tokenized
  refine ⟨fun formula => ?_, fun problem refused => ⟨fun rows derived => ?_, ?_⟩,
    fun fault => parse_eq_fault_iff,
    fun short front rows begins derived => numerable_of_formulaText tokenized short begins derived⟩
  · simp only [parse_eq_ok_iff, numberedFrom_iff]
  · by_cases numerable : Numerable rows
    · have read := parse_eq_ok_iff.mpr ⟨rows, derived, numerable, rfl⟩
      cases refused.symm.trans read
    · have overflows : (parse text : Except Failure (Formula form)) = .error (.fault _) :=
        parse_eq_fault_iff.mpr ⟨rfl, _, rows, List.prefix_rfl, derived, numerable⟩
      cases refused.symm.trans overflows
  · exact Infix.exists_complaint_of_readFrom (ended_of_parse refused)

end ChronoSat.Formula
