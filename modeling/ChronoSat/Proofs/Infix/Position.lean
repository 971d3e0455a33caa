/-
# Where a text is refused

A text goes wrong at a token if the tokens in front of it begin some formula's text and no
formula's text begins with them and the token. If no token is like that, the text ends too
early, and where it goes wrong is the number of its tokens.

The reader takes one token at a time, and a token that may not come next is refused where it
stands, whatever the words. Literals are another matter. How its words are spelled is looked at
when a clause is complete, and what is reported then is the position behind the clause. So the
position is the one at which the text goes wrong, unless it goes wrong at a misspelt literal. For
that case the tokens are compared with the same tokens in which misspelt literals are mended:
the reader goes on until these make a complete formula or go wrong for another reason, and the
position is the first one where they do.

The proof goes along with the reader. A stage whose words all spell literals can be completed. A
stage with a misspelt word cannot, and the only way on from it is to another such stage, until
the reader looks at the words.
-/

import ChronoSat.Proofs.Infix.Grammar

namespace ChronoSat.Infix

variable {form : NormalForm}

/-! ## Beginnings -/

/-- Some tokens that begin as given are what a stage expects. At the start of a text that is the
text of a formula. -/
def Begins (form : NormalForm) (stage : Stage) (front : List Token) : Prop :=
  ∃ behind rows, Expected form stage (front ++ behind) rows

/-- The tokens are what a stage expects. -/
def Completes (form : NormalForm) (stage : Stage) (tokens : List Token) : Prop :=
  ∃ rows, Expected form stage tokens rows

/-- So many tokens can be gone on with from a stage, and not one more. -/
structure GoesWrongAt (form : NormalForm) (stage : Stage) (tokens : List Token) (place : Nat) :
    Prop where
  le_length : place ≤ tokens.length
  begins : Begins form stage (tokens.take place)
  offends : place < tokens.length → ¬Begins form stage (tokens.take (place + 1))

theorem Begins.of_append {stage : Stage} {front back : List Token}
    (begins : Begins form stage (front ++ back)) : Begins form stage front := by
  obtain ⟨behind, rows, expected⟩ := begins
  exact ⟨back ++ behind, rows, by rwa [← List.append_assoc]⟩

/-- Tokens go wrong in one place only. -/
theorem GoesWrongAt.unique {stage : Stage} {tokens : List Token} {place other : Nat}
    (wrong : GoesWrongAt form stage tokens place) (others : GoesWrongAt form stage tokens other) :
    place = other := by
  have notBefore {first second : Nat} (here : GoesWrongAt form stage tokens first)
      (there : GoesWrongAt form stage tokens second) : ¬first < second := by
    intro before
    have shorter : tokens.take (first + 1) <+: tokens.take second :=
      List.take_prefix_take_left before
    obtain ⟨back, same⟩ := shorter
    have begins : Begins form stage (tokens.take (first + 1) ++ back) := same ▸ there.begins
    exact here.offends (Nat.lt_of_lt_of_le before there.le_length) begins.of_append
  have := notBefore wrong others
  have := notBefore others wrong
  omega

/-! ## Words that spell literals -/

/-- The words of the row that is being read. -/
def Stage.words : Stage → List String
  | .literal latestFirst => latestFirst
  | .joint latestFirst => latestFirst
  | _ => []

/-- All words of the row that is being read spell literals. -/
def Stage.Spelled (stage : Stage) : Prop :=
  ∀ word ∈ stage.words, (Literal.split? word).isSome = true

theorem exists_spells_iff {words : List String} :
    (∃ row, Spells words row) ↔ ∀ word ∈ words, (Literal.split? word).isSome = true := by
  induction words with
  | nil => simpa using ⟨[], rfl⟩
  | cons word rest ih =>
      rw [List.forall_mem_cons, ← ih, Option.isSome_iff_exists]
      constructor
      · rintro ⟨row, spells⟩
        obtain ⟨named, others, rfl, split, spelled⟩ := List.map_eq_cons_iff.mp spells.symm
        exact ⟨⟨named, split.symm⟩, others, spelled.symm⟩
      · rintro ⟨⟨named, split⟩, others, spelled⟩
        exact ⟨named :: others, by rw [Spells, List.map_cons, split, spelled, List.map_cons]⟩

theorem exists_namedLiterals_iff {words : List String} (position : Nat) :
    (∃ row, namedLiterals position words = .ok row) ↔
      ∀ word ∈ words, (Literal.split? word).isSome = true := by
  simp only [namedLiterals_eq_ok, exists_spells_iff]

/-- A stage can be completed if its words spell literals. -/
theorem begins_nil {stage : Stage} (spelled : stage.Spelled) : Begins form stage [] := by
  have letter : Literal.split? "a" = some ("a", true) := by decide
  cases stage with
  | start => exact ⟨[], [], .empty⟩
  | clause =>
      have text : FormulaText form ([.word "a"] ++ []) [[("a", true)]] :=
        .clauses (.bare letter) .none
      exact ⟨_, _, text, List.cons_ne_nil _ _⟩
  | separator => exact ⟨[], [], .none⟩
  | joint latestFirst =>
      obtain ⟨row, spells⟩ := exists_spells_iff.mpr fun word member =>
        spelled word (List.mem_reverse.mp member)
      have rest : AfterLiteral form latestFirst ([] ++ [.closing]) [row ++ []] :=
        .intro spells .none .none
      exact ⟨_, _, rest⟩
  | literal latestFirst =>
      obtain ⟨row, spells⟩ : ∃ row, Spells ("a" :: latestFirst).reverse row := by
        refine exists_spells_iff.mpr fun word member => ?_
        rcases List.mem_cons.mp (List.mem_reverse.mp member) with rfl | inside
        · rw [letter]
          rfl
        · exact spelled word inside
      have rest : AfterLiteral form ("a" :: latestFirst) ([] ++ [.closing]) [row ++ []] :=
        .intro spells .none .none
      exact ⟨_, _, .literal rest⟩

/-- A stage with a misspelt word cannot be completed. -/
theorem Begins.spelled {stage : Stage} {front : List Token} (begins : Begins form stage front) :
    stage.Spelled := by
  obtain ⟨behind, rows, expected⟩ := begins
  generalize front ++ behind = tokens at expected
  cases stage with
  | start | clause | separator => exact fun _ => nofun
  | joint latestFirst =>
      obtain ⟨spells, _, _⟩ := expected
      exact fun word member =>
        exists_spells_iff.mp ⟨_, spells⟩ word (List.mem_reverse.mpr member)
  | literal latestFirst =>
      obtain _ | ⟨spells, _, _⟩ := expected
      · exact fun _ => nofun
      · exact fun word member => exists_spells_iff.mp ⟨_, spells⟩ word
          (List.mem_reverse.mpr (List.mem_cons_of_mem _ member))

/-! ## One token -/

section Step

variable {stage next : Stage} {token : Token} {completed : Option NamedClause}
  {front : List Token} {position : Nat}

theorem completes_cons_iff (behindWord : stage ≠ .joint [])
    (taken : step form position stage token = .ok (completed, next)) :
    Completes form stage (token :: front) ↔ Completes form next front := by
  constructor
  · rintro ⟨rows, expected⟩
    obtain ⟨_, _, more, same, rest, _⟩ := (expected_cons_iff position behindWord).mp expected
    cases taken.symm.trans same
    exact ⟨more, rest⟩
  · rintro ⟨more, rest⟩
    exact ⟨_, (expected_cons_iff position behindWord).mpr ⟨_, _, more, taken, rest, rfl⟩⟩

theorem begins_cons_iff (behindWord : stage ≠ .joint [])
    (taken : step form position stage token = .ok (completed, next)) :
    Begins form stage (token :: front) ↔ Begins form next front :=
  exists_congr fun _ => completes_cons_iff behindWord taken

theorem not_begins_cons (behindWord : stage ≠ .joint []) {problem : Error}
    (refused : step form position stage token = .error problem) :
    ¬Begins form stage (token :: front) := by
  rintro ⟨behind, rows, expected⟩
  obtain ⟨_, _, _, taken, _⟩ := (expected_cons_iff position behindWord).mp expected
  cases refused.symm.trans taken

end Step

/-! ## Mended tokens -/

/-- A word that spells a literal, in place of one that does not. -/
def mendWord (word : String) : String :=
  if (Literal.split? word).isSome then word else "a"

/-- The word mended, unless it is a connective. -/
def mendLiteral (form : NormalForm) (word : String) : String :=
  if form.isConnective word then word else mendWord word

/-- The token with its word mended, unless that is a connective. -/
def mend (form : NormalForm) : Token → Token
  | .word word => .word (mendLiteral form word)
  | token => token

/-- The stage with the words of its row mended. -/
def Stage.mend : Stage → Stage
  | .literal latestFirst => .literal (latestFirst.map mendWord)
  | .joint latestFirst => .joint (latestFirst.map mendWord)
  | stage => stage

theorem isSome_split?_mendWord (word : String) :
    (Literal.split? (mendWord word)).isSome = true := by
  unfold mendWord
  split
  · assumption
  · decide

theorem mendWord_of_isSome {word : String} (spells : (Literal.split? word).isSome = true) :
    mendWord word = word := by
  rw [mendWord, if_pos spells]

theorem mendLiteral_of_not_isConnective {word : String} (other : form.isConnective word = false) :
    mendLiteral form word = mendWord word := by
  rw [mendLiteral, other, if_neg Bool.false_ne_true]

theorem isConnective_mendWord (form : NormalForm) (word : String) :
    form.isConnective (mendWord word) = false := by
  obtain ⟨named, spells⟩ := Option.isSome_iff_exists.mp (isSome_split?_mendWord word)
  exact isConnective_of_split? spells

/-- Mending makes no connective and takes none away. -/
theorem matchesWord_mendLiteral (form : NormalForm) (word : String) :
    form.inner.matchesWord (mendLiteral form word) = form.inner.matchesWord word ∧
      form.outer.matchesWord (mendLiteral form word) = form.outer.matchesWord word := by
  cases connective : form.isConnective word with
  | true =>
      rw [mendLiteral, if_pos connective]
      exact ⟨rfl, rfl⟩
  | false =>
      obtain ⟨inner, outer⟩ := Bool.or_eq_false_iff.mp connective
      obtain ⟨innerMended, outerMended⟩ :=
        Bool.or_eq_false_iff.mp (isConnective_mendWord form word)
      rw [mendLiteral_of_not_isConnective connective]
      exact ⟨innerMended.trans inner.symm, outerMended.trans outer.symm⟩

theorem isConnective_mendLiteral (word : String) :
    form.isConnective (mendLiteral form word) = form.isConnective word := by
  obtain ⟨inner, outer⟩ := matchesWord_mendLiteral form word
  rw [NormalForm.isConnective, inner, outer, NormalForm.isConnective]

theorem exists_namedLiterals_mendWord (position : Nat) (words : List String) :
    ∃ row, namedLiterals position (words.map mendWord) = .ok row := by
  refine (exists_namedLiterals_iff position).mpr fun word member => ?_
  obtain ⟨source, _, rfl⟩ := List.mem_map.mp member
  exact isSome_split?_mendWord source

theorem Stage.spelled_mend (stage : Stage) : stage.mend.Spelled := by
  intro word member
  cases stage with
  | start | clause | separator => cases member
  | literal | joint =>
      obtain ⟨source, _, rfl⟩ := List.mem_map.mp member
      exact isSome_split?_mendWord source

theorem Stage.mend_of_spelled {stage : Stage} (spelled : stage.Spelled) : stage.mend = stage := by
  have kept {latestFirst : List String}
      (spelled : ∀ word ∈ latestFirst, (Literal.split? word).isSome = true) :
      latestFirst.map mendWord = latestFirst :=
    (List.map_congr_left fun word member => mendWord_of_isSome (spelled word member)).trans
      (List.map_id _)
  cases stage with
  | start | clause | separator => rfl
  | literal => exact congrArg Stage.literal (kept spelled)
  | joint => exact congrArg Stage.joint (kept spelled)

theorem Stage.mend_ne_joint_nil {stage : Stage} (behindWord : stage ≠ .joint []) :
    stage.mend ≠ .joint [] := by
  cases stage with
  | start | clause | separator | literal => nofun
  | joint latestFirst =>
      intro same
      exact behindWord (congrArg Stage.joint (List.map_eq_nil_iff.mp (Stage.joint.inj same)))

/-! ## One token and the mended token -/

/-- What becomes of a token at a stage, and of the mended token at the mended stage. -/
inductive Taken (form : NormalForm) (position : Nat) (stage : Stage) (token : Token) : Prop
  /-- Both lead on. -/
  | on (completed mended : Option NamedClause) (next : Stage)
      (taken : step form position stage token = .ok (completed, next))
      (takenMended : step form position stage.mend (mend form token) = .ok (mended, next.mend))
  /-- Both are refused where they stand. -/
  | wrong (complaint : Infix.Complaint)
      (refused : step form position stage token = .error (.formulaText position complaint))
      (problem : Error)
      (refusedMended : step form position stage.mend (mend form token) = .error problem)
  /-- The token completes a clause of which a literal is misspelt. -/
  | misspelt {complaint : Infix.Complaint} {row : NamedClause}
      (refused : step form position stage token = .error (.formulaText (position + 1) complaint))
      (completes : step form position stage.mend (mend form token) = .ok (some row, .separator))

section Taken

variable (position : Nat) (latestFirst : List String) (token : Token)

/-- A token that completes a clause does so if the words spell literals. If they are mended, they
do. -/
theorem taken_of_completed {stage : Stage} (words : List String)
    (taken : step form position stage token =
      (do return (some (← namedLiterals (position + 1) words), .separator)))
    (takenMended : step form position stage.mend (mend form token) =
      (do return (some (← namedLiterals (position + 1) (words.map mendWord)), .separator))) :
    Taken form position stage token := by
  obtain ⟨row, mended⟩ := exists_namedLiterals_mendWord (position + 1) words
  rw [mended] at takenMended
  cases spelled : namedLiterals (position + 1) words with
  | ok named =>
      rw [spelled] at taken
      exact .on _ _ .separator taken takenMended
  | error problem =>
      obtain ⟨complaint, rfl⟩ := exists_complaint_of_namedLiterals spelled
      rw [spelled] at taken
      exact .misspelt taken takenMended

theorem taken_beginClause {stage : Stage} (unchanged : stage.mend = stage)
    (begins : ∀ token, step form position stage token = beginClause form position token) :
    Taken form position stage token := by
  have beginsMended : step form position stage.mend (mend form token) =
      beginClause form position (mend form token) := by
    rw [unchanged, begins]
  cases token with
  | opening => exact .on none none (.literal []) (begins .opening) beginsMended
  | closing => exact .wrong _ (begins .closing) _ beginsMended
  | word word =>
      have taken := begins (.word word)
      rw [mend, beginClause, isConnective_mendLiteral] at beginsMended
      rw [beginClause] at taken
      cases connective : form.isConnective word with
      | true =>
          rw [if_pos connective] at taken beginsMended
          exact .wrong _ taken _ beginsMended
      | false =>
          rw [connective, if_neg Bool.false_ne_true] at taken beginsMended
          rw [mendLiteral_of_not_isConnective connective] at beginsMended
          exact taken_of_completed position _ [word] taken
            (by rwa [mend, mendLiteral_of_not_isConnective connective])

/-- A token leads on or is refused by a test to which mending makes no difference. -/
theorem taken_of_tested {stage next : Stage} {token : Token} {complaint : Infix.Complaint}
    {problem : Error} (passes : Bool)
    (taken : step form position stage token =
      if passes then .ok (none, next) else .error (.formulaText position complaint))
    (takenMended : step form position stage.mend (mend form token) =
      if passes then .ok (none, next.mend) else .error problem) :
    Taken form position stage token := by
  cases passes with
  | true => exact .on none none next taken takenMended
  | false => exact .wrong complaint taken problem takenMended

theorem taken_separator : Taken form position .separator token := by
  cases token with
  | opening => exact .wrong _ rfl _ rfl
  | closing => exact .wrong _ rfl _ rfl
  | word word =>
      have same := (matchesWord_mendLiteral form word).2
      have mended : takeSeparator form position (.word (mendLiteral form word)) =
          takeSeparator form position (.word word) := by
        rw [takeSeparator, takeSeparator, same]
      exact taken_of_tested position (form.outer.matchesWord word) rfl mended

theorem taken_literal : Taken form position (.literal latestFirst) token := by
  cases token with
  | opening => exact .wrong _ rfl _ rfl
  | closing =>
      cases latestFirst with
      | nil => exact .on (some []) (some []) .separator rfl rfl
      | cons word earlier => exact .wrong _ rfl _ rfl
  | word word =>
      cases connective : form.isConnective word with
      | true =>
          refine .wrong (.connectiveAsLiteral word) ?_
            (.formulaText position (.connectiveAsLiteral (mendLiteral form word))) ?_
          · rw [step, takeLiteral, if_pos connective]
          · change takeLiteral form position _ (.word (mendLiteral form word)) = _
            rw [takeLiteral, isConnective_mendLiteral, if_pos connective]
      | false =>
          refine .on none none (.joint (word :: latestFirst)) ?_ ?_
          · rw [step, takeLiteral, connective, if_neg Bool.false_ne_true]
          · change takeLiteral form position _ (.word (mendLiteral form word)) =
              .ok (none, .joint ((word :: latestFirst).map mendWord))
            rw [takeLiteral, isConnective_mendLiteral, connective, if_neg Bool.false_ne_true,
              mendLiteral_of_not_isConnective connective, List.map_cons]

theorem taken_joint : Taken form position (.joint latestFirst) token := by
  cases token with
  | opening => exact .wrong _ rfl _ rfl
  | closing =>
      refine taken_of_completed position _ latestFirst.reverse rfl ?_
      rw [List.map_reverse]
      rfl
  | word word =>
      have same := (matchesWord_mendLiteral form word).1
      have mended : takeJoint form position (latestFirst.map mendWord)
            (.word (mendLiteral form word)) =
          takeJoint form position (latestFirst.map mendWord) (.word word) := by
        rw [takeJoint, takeJoint, same]
      exact taken_of_tested position (form.inner.matchesWord word) rfl mended

theorem taken (stage : Stage) : Taken form position stage token := by
  cases stage with
  | start => exact taken_beginClause position token rfl fun _ => rfl
  | clause => exact taken_beginClause position token rfl fun _ => rfl
  | separator => exact taken_separator position token
  | literal latestFirst => exact taken_literal position latestFirst token
  | joint latestFirst => exact taken_joint position latestFirst token

end Taken

/-! ## Where the reader refuses -/

/-- The first place, from a given one on, at which tokens make up what a stage expects or go
wrong. -/
structure SettledAt (form : NormalForm) (stage : Stage) (tokens : List Token)
    (start place : Nat) : Prop where
  start_le : start ≤ place
  settled : Completes form stage (tokens.take place) ∨ GoesWrongAt form stage tokens place
  unsettled : ∀ earlier, start ≤ earlier → earlier < place →
    ¬Completes form stage (tokens.take earlier)

section Refused

variable {position : Nat} {stage next : Stage} {token : Token} {completed : Option NamedClause}
  {rest : List Token}

/-- Tokens that cannot be gone on with, not even for one more, go wrong at once. -/
theorem goesWrongAt_zero (spelled : stage.Spelled) (behindWord : stage ≠ .joint [])
    {problem : Error} (refused : step form position stage token = .error problem) :
    GoesWrongAt form stage (token :: rest) 0 where
  le_length := Nat.zero_le _
  begins := begins_nil spelled
  offends _ := not_begins_cons behindWord refused

theorem goesWrongAt_nil (spelled : stage.Spelled) : GoesWrongAt form stage [] 0 where
  le_length := Nat.le_refl 0
  begins := begins_nil spelled
  offends inside := absurd inside (Nat.lt_irrefl 0)

theorem goesWrongAt_succ_iff {place : Nat} (behindWord : stage ≠ .joint [])
    (taken : step form position stage token = .ok (completed, next)) :
    GoesWrongAt form stage (token :: rest) (place + 1) ↔ GoesWrongAt form next rest place := by
  have begins_iff {front : List Token} :
      Begins form stage (token :: front) ↔ Begins form next front :=
    begins_cons_iff behindWord taken
  constructor
  · rintro ⟨le_length, begins, offends⟩
    exact ⟨Nat.le_of_succ_le_succ le_length, begins_iff.mp begins,
      fun inside next => offends (Nat.succ_lt_succ inside) (begins_iff.mpr next)⟩
  · rintro ⟨le_length, begins, offends⟩
    exact ⟨Nat.succ_le_succ le_length, begins_iff.mpr begins,
      fun inside next => offends (Nat.lt_of_succ_lt_succ inside) (begins_iff.mp next)⟩

theorem SettledAt.behind {start place : Nat} (settled : SettledAt form next rest start place)
    (behindWord : stage ≠ .joint [])
    (taken : step form position stage token = .ok (completed, next)) :
    SettledAt form stage (token :: rest) (start + 1) (place + 1) where
  start_le := Nat.succ_le_succ settled.start_le
  settled := settled.settled.imp (completes_cons_iff behindWord taken).mpr
    (goesWrongAt_succ_iff behindWord taken).mpr
  unsettled := by
    rintro (_ | earlier) behind before completes
    · exact absurd behind (Nat.not_succ_le_zero start)
    · exact settled.unsettled earlier (Nat.le_of_succ_le_succ behind)
        (Nat.lt_of_succ_lt_succ before) ((completes_cons_iff behindWord taken).mp completes)

theorem SettledAt.at_once {tokens : List Token}
    (settled : Completes form stage [] ∨ GoesWrongAt form stage tokens 0) :
    SettledAt form stage tokens 0 0 where
  start_le := Nat.le_refl 0
  settled := settled
  unsettled _ _ before := absurd before (Nat.not_lt_zero _)

/-- Nothing is complete in the middle of a row. -/
theorem not_completes_nil (misspelt : ¬stage.Spelled) : ¬Completes form stage.mend [] := by
  rintro ⟨rows, expected⟩
  obtain ⟨ended, _⟩ := (expected_nil_iff 0).mp expected
  cases stage with
  | start | clause | separator => exact misspelt fun _ => nofun
  | literal | joint => cases ended

/-- In the middle of a row, what is settled later is what is settled next. -/
theorem SettledAt.from_zero {tokens : List Token} {place : Nat} (misspelt : ¬stage.Spelled)
    (settled : SettledAt form stage.mend tokens 1 place) :
    SettledAt form stage.mend tokens 0 place where
  start_le := Nat.zero_le place
  settled := settled.settled
  unsettled := by
    rintro (_ | earlier) _ before
    · exact not_completes_nil misspelt
    · exact settled.unsettled (earlier + 1) (Nat.succ_le_succ (Nat.zero_le earlier)) before

theorem ne_joint_nil_of_step
    (taken : step form position stage token = .ok (completed, next)) : next ≠ .joint [] := by
  have orderly := @orderly_step form position stage token
  rw [taken] at orderly
  exact orderly.behindWord

theorem ended_readFrom_cons_of_ok
    (taken : step form position stage token = .ok (completed, next)) :
    (readFrom form position stage (token :: rest)).ended =
      (readFrom form (position + 1) next rest).ended := by
  rw [readFrom_cons_of_ok taken]

theorem ended_readFrom_cons_of_error (rest : List Token) {problem : Error}
    (refused : step form position stage token = .error problem) :
    (readFrom form position stage (token :: rest)).ended = .error problem := by
  rw [readFrom_cons_of_error refused]

theorem settledAt_of_completes {row : NamedClause} (behindWord : stage ≠ .joint [])
    (completes : step form position stage token = .ok (some row, .separator)) :
    SettledAt form stage (token :: rest) 1 1 := by
  have ended : Completes form .separator [] := ⟨[], MoreClauses.none⟩
  exact (SettledAt.at_once (.inl ended)).behind behindWord completes

/-- A row with a misspelt word is refused where the mended tokens are settled. -/
theorem readFrom_misspelt (position : Nat) (tokens : List Token)
    (behindWord : stage ≠ .joint []) (misspelt : ¬stage.Spelled) :
    ∃ place complaint, (readFrom form position stage tokens).ended =
        .error (.formulaText (position + place) complaint) ∧
      SettledAt form stage.mend (tokens.map (mend form)) 0 place := by
  induction tokens generalizing position stage with
  | nil =>
      have wrong : GoesWrongAt form stage.mend [] 0 := goesWrongAt_nil stage.spelled_mend
      have settled := SettledAt.at_once (.inr wrong)
      cases stage with
      | start | clause | separator => exact absurd (fun _ => nofun) misspelt
      | literal => exact ⟨0, _, rfl, settled⟩
      | joint => exact ⟨0, _, rfl, settled⟩
  | cons token rest ih =>
      have behindMended : stage.mend ≠ .joint [] := Stage.mend_ne_joint_nil behindWord
      have token_taken : Taken form position stage token := taken position token stage
      cases token_taken with
      | on completed mended next taken takenMended =>
          have misspeltNext : ¬next.Spelled := fun spelled =>
            misspelt ((begins_cons_iff behindWord taken).mpr (begins_nil spelled)).spelled
          obtain ⟨place, complaint, refused, settled⟩ :=
            ih (position + 1) (ne_joint_nil_of_step taken) misspeltNext
          rw [Nat.add_assoc, Nat.add_comm 1] at refused
          exact ⟨place + 1, complaint, (ended_readFrom_cons_of_ok taken).trans refused,
            (settled.behind behindMended takenMended).from_zero misspelt⟩
      | wrong complaint refused problem refusedMended =>
          exact ⟨0, complaint, ended_readFrom_cons_of_error rest refused,
            .at_once (.inr (goesWrongAt_zero stage.spelled_mend behindMended refusedMended))⟩
      | misspelt refused completes =>
          exact ⟨1, _, ended_readFrom_cons_of_error rest refused,
            (settledAt_of_completes behindMended completes).from_zero misspelt⟩

/-- How a refusal comes about. The tokens go wrong somewhere. If the mended tokens go wrong there
too, it is refused there, and otherwise at the next place where the mended tokens are settled. -/
structure RefusedAt (form : NormalForm) (stage : Stage) (tokens : List Token)
    (place position : Nat) : Prop where
  wrong : GoesWrongAt form stage tokens place
  atOnce : GoesWrongAt form stage (tokens.map (mend form)) place → position = place
  later : ¬GoesWrongAt form stage (tokens.map (mend form)) place →
    SettledAt form stage (tokens.map (mend form)) (place + 1) position

theorem refusedAt_of_wrong {tokens : List Token} {place : Nat}
    (wrong : GoesWrongAt form stage tokens place)
    (wrongMended : GoesWrongAt form stage (tokens.map (mend form)) place) :
    RefusedAt form stage tokens place place :=
  ⟨wrong, fun _ => rfl, fun other => absurd wrongMended other⟩

/-- A token behind which there is a misspelt word is where the tokens go wrong. -/
theorem refusedAt_of_settled (place : Nat) (spelled : stage.Spelled)
    (begins : Begins form stage [mend form token])
    (stuck : ¬Begins form stage [token])
    (settled : SettledAt form stage ((token :: rest).map (mend form)) 1 place) :
    RefusedAt form stage (token :: rest) 0 place where
  wrong := ⟨Nat.zero_le _, begins_nil spelled, fun _ => stuck⟩
  atOnce wrong := absurd begins (wrong.offends (Nat.zero_lt_succ _))
  later _ := settled

theorem exists_refusedAt (tokens : List Token) {problem : Error} (behindWord : stage ≠ .joint [])
    (spelled : stage.Spelled)
    (refused : (readFrom form position stage tokens).ended = .error problem) :
    ∃ place later complaint, problem = .formulaText (position + later) complaint ∧
      RefusedAt form stage tokens place later := by
  induction tokens generalizing position stage with
  | nil =>
      have wrong : GoesWrongAt form stage [] 0 := goesWrongAt_nil spelled
      cases stage with
      | start | separator => cases refused
      | clause | literal | joint =>
          cases refused
          exact ⟨0, 0, _, rfl, refusedAt_of_wrong wrong wrong⟩
  | cons token rest ih =>
      have token_taken : Taken form position stage token := taken position token stage
      have unchanged : stage.mend = stage := Stage.mend_of_spelled spelled
      have stuck {next : Stage} {completed : Option NamedClause} (misspelt : ¬next.Spelled)
          (taken : step form position stage token = .ok (completed, next)) :
          ¬Begins form stage [token] :=
        fun begins => misspelt ((begins_cons_iff behindWord taken).mp begins).spelled
      cases token_taken with
      | on completed mended next taken takenMended =>
          rw [unchanged] at takenMended
          rw [ended_readFrom_cons_of_ok taken] at refused
          by_cases spelledNext : next.Spelled
          · rw [Stage.mend_of_spelled spelledNext] at takenMended
            obtain ⟨place, later, complaint, rfl, refusedNext⟩ :=
              ih (ne_joint_nil_of_step taken) spelledNext refused
            refine ⟨place + 1, later + 1, complaint, by rw [Nat.add_assoc, Nat.add_comm 1], ?_⟩
            exact
              { wrong := (goesWrongAt_succ_iff behindWord taken).mpr refusedNext.wrong
                atOnce := fun wrong => congrArg (· + 1) <| refusedNext.atOnce <|
                  (goesWrongAt_succ_iff behindWord takenMended).mp wrong
                later := fun other => (refusedNext.later fun wrong => other <|
                  (goesWrongAt_succ_iff behindWord takenMended).mpr wrong).behind behindWord
                    takenMended }
          -- With the misspelt word in its row nothing can be completed any more. The tokens have
          -- gone wrong here, though the reader goes on.
          · obtain ⟨later, complaint, refusedNext, settled⟩ :=
              readFrom_misspelt (position + 1) rest (ne_joint_nil_of_step taken) spelledNext
            cases refused.symm.trans refusedNext
            refine ⟨0, later + 1, complaint, by rw [Nat.add_assoc, Nat.add_comm 1], ?_⟩
            exact refusedAt_of_settled _ spelled
              ((begins_cons_iff behindWord takenMended).mpr (begins_nil next.spelled_mend))
              (stuck spelledNext taken) (settled.behind behindWord takenMended)
      | wrong complaint refusedHere other refusedMended =>
          rw [unchanged] at refusedMended
          cases refused.symm.trans (ended_readFrom_cons_of_error rest refusedHere)
          exact ⟨0, 0, complaint, rfl, refusedAt_of_wrong
            (goesWrongAt_zero spelled behindWord refusedHere)
            (goesWrongAt_zero spelled behindWord refusedMended)⟩
      | misspelt refusedHere completes =>
          rw [unchanged] at completes
          cases refused.symm.trans (ended_readFrom_cons_of_error rest refusedHere)
          exact ⟨0, 1, _, rfl, refusedAt_of_settled _ spelled
            ((begins_cons_iff behindWord completes).mpr (begins_nil fun _ => nofun))
            (not_begins_cons behindWord refusedHere)
            (settledAt_of_completes behindWord completes)⟩

end Refused

end ChronoSat.Infix

namespace ChronoSat.Formula

variable {form : NormalForm}

/-- The position of a text that is refused. The text goes wrong somewhere, and unless it goes
wrong at a misspelt literal, that is the position. Otherwise the position is the first one behind
it at which the text with its misspelt literals mended is the text of a formula or goes wrong. -/
theorem position_of_refused {text : String} {problem : Error}
    (refused : (parse text : Except Failure (Formula form)) = .error (.error problem)) :
    ∃ place position complaint, problem = .formulaText position complaint ∧
      Infix.RefusedAt form .start (Infix.tokens text) place position := by
  have unread := ended_of_parse refused
  have atStart : Infix.Stage.start ≠ .joint [] := nofun
  obtain ⟨place, position, complaint, rfl, refusedAt⟩ :=
    Infix.exists_refusedAt _ atStart (fun _ => nofun) unread
  exact ⟨place, position, complaint, by rw [Nat.zero_add], refusedAt⟩

theorem position_of_refused_doubleNegation :
    (parse "¬¬a" : Except Failure (Formula .conjunctive)) =
        .error (.error (.formulaText 1 (.badLiteral "¬¬a"))) ∧
      ∃ place position complaint,
        Error.formulaText 1 (.badLiteral "¬¬a") = .formulaText position complaint ∧
          Infix.RefusedAt .conjunctive .start (Infix.tokens "¬¬a") place position :=
  ⟨by decide, position_of_refused (by decide)⟩

/-- A misspelt literal goes wrong at its own token and is refused behind it. -/
theorem position_behind_doubleNegation :
    (parse "¬¬a" : Except Failure (Formula .conjunctive)) =
        .error (.error (.formulaText 1 (.badLiteral "¬¬a"))) ∧
      Infix.GoesWrongAt .conjunctive .start (Infix.tokens "¬¬a") 0 ∧
      ¬Infix.GoesWrongAt .conjunctive .start (Infix.tokens "¬¬a") 1 := by
  have wrong : Infix.GoesWrongAt .conjunctive .start (Infix.tokens "¬¬a") 0 := by
    have single : Infix.tokens "¬¬a" = [.word "¬¬a"] := by decide
    have refused : Infix.step .conjunctive 0 .start (.word "¬¬a") =
        .error (.formulaText 1 (.badLiteral "¬¬a")) := by decide
    rw [single]
    exact Infix.goesWrongAt_zero (fun _ => nofun) nofun refused
  exact ⟨by decide, wrong, fun other => absurd (wrong.unique other) (by decide)⟩

end ChronoSat.Formula
