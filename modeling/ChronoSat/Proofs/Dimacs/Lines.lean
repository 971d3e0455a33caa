/-
# Lines of clause files

What a clause file says is the sum of what its lines say, up to the line that ends it.
A line says nothing, or announces counts, or gives the clauses of a row of integers,
and whether it may say so depends on the lines before it in one respect only: a problem
line is read the first time and passed over afterwards.

`Meaning` adds the lines up and `Offends` says why a line cannot be added. A clause is
taken in as soon as it is complete, so there may be too many names at a line before it is
known whether it is in order: `Overflows` says when. The second half of this module compares
what they ask of a line's words with the functions that read words: the complaint about a line
is about what is wrong with it first.
-/

import ChronoSat.Proofs.Formula.Numbering
import ChronoSat.Proofs.Text.Bytes

namespace ChronoSat.Dimacs

/-! ## The words of a line -/

/-- A line is text with the given words. -/
def LineWords (line : List UInt8) (words : List String) : Prop :=
  ∃ text, text? line = some text ∧ Text.IsWords text.toList words

/-- A line is text with the given first word. -/
def BeginsWith (first : String) (line : List UInt8) : Prop :=
  ∃ rest, LineWords line (first :: rest)

/-- The words of a line, if it is text. -/
def words? (line : List UInt8) : Option (List String) :=
  (text? line).map Text.words

theorem lineWords_iff {line : List UInt8} {words : List String} :
    LineWords line words ↔ words? line = some words := by
  simp [LineWords, words?, ← Text.words_eq_iff]

theorem beginsWith_iff {first : String} {line : List UInt8} :
    BeginsWith first line ↔ (words? line).bind List.head? = some first := by
  simp only [BeginsWith, lineWords_iff, Option.bind_eq_some_iff, List.head?_eq_some_iff]
  constructor
  · rintro ⟨rest, found⟩
    exact ⟨_, found, rest, rfl⟩
  · rintro ⟨_, found, rest, rfl⟩
    exact ⟨rest, found⟩

theorem LineWords.beginsWith_iff {line : List UInt8} {words : List String} {first : String}
    (reads : LineWords line words) : BeginsWith first line ↔ words.head? = some first := by
  rw [Dimacs.beginsWith_iff, lineWords_iff.mp reads, Option.bind_some]

instance (first : String) : DecidablePred (BeginsWith first) := fun _ =>
  decidable_of_iff _ beginsWith_iff.symm

/-- The lines of a file up to the one that ends it. -/
def IsBody (bytes : List UInt8) (body : List (List UInt8)) : Prop :=
  ∃ behind, Text.Pieces newline bytes (body ++ behind) ∧
    (∀ line ∈ body, ¬BeginsWith "%" line) ∧
    ∀ line, behind.head? = some line → BeginsWith "%" line

/-! ## Lines that are in order -/

/-- Words that make a line in order, where a problem line may have been seen before, and the
clauses that the line gives. -/
inductive InOrder (announced : Prop) : List String → List NamedClause → Prop
  | blank : InOrder announced [] []
  | comment {first : String} {rest : List String} (marked : first.toList.head? = some 'c') :
      InOrder announced (first :: rest) []
  /-- Any further problem line is passed over. -/
  | repeated {rest : List String} (again : announced) : InOrder announced ("p" :: rest) []
  /-- The counts have to be numbers, but give no clauses. -/
  | problem {numVars clauses : String}
      (numVarsRead : (Text.readUnsigned numVars).isSome = true)
      (clausesRead : (Text.readUnsigned clauses).isSome = true) :
      InOrder announced ["p", "cnf", numVars, clauses] []
  /-- Every zero ends a clause, and so does the end of the line if one is open. -/
  | integers {words : List String} {values : List Int} {runs : List (List Int)}
      (read : words.map Text.readSigned = values.map some) (cut : Text.Pieces 0 values runs) :
      InOrder announced words (runs.map fun run => run.map namedLiteral)

/-- Some line is a problem line. -/
def Announced (lines : List (List UInt8)) : Prop :=
  ∃ line ∈ lines, BeginsWith "p" line

instance : DecidablePred Announced := fun lines =>
  inferInstanceAs (Decidable (∃ line ∈ lines, BeginsWith "p" line))

/-- Lines that are all in order, and the clauses that they give together. -/
inductive Meaning : List (List UInt8) → List NamedClause → Prop
  | nil : Meaning [] []
  | concat {before : List (List UInt8)} {line : List UInt8} {words : List String}
      {rows clauses : List NamedClause} (earlier : Meaning before rows)
      (reads : LineWords line words) (ordered : InOrder (Announced before) words clauses) :
      Meaning (before ++ [line]) (rows ++ clauses)

/-! ## Lines that are not -/

/-- What is wrong first with the words of a line. -/
inductive Complains : List String → Complaint → Prop
  | malformed {rest : List String} (shape : ∀ numVars clauses, rest ≠ ["cnf", numVars, clauses]) :
      Complains ("p" :: rest) .malformedHeader
  | numVars {numVars clauses : String} (unread : Text.readUnsigned numVars = none) :
      Complains ["p", "cnf", numVars, clauses] .variableCount
  | clauses {numVars clauses : String}
      (numVarsRead : (Text.readUnsigned numVars).isSome = true)
      (unread : Text.readUnsigned clauses = none) :
      Complains ["p", "cnf", numVars, clauses] .clauseCount
  | integer {front back : List String} {word : String}
      (unannounced : (front ++ word :: back).head? ≠ some "p")
      (read : ∀ earlier ∈ front, (Text.readSigned earlier).isSome = true)
      (unread : Text.readSigned word = none) :
      Complains (front ++ word :: back) (.notAnInteger word)

/-- A line that is not in order, and the error that it is refused with. -/
inductive Offends (announced : Prop) (number : Nat) (line : List UInt8) : Error → Prop
  | notText (unread : text? line = none) : Offends announced number line .notUtf8
  | disordered {words : List String} {complaint : Complaint} (reads : LineWords line words)
      (disordered : ∀ clauses, ¬InOrder announced words clauses)
      (complains : Complains words complaint) :
      Offends announced number line (.dimacs number complaint)

/-! ## Lines with too many names -/

/-- The clauses of the integers in front of a row of words. They are complete whatever follows,
as there is nothing more or the last integer is a zero. -/
inductive Completed : List String → List NamedClause → Prop
  | intro {front back : List String} {values : List Int} {runs : List (List Int)}
      (read : front.map Text.readSigned = values.map some) (cut : Text.Pieces 0 values runs)
      (closed : back = [] ∨ values.getLast? = some 0) :
      Completed (front ++ back) (runs.map fun run => run.map namedLiteral)

/-- Behind the clauses of the lines before, the clauses that are complete in a line use more
names than there are numbers. -/
def Overflows (rows : List NamedClause) (line : List UInt8) : Prop :=
  ∃ words clauses, LineWords line words ∧ Completed words clauses ∧
    ¬Formula.Numerable (rows ++ clauses)

/-! ## Lengths

A literal takes a word, and a word takes a byte. -/

theorem LineWords.length_le {line : List UInt8} {words : List String}
    (reads : LineWords line words) : words.length ≤ line.length := by
  obtain ⟨text, isText, spelled⟩ := reads
  rw [Text.eq_encoded_of_text? isText]
  exact Nat.le_trans spelled.length_le (Text.length_le_length_encoded _)

theorem length_le_of_pieces {words : List String} {values : List Int} {runs : List (List Int)}
    (read : words.map Text.readSigned = values.map some) (cut : Text.Pieces 0 values runs) :
    (runs.map fun run => run.map namedLiteral).flatten.length ≤ words.length := by
  have lengths : words.length = values.length := by simpa using congrArg List.length read
  rw [← List.map_flatten, List.length_map, lengths]
  exact cut.length_flatten_le

theorem InOrder.length_le {announced : Prop} {words : List String} {clauses : List NamedClause}
    (ordered : InOrder announced words clauses) : clauses.flatten.length ≤ words.length := by
  cases ordered with
  | blank | comment | repeated | problem => exact Nat.zero_le _
  | integers read cut => exact length_le_of_pieces read cut

theorem Completed.length_le {words : List String} {clauses : List NamedClause}
    (completed : Completed words clauses) : clauses.flatten.length ≤ words.length := by
  obtain ⟨read, cut, _⟩ := completed
  rw [List.length_append]
  exact Nat.le_add_right_of_le (length_le_of_pieces read cut)

theorem Meaning.length_le {before : List (List UInt8)} {rows : List NamedClause}
    (meaning : Meaning before rows) : rows.flatten.length ≤ before.flatten.length := by
  induction meaning with
  | nil => exact Nat.le_refl 0
  | concat _ reads ordered ih =>
      have last := Nat.le_trans ordered.length_le reads.length_le
      simp only [List.flatten_append, List.length_append, List.flatten_singleton]
      omega

/-! ## What is reported -/

/-- The numbers of the problem lines, where the first line is number 1. -/
def problemNumbers (lines : List (List UInt8)) : List Nat :=
  (lines.zipIdx 1).filterMap fun numbered =>
    if BeginsWith "p" numbered.1 then some numbered.2 else none

/-- A warning for every problem line but the first. -/
def repeats (lines : List (List UInt8)) : List Warning :=
  (problemNumbers lines).tail.map Warning.repeatedHeader

/-- The counts that the first problem line announces. -/
def announced (lines : List (List UInt8)) : Option Header :=
  (lines.zipIdx 1).findSome? fun numbered =>
    (words? numbered.1).bind fun words => (readHeader numbered.2 words).toOption

/-! ## Problem lines -/

section Words

variable {number : Nat} {words rest : List String} {complaint : Complaint}

/-- The complaint about a problem line is what is wrong with it first. -/
theorem readHeader_eq_error_iff {problem : Error} :
    readHeader number ("p" :: rest) = .error problem ↔
      ∃ complaint, problem = .dimacs number complaint ∧ Complains ("p" :: rest) complaint := by
  constructor
  · intro refused
    unfold readHeader at refused
    split at refused
    · next numVars clauses exact =>
        rw [exact]
        split at refused
        · next unread =>
            exact ⟨_, (Except.error.inj refused).symm, .numVars unread⟩
        · next count read =>
            split at refused
            · next unread =>
                exact ⟨_, (Except.error.inj refused).symm, .clauses (by simp [read]) unread⟩
            · cases refused
    · next other =>
        refine ⟨_, (Except.error.inj refused).symm, .malformed fun numVars clauses same => ?_⟩
        exact other numVars clauses (same ▸ rfl)
  · rintro ⟨complaint, rfl, complains⟩
    generalize whole : "p" :: rest = words at complains
    cases complains with
    | malformed shape =>
        unfold readHeader
        split
        · next numVars clauses exact =>
            exact absurd (List.cons.inj exact).2 (shape numVars clauses)
        · rfl
    | numVars unread => simp [readHeader, unread]
    | clauses numVarsRead unread =>
        obtain ⟨count, read⟩ := Option.isSome_iff_exists.mp numVarsRead
        simp [readHeader, read, unread]
    | integer unannounced => exact absurd (whole ▸ rfl) unannounced

/-- A problem line that is read is in order. -/
theorem inOrder_of_readHeader {announced : Prop} {header : Header}
    (read : readHeader number words = .ok header) : InOrder announced words [] := by
  unfold readHeader at read
  split at read
  · split at read
    · cases read
    · next numVars numVarsRead =>
        split at read
        · cases read
        · next clauses clausesRead =>
            exact .problem (by simp [numVarsRead]) (by simp [clausesRead])
  · cases read

/-- Words that do not begin as a problem line announce nothing. -/
theorem toOption_readHeader_of_ne (other : words.head? ≠ some "p") :
    (readHeader number words).toOption = none := by
  unfold readHeader
  split <;> simp_all [Except.toOption]

/-! ## Rows of integers -/

theorem readInteger_eq_ok_iff {word : String} {value : Int} :
    readInteger number word = .ok value ↔ Text.readSigned word = some value := by
  unfold readInteger
  cases Text.readSigned word <;> simp

theorem mapM_readInteger_eq_ok_iff {values : List Int} :
    words.mapM (readInteger number) = .ok values ↔
      words.map Text.readSigned = values.map some :=
  Outcomes.mapM_eq_ok_iff_map_eq fun _ _ => readInteger_eq_ok_iff

section Integers

variable {word : String} {value : Int} {collected : NamedClause}

theorem integersFrom_cons_zero (read : Text.readSigned word = some 0) :
    integersFrom number collected (word :: rest) =
      ⟨collected.reverse :: (integersFrom number [] rest).rows,
        (integersFrom number [] rest).ended⟩ := by
  rw [integersFrom, readInteger_eq_ok_iff.mpr read]
  exact if_pos rfl

theorem integersFrom_cons_literal (read : Text.readSigned word = some value)
    (nonzero : value ≠ 0) :
    integersFrom number collected (word :: rest) =
      integersFrom number (namedLiteral value :: collected) rest := by
  rw [integersFrom, readInteger_eq_ok_iff.mpr read]
  exact if_neg nonzero

theorem integersFrom_cons_unread (unread : Text.readSigned word = none) :
    integersFrom number collected (word :: rest) =
      ⟨[], .error (.dimacs number (.notAnInteger word))⟩ := by
  rw [integersFrom, readInteger, unread]

/-- Reading a row of integers ends as reading its words does. -/
theorem ended_integersFrom (collected : NamedClause) (words : List String) :
    (integersFrom number collected words).ended =
      (words.mapM (readInteger number)).map fun _ => () := by
  induction words generalizing collected with
  | nil => rfl
  | cons word rest ih =>
      rw [List.mapM_cons]
      cases read : Text.readSigned word with
      | none =>
          rw [integersFrom_cons_unread read, readInteger, read]
          rfl
      | some value =>
          rw [readInteger_eq_ok_iff.mpr read]
          have others : ((do return value :: (← rest.mapM (readInteger number))).map fun _ => ()) =
              (rest.mapM (readInteger number)).map fun _ => () := by
            cases rest.mapM (readInteger number) <;> rfl
          by_cases zero : value = 0
          · subst zero
            rw [integersFrom_cons_zero read, ih]
            exact others.symm
          · rw [integersFrom_cons_literal read zero, ih]
            exact others.symm

/-- The clauses of a row of integers are what it is cut into at the zeros. -/
theorem integersFrom_eq {values : List Int} (collected : List Int)
    (read : words.map Text.readSigned = values.map some) :
    integersFrom number (collected.map namedLiteral) words =
      ⟨(Text.piecesFrom 0 collected values).map fun run => run.map namedLiteral, .ok ()⟩ := by
  induction words generalizing collected values with
  | nil =>
      obtain rfl := List.map_eq_nil_iff.mp read.symm
      cases collected <;> simp [integersFrom, Text.piecesFrom]
  | cons word rest ih =>
      obtain ⟨value, others, rfl, readFirst, readOthers⟩ := List.map_eq_cons_iff.mp read.symm
      rw [Text.piecesFrom]
      split
      · next zero =>
          subst zero
          rw [integersFrom_cons_zero readFirst.symm, ← List.map_nil, ih [] readOthers.symm]
          simp
      · next nonzero =>
          rw [integersFrom_cons_literal readFirst.symm nonzero, ← List.map_cons]
          exact ih (value :: collected) readOthers.symm

/-- Clauses that are complete are read, whatever follows. -/
theorem rows_prefix_integersFrom {front back : List String} {values : List Int}
    (collected : List Int) (read : front.map Text.readSigned = values.map some)
    (closed : values.getLast? = some 0) :
    ((Text.piecesFrom 0 collected values).map fun run => run.map namedLiteral) <+:
      (integersFrom number (collected.map namedLiteral) (front ++ back)).rows := by
  induction front generalizing collected values with
  | nil =>
      obtain rfl := List.map_eq_nil_iff.mp read.symm
      cases closed
  | cons word rest ih =>
      obtain ⟨value, others, rfl, readFirst, readOthers⟩ := List.map_eq_cons_iff.mp read.symm
      have closedOthers (more : others ≠ []) : others.getLast? = some 0 := by
        rwa [List.getLast?_cons_of_ne_nil more] at closed
      rw [Text.piecesFrom, List.cons_append]
      split
      · next zero =>
          subst zero
          rw [integersFrom_cons_zero readFirst.symm, List.map_cons, List.map_reverse]
          refine (List.prefix_cons_inj _).mpr ?_
          by_cases last : others = []
          · rw [last]
            exact List.nil_prefix
          · exact ih [] readOthers.symm (closedOthers last)
      · next nonzero =>
          have more : others ≠ [] := by
            rintro rfl
            exact nonzero (Option.some.inj closed)
          rw [integersFrom_cons_literal readFirst.symm nonzero, ← List.map_cons]
          exact ih (value :: collected) readOthers.symm (closedOthers more)

/-- The clauses that are read are none or those that are complete. -/
theorem exists_of_integersFrom (number : Nat) (collected : List Int) (words : List String) :
    (integersFrom number (collected.map namedLiteral) words).rows = [] ∨
      ∃ front back values, words = front ++ back ∧
        front.map Text.readSigned = values.map some ∧
        (back = [] ∨ values.getLast? = some 0) ∧
        (integersFrom number (collected.map namedLiteral) words).rows =
          (Text.piecesFrom 0 collected values).map fun run => run.map namedLiteral := by
  induction words generalizing collected with
  | nil =>
      have nothing : ([] : List String).map Text.readSigned = ([] : List Int).map some := rfl
      exact .inr ⟨[], [], [], rfl, nothing, .inl rfl, by rw [integersFrom_eq collected nothing]⟩
  | cons word rest ih =>
      cases read : Text.readSigned word with
      | none => exact .inl (by rw [integersFrom_cons_unread read])
      | some value =>
          have closed {back : List String} {values : List Int}
              (closed : back = [] ∨ values.getLast? = some 0) :
              back = [] ∨ (value :: values).getLast? = some 0 :=
            closed.imp_right fun last => by simp [List.getLast?_cons, last]
          by_cases zero : value = 0
          · subst zero
            rw [integersFrom_cons_zero read]
            rcases ih [] with none | ⟨front, back, values, rfl, readFront, ends, rows⟩
            · exact .inr ⟨[word], rest, [0], rfl, by simp [read], .inr rfl, by
                rw [List.map_nil] at none
                simp [none, Text.piecesFrom]⟩
            · exact .inr ⟨word :: front, back, 0 :: values, rfl, by simp [read, readFront],
                closed ends, by
                rw [List.map_nil] at rows
                simp [rows, Text.piecesFrom]⟩
          · rw [integersFrom_cons_literal read zero, ← List.map_cons]
            rcases ih (value :: collected) with
              none | ⟨front, back, values, rfl, readFront, ends, rows⟩
            · exact .inl none
            · exact .inr ⟨word :: front, back, value :: values, rfl, by simp [read, readFront],
                closed ends, by rw [rows, Text.piecesFrom, if_neg zero]⟩

end Integers

theorem Completed.prefix_rows {clauses : List NamedClause} (completed : Completed words clauses) :
    clauses <+: (integersFrom number [] words).rows := by
  obtain ⟨read, cut, closed⟩ := completed
  obtain rfl := Text.piecesFrom_eq_iff.mpr cut
  rcases closed with rfl | last
  · have whole : integersFrom number [] _ = _ := integersFrom_eq [] read
    simp only [List.append_nil, whole, List.prefix_rfl]
  · exact rows_prefix_integersFrom [] read last

theorem completed_rows (number : Nat) (words : List String) :
    (integersFrom number [] words).rows = [] ∨
      Completed words (integersFrom number [] words).rows := by
  obtain none | ⟨front, back, values, rfl, read, closed, rows⟩ :=
    exists_of_integersFrom number [] words
  · exact .inl none
  · rw [List.map_nil] at rows
    rw [rows]
    exact .inr (.intro read (Text.piecesFrom_eq_iff.mp rfl) closed)

/-- The complaint about a row of integers is about its first word that is none. -/
theorem mapM_readInteger_eq_error_iff {problem : Error} (other : words.head? ≠ some "p") :
    words.mapM (readInteger number) = .error problem ↔
      ∃ complaint, problem = .dimacs number complaint ∧ Complains words complaint := by
  rw [Outcomes.mapM_eq_error_iff]
  constructor
  · rintro ⟨front, word, back, rfl, earlier, failed⟩
    unfold readInteger at failed
    split at failed
    · next unread =>
        refine ⟨_, (Except.error.inj failed).symm, .integer other ?_ unread⟩
        intro before member
        obtain ⟨value, read⟩ := earlier before member
        rw [readInteger_eq_ok_iff.mp read]
        rfl
    · cases failed
  · rintro ⟨complaint, rfl, complains⟩
    cases complains with
    | malformed | numVars | clauses => exact absurd rfl other
    | @integer front back word _ read unread =>
        refine ⟨front, word, back, rfl, ?_, by simp [readInteger, unread]⟩
        intro earlier member
        obtain ⟨value, known⟩ := Option.isSome_iff_exists.mp (read earlier member)
        exact ⟨value, readInteger_eq_ok_iff.mpr known⟩

/-- A comment begins with no integer. -/
theorem readSigned_eq_none_of_comment {word : String} (marked : word.toList.head? = some 'c') :
    Text.readSigned word = none := by
  obtain ⟨rest, spelled⟩ := List.head?_eq_some_iff.mp marked
  simp [Text.readSigned, spelled, Text.readDigits]

/-- A row of integers is taken for one. -/
theorem ofWords_of_readSigned {first : String} {value : Int}
    (read : Text.readSigned first = some value) :
    LineKind.ofWords (first :: rest) = .integers := by
  have notMark : first ≠ "%" := by
    rintro rfl
    have none : Text.readSigned "%" = none := by decide
    simp [none] at read
  have notHeader : first ≠ "p" := by
    rintro rfl
    have none : Text.readSigned "p" = none := by decide
    simp [none] at read
  have notComment : first.toList.head? ≠ some 'c' := by
    intro marked
    simp [readSigned_eq_none_of_comment marked] at read
  simp [LineKind.ofWords, notMark, notHeader, notComment]

end Words

/-- A problem line in order is a repeated one or one that is read. -/
theorem InOrder.repeated_or_read {announced : Prop} {rest : List String}
    {clauses : List NamedClause} {number : Nat}
    (ordered : InOrder announced ("p" :: rest) clauses) :
    announced ∨ (readHeader number ("p" :: rest)).toOption.isSome = true := by
  generalize whole : "p" :: rest = words at ordered
  cases ordered with
  | blank => cases whole
  | comment marked =>
      obtain ⟨rfl, _⟩ := List.cons.inj whole
      exact absurd marked (by decide)
  | repeated again => exact .inl again
  | problem numVarsRead clausesRead =>
      obtain ⟨numVars, numVarsRead⟩ := Option.isSome_iff_exists.mp numVarsRead
      obtain ⟨count, clausesRead⟩ := Option.isSome_iff_exists.mp clausesRead
      exact .inr (by simp [readHeader, numVarsRead, clausesRead, Except.toOption])
  | integers read _ =>
      subst whole
      obtain ⟨value, _, _, readFirst, _⟩ := List.map_eq_cons_iff.mp read.symm
      rw [show Text.readSigned "p" = none from by decide] at readFirst
      cases readFirst

end ChronoSat.Dimacs
