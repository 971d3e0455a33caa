/-
# Clause files line by line

The reader's progress after some lines is a function of the lines and their meaning, so
one step of the reader is one line of `Meaning`, and what it knows behind lines in order
follows by induction over the lines in front. Lines are in order up to the end or up to the
first that offends or has too many names, so the three ways to end are told apart by the lines
alone.
-/

import ChronoSat.Proofs.Dimacs.Lines
import Mathlib.Data.List.TakeWhile

namespace ChronoSat.Dimacs

open Formula

/-! ## One line -/

/-- What is known behind lines that give the given clauses. -/
def Progress.behind (rows : List NamedClause) (header : Option Header)
    (warnings : List Warning) : Progress :=
  ⟨(ofNamed rows).intake, header, warnings⟩

section Step

variable {number : Nat} {rows clauses : List NamedClause} {header : Option Header}
  {warnings : List Warning} {line : List UInt8} {rest : List (List UInt8)} {words : List String}

/-- What is taken in behind rows is taken in behind their formula. -/
theorem withRows_ofNamed (rows more : List NamedClause) :
    (ofNamed rows : Cnf).withRows more = ofNamed (rows ++ more) := by
  rw [ofNamed, ofNamed, withRows_append]

theorem takeIntegers_of_ok (numerable : Numerable rows) (fits : Numerable (rows ++ clauses))
    (read : integersFrom number [] words = ⟨clauses, .ok ()⟩) :
    takeIntegers number words (.behind rows header warnings) =
      .ok (.behind (rows ++ clauses) header warnings) := by
  have taken : (ofNamed rows : Cnf).intake.takeYield (integersFrom number [] words) =
      .ok (ofNamed (rows ++ clauses)).intake := by
    rw [takeYield_eq_ok_iff (numVars_ofNamed_le_iff.mpr numerable), read, withRows_ofNamed]
    exact ⟨numVars_ofNamed_le_iff.mpr fits, rfl, rfl⟩
  rw [takeIntegers, Progress.behind, taken]
  rfl

theorem takeIntegers_of_overflow (numerable : Numerable rows)
    (exceeds : ¬Numerable (rows ++ (integersFrom number [] words).rows)) :
    takeIntegers number words (.behind rows header warnings) =
      .error (.fault .registryFull) := by
  have taken : (ofNamed rows : Cnf).intake.takeYield (integersFrom number [] words) =
      .error (.fault .registryFull) := by
    rw [takeYield_eq_fault_iff (numVars_ofNamed_le_iff.mpr numerable), withRows_ofNamed,
      ← Nat.not_le, numVars_ofNamed_le_iff]
    exact ⟨exceeds, rfl⟩
  rw [takeIntegers, Progress.behind, taken]
  rfl

theorem takeIntegers_of_error {problem : Error} (numerable : Numerable rows)
    (fits : Numerable (rows ++ (integersFrom number [] words).rows))
    (unread : (integersFrom number [] words).ended = .error problem) :
    takeIntegers number words (.behind rows header warnings) = .error (.error problem) := by
  have taken : (ofNamed rows : Cnf).intake.takeYield (integersFrom number [] words) =
      .error (.error problem) := by
    rw [takeYield_eq_error_iff (numVars_ofNamed_le_iff.mpr numerable), withRows_ofNamed]
    exact ⟨numVars_ofNamed_le_iff.mpr fits, unread⟩
  rw [takeIntegers, Progress.behind, taken]
  rfl

/-- The clauses that are read of a line are none or complete, so they have numbers unless there
are too many names. -/
theorem numerable_of_not_overflows (numerable : Numerable rows) (reads : LineWords line words)
    (fits : ¬Overflows rows line) : Numerable (rows ++ (integersFrom number [] words).rows) := by
  rcases completed_rows number words with none | completed
  · rwa [none, List.append_nil]
  · exact not_not.mp fun exceeds => fits ⟨words, _, reads, completed, exceeds⟩

/-- The clauses of a line in order are none or complete. -/
theorem InOrder.numerable {announced : Prop} (ordered : InOrder announced words clauses)
    (numerable : Numerable rows) (reads : LineWords line words) (fits : ¬Overflows rows line) :
    Numerable (rows ++ clauses) := by
  cases ordered with
  | blank | comment | repeated | problem => rwa [List.append_nil]
  | integers read cut =>
      have completed : Completed (words ++ []) _ := .intro read cut (.inl rfl)
      rw [List.append_nil] at completed
      exact not_not.mp fun exceeds => fits ⟨words, _, reads, completed, exceeds⟩

/-- What is known of the header and the warnings behind one more line. -/
def Progress.next (rows : List NamedClause) (header : Option Header) (warnings : List Warning)
    (number : Nat) (words : List String) : Progress :=
  .behind rows (header.or (readHeader number words).toOption)
    (warnings ++ if header.isSome = true ∧ words.head? = some "p" then [.repeatedHeader number]
      else [])

/-- A line that is no problem line is not remembered otherwise than for its clauses. -/
theorem Progress.next_of_ne (other : words.head? ≠ some "p") :
    next rows header warnings number words = behind rows header warnings := by
  simp [next, other, toOption_readHeader_of_ne other]

/-- The reader takes a line that is in order. -/
theorem readLines_cons_of_inOrder (numerable : Numerable rows)
    (fits : Numerable (rows ++ clauses)) (reads : LineWords line words)
    (ordered : InOrder (header.isSome = true) words clauses) :
    readLines number (.behind rows header warnings) (line :: rest) =
      readLines (number + 1) (.next (rows ++ clauses) header warnings number words) rest := by
  obtain ⟨text, isText, spelled⟩ := reads
  rw [readLines, isText]
  simp only [Text.words_eq_iff.mpr spelled]
  cases ordered with
  | blank =>
      rw [Progress.next_of_ne (by simp), List.append_nil]
      rfl
  | @comment first others marked =>
      have notMark : first ≠ "%" := by rintro rfl; revert marked; decide
      have notHeader : first ≠ "p" := by rintro rfl; revert marked; decide
      rw [Progress.next_of_ne (by simpa using notHeader), List.append_nil]
      simp [LineKind.ofWords, notMark, marked]
  | @repeated others again =>
      obtain ⟨header, rfl⟩ := Option.isSome_iff_exists.mp again
      simp [LineKind.ofWords, takeHeader, Except.map, Except.mapError, Progress.behind,
        Progress.next]
  | @problem numVars clauses numVarsRead clausesRead =>
      cases header with
      | none =>
          obtain ⟨varCount, numVarsRead⟩ := Option.isSome_iff_exists.mp numVarsRead
          obtain ⟨count, clausesRead⟩ := Option.isSome_iff_exists.mp clausesRead
          simp [LineKind.ofWords, takeHeader, readHeader, numVarsRead, clausesRead, Except.map,
            Except.mapError, Except.toOption, bind, Except.bind, pure, Except.pure,
            Progress.behind, Progress.next]
      | some header =>
          simp [LineKind.ofWords, takeHeader, Except.map, Except.mapError, Progress.behind,
            Progress.next]
  | integers read cut =>
      obtain rfl := Text.piecesFrom_eq_iff.mpr cut
      have whole : integersFrom number [] words = _ := integersFrom_eq [] read
      cases words with
      | nil =>
          obtain rfl := List.map_eq_nil_iff.mp read.symm
          rw [Progress.next_of_ne (by simp)]
          simp [LineKind.ofWords, Text.piecesFrom]
      | cons first others =>
          obtain ⟨value, _, _, readFirst, _⟩ := List.map_eq_cons_iff.mp read.symm
          have isIntegers : LineKind.ofWords (first :: others) = .integers :=
            ofWords_of_readSigned readFirst.symm
          have notHeader : first ≠ "p" := by
            rintro rfl
            simp [LineKind.ofWords] at isIntegers
          rw [Progress.next_of_ne (by simpa using notHeader)]
          simp only [isIntegers, takeIntegers_of_ok numerable fits whole]
          rfl

/-- The reader stops at a line that is not in order, if there are numbers for the names up to
what is wrong with it. -/
theorem readLines_cons_of_offends {problem : Error} (goesOn : ¬BeginsWith "%" line)
    (numerable : Numerable rows) (fits : ¬Overflows rows line)
    (offends : Offends (header.isSome = true) number line problem) :
    readLines number (.behind rows header warnings) (line :: rest) =
      ⟨.error (.error problem), warnings⟩ := by
  cases offends with
  | notText unread =>
      rw [readLines, unread]
      rfl
  | @disordered words complaint reads disordered complains =>
      have notMark : words.head? ≠ some "%" := by
        intro first
        obtain ⟨others, rfl⟩ := List.head?_eq_some_iff.mp first
        exact goesOn ⟨others, reads⟩
      have numbered : Numerable (rows ++ (integersFrom number [] words).rows) :=
        numerable_of_not_overflows numerable reads fits
      obtain ⟨text, isText, spelled⟩ := reads
      rw [readLines, isText]
      simp only [Text.words_eq_iff.mpr spelled]
      cases words with
      | nil => exact absurd .blank (disordered [])
      | cons first others =>
          have notComment : first.toList.head? ≠ some 'c' :=
            fun marked => disordered [] (.comment marked)
          by_cases isHeader : first = "p"
          · subst isHeader
            have unseen : header = none := by
              rw [← Option.not_isSome_iff_eq_none]
              exact fun again => disordered [] (.repeated again)
            have refused : readHeader number ("p" :: others) = _ :=
              readHeader_eq_error_iff.mpr ⟨complaint, rfl, complains⟩
            simp [LineKind.ofWords, takeHeader, unseen, refused, Except.map, Except.mapError, bind,
              Except.bind, Progress.behind]
          · have refused : (first :: others).mapM (readInteger number) = _ :=
              (mapM_readInteger_eq_error_iff (by simpa using isHeader)).mpr
                ⟨complaint, rfl, complains⟩
            have unread : (integersFrom number [] (first :: others)).ended = _ :=
              (ended_integersFrom [] _).trans (Outcomes.map_eq_error_iff.mpr refused)
            have notMark : first ≠ "%" := by simpa using notMark
            have isIntegers : LineKind.ofWords (first :: others) = .integers := by
              simp [LineKind.ofWords, isHeader, notMark, notComment]
            simp only [isIntegers, takeIntegers_of_error numerable numbered unread]
            rfl

/-- The reader stops at a line with too many names. -/
theorem readLines_cons_of_overflows (numerable : Numerable rows) (overflows : Overflows rows line) :
    readLines number (.behind rows header warnings) (line :: rest) =
      ⟨.error (.fault .registryFull), warnings⟩ := by
  obtain ⟨words, clauses, ⟨text, isText, spelled⟩, completed, exceeds⟩ := overflows
  have whole : ¬Numerable (rows ++ (integersFrom number [] words).rows) := fun fits =>
    exceeds (fits.of_prefix ((List.prefix_append_right_inj rows).mpr completed.prefix_rows))
  rw [readLines, isText]
  simp only [Text.words_eq_iff.mpr spelled]
  have isIntegers : LineKind.ofWords words = .integers := by
    obtain @⟨front, back, values, runs, read, cut, _⟩ := completed
    cases front with
    | nil =>
        obtain rfl := List.map_eq_nil_iff.mp read.symm
        obtain rfl := Text.piecesFrom_eq_iff.mpr cut
        exact absurd (by rwa [show Text.piecesFrom (0 : Int) [] [] = [] from rfl, List.map_nil,
          List.append_nil]) exceeds
    | cons first others =>
        obtain ⟨value, _, _, readFirst, _⟩ := List.map_eq_cons_iff.mp read.symm
        exact ofWords_of_readSigned readFirst.symm
  simp only [isIntegers, takeIntegers_of_overflow numerable whole]
  rfl

/-- The reader is done at the line that ends the file. -/
theorem readLines_cons_of_endMark {progress : Progress} (ends : BeginsWith "%" line) :
    readLines number progress (line :: rest) = progress.finish := by
  obtain ⟨others, text, isText, spelled⟩ := ends
  rw [readLines, isText]
  simp only [Text.words_eq_iff.mpr spelled]
  simp [LineKind.ofWords]

end Step

/-! ## Lines in front -/

section Lines

variable {before : List (List UInt8)} {line : List UInt8} {rows : List NamedClause}

theorem announced_concat (before : List (List UInt8)) (line : List UInt8) :
    announced (before ++ [line]) = (announced before).or
      ((words? line).bind fun words => (readHeader (before.length + 1) words).toOption) := by
  rw [announced, List.zipIdx_append, List.findSome?_append, Nat.add_comm]
  simp [announced]

theorem problemNumbers_concat (before : List (List UInt8)) (line : List UInt8) :
    problemNumbers (before ++ [line]) = problemNumbers before ++
      if BeginsWith "p" line then [before.length + 1] else [] := by
  rw [problemNumbers, List.zipIdx_append, List.filterMap_append, Nat.add_comm]
  by_cases isHeader : BeginsWith "p" line <;> simp [problemNumbers, isHeader]

theorem announced_concat_iff :
    Announced (before ++ [line]) ↔ Announced before ∨ BeginsWith "p" line := by
  simp [Announced, or_and_right, exists_or]

theorem problemNumbers_eq_nil_iff : problemNumbers before = [] ↔ ¬Announced before := by
  induction before using List.reverseRecOn with
  | nil => simp [problemNumbers, Announced]
  | append_singleton before line ih =>
      rw [problemNumbers_concat, List.append_eq_nil_iff, ih, announced_concat_iff]
      simp

/-- A problem line is reported if there has been one before. -/
theorem repeats_concat (before : List (List UInt8)) (line : List UInt8) :
    repeats (before ++ [line]) = repeats before ++
      if Announced before ∧ BeginsWith "p" line then [.repeatedHeader (before.length + 1)]
      else [] := by
  by_cases isHeader : BeginsWith "p" line
  · rw [repeats, problemNumbers_concat, if_pos isHeader]
    cases known : problemNumbers before with
    | nil =>
        have quiet : ¬Announced before := problemNumbers_eq_nil_iff.mp known
        simp [repeats, known, quiet]
    | cons first others =>
        have again : Announced before := by
          by_contra quiet
          simp [problemNumbers_eq_nil_iff.mpr quiet] at known
        simp [repeats, known, again, isHeader]
  · simp [repeats, problemNumbers_concat, isHeader]

/-- The first problem line among lines in order has announced its counts. -/
theorem isSome_announced_iff (meaning : Meaning before rows) :
    (announced before).isSome = true ↔ Announced before := by
  induction meaning with
  | nil => simp [announced, Announced]
  | @concat before line words rows clauses _ reads ordered ih =>
      rw [announced_concat, announced_concat_iff, Option.isSome_or, Bool.or_eq_true, ih,
        lineWords_iff.mp reads, Option.bind_some, reads.beginsWith_iff]
      constructor
      · rintro (again | read)
        · exact .inl again
        · refine .inr (Decidable.by_contra fun other => ?_)
          simp [toOption_readHeader_of_ne other] at read
      · rintro (again | isHeader)
        · exact .inl again
        · obtain ⟨rest, rfl⟩ := List.head?_eq_some_iff.mp isHeader
          exact ordered.repeated_or_read

/-- Behind lines in order the reader knows what they mean. -/
theorem readLines_of_meaning (meaning : Meaning before rows) (numerable : Numerable rows)
    (rest : List (List UInt8)) :
    readLines 1 .start (before ++ rest) =
      readLines (before.length + 1) (.behind rows (announced before) (repeats before)) rest := by
  induction meaning generalizing rest with
  | nil => rfl
  | @concat before line words rows clauses earlier reads ordered ih =>
      have known : InOrder ((announced before).isSome = true) words clauses :=
        propext (isSome_announced_iff earlier) ▸ ordered
      have fits : Numerable rows := numerable.of_prefix (List.prefix_append rows clauses)
      rw [List.append_assoc, List.singleton_append, ih fits,
        readLines_cons_of_inOrder fits numerable reads known]
      simp [Progress.next, announced_concat, lineWords_iff.mp reads, repeats_concat,
        isSome_announced_iff earlier, reads.beginsWith_iff]

/-- Words that are not in order give a reason to complain. -/
theorem exists_complains {seen : Prop} {words : List String}
    (disordered : ∀ clauses, ¬InOrder seen words clauses) :
    ∃ complaint, Complains words complaint := by
  by_cases isHeader : words.head? = some "p"
  · obtain ⟨rest, rfl⟩ := List.head?_eq_some_iff.mp isHeader
    cases read : readHeader 0 ("p" :: rest) with
    | ok header => exact absurd (inOrder_of_readHeader read) (disordered [])
    | error problem =>
        obtain ⟨complaint, _, complains⟩ := readHeader_eq_error_iff.mp read
        exact ⟨complaint, complains⟩
  · cases read : words.mapM (readInteger 0) with
    | ok values =>
        have cut : Text.Pieces 0 values _ := Text.piecesFrom_eq_iff.mp rfl
        exact absurd (.integers (mapM_readInteger_eq_ok_iff.mp read) cut) (disordered _)
    | error problem =>
        obtain ⟨complaint, _, complains⟩ := (mapM_readInteger_eq_error_iff isHeader).mp read
        exact ⟨complaint, complains⟩

/-- A line that is not in order offends. -/
theorem exists_offends {seen : Prop} {number : Nat}
    (disordered : ∀ words clauses, LineWords line words → ¬InOrder seen words clauses) :
    ∃ problem, Offends seen number line problem := by
  cases isText : text? line with
  | none => exact ⟨_, .notText isText⟩
  | some text =>
      have reads : LineWords line (Text.words text) := ⟨text, isText, Text.words_eq_iff.mp rfl⟩
      obtain ⟨complaint, complains⟩ := exists_complains fun clauses =>
        disordered _ clauses reads
      exact ⟨_, .disordered reads (fun clauses => disordered _ clauses reads) complains⟩

/-- A line that reading stops at, behind lines that mean the given rows: it has too many names
or it offends. -/
inductive Stops (rows : List NamedClause) (seen : Prop) (number : Nat) (line : List UInt8) :
    Failure → Prop
  | full (overflows : Overflows rows line) : Stops rows seen number line (.fault .registryFull)
  | refused {problem : Error} (fits : ¬Overflows rows line)
      (offends : Offends seen number line problem) : Stops rows seen number line (.error problem)

/-- Lines are in order up to the end or up to the first that reading stops at. -/
theorem meaning_or_stops (body : List (List UInt8)) :
    (∃ rows, Meaning body rows ∧ Numerable rows) ∨
      ∃ before line behind rows failure, body = before ++ line :: behind ∧ Meaning before rows ∧
        Numerable rows ∧ Stops rows (Announced before) (before.length + 1) line failure := by
  induction body using List.reverseRecOn with
  | nil => exact .inl ⟨[], .nil, numerable_nil⟩
  | append_singleton body line ih =>
      rcases ih with
        ⟨rows, meaning, numerable⟩ | ⟨before, first, behind, rows, failure, rfl, others⟩
      · by_cases fits : Overflows rows line
        · exact .inr ⟨body, line, [], rows, _, rfl, meaning, numerable, .full fits⟩
        by_cases ordered : ∃ words clauses, LineWords line words ∧
          InOrder (Announced body) words clauses
        · obtain ⟨words, clauses, reads, ordered⟩ := ordered
          exact .inl ⟨_, .concat meaning reads ordered, ordered.numerable numerable reads fits⟩
        · obtain ⟨problem, offends⟩ := exists_offends fun words clauses reads inOrder =>
            ordered ⟨words, clauses, reads, inOrder⟩
          exact .inr ⟨body, line, [], rows, _, rfl, meaning, numerable, .refused fits offends⟩
      · exact .inr ⟨before, first, behind ++ [line], rows, failure, by simp, others⟩

end Lines

/-! ## The whole file -/

section File

variable {bytes : List UInt8} {body : List (List UInt8)}

theorem isBody_iff :
    IsBody bytes body ↔ (lines bytes).takeWhile (¬BeginsWith "%" ·) = body := by
  constructor
  · rintro ⟨behind, cut, goesOn, ends⟩
    rw [Text.lines_eq_iff.mpr cut, List.takeWhile_append_of_pos (by simpa using goesOn)]
    cases behind with
    | nil => simp
    | cons line rest => simp [ends line rfl]
  · rintro rfl
    refine ⟨(lines bytes).dropWhile (¬BeginsWith "%" ·), ?_, ?_, ?_⟩
    · rw [List.takeWhile_append_dropWhile]
      exact Text.lines_eq_iff.mp rfl
    · intro line member
      simpa using List.mem_takeWhile_imp member
    · intro line first
      have stops := List.head?_dropWhile_not (¬BeginsWith "%" ·) (lines bytes)
      rw [first] at stops
      simpa using stops

/-- So few bytes have no more names than there are numbers. -/
theorem numerable_of_isBody (isBody : IsBody bytes body) (short : bytes.length ≤ Literal.maxVar)
    {before behind : List (List UInt8)} {rows : List NamedClause}
    (split : body = before ++ behind) (meaning : Meaning before rows) :
    Numerable rows ∧ ∀ line, behind.head? = some line → ¬Overflows rows line := by
  obtain ⟨rest, cut, _⟩ := isBody
  have whole : before.flatten.length + behind.flatten.length ≤ Literal.maxVar := by
    have lengths := cut.length_flatten_le
    simp only [split, List.flatten_append, List.length_append] at lengths
    omega
  have known := meaning.length_le
  refine ⟨numerable_of_length_le (by omega), ?_⟩
  rintro line first ⟨words, clauses, reads, completed, exceeds⟩
  obtain ⟨others, rfl⟩ := List.head?_eq_some_iff.mp first
  have next := Nat.le_trans completed.length_le reads.length_le
  apply exceeds
  apply numerable_of_length_le
  simp only [List.flatten_cons, List.flatten_append, List.length_append] at whole ⊢
  omega

/-- A file whose lines are in order is read as what they mean. -/
theorem read_of_meaning {rows : List NamedClause} (isBody : IsBody bytes body)
    (meaning : Meaning body rows) (numerable : Numerable rows) :
    read bytes = ⟨.ok (.ofNamed rows),
      repeats body ++ countWarnings (announced body) (.ofNamed rows)⟩ := by
  obtain ⟨behind, cut, _, ends⟩ := isBody
  rw [read, Text.lines_eq_iff.mpr cut, readLines_of_meaning meaning numerable]
  have finished :
      readLines (body.length + 1) (.behind rows (announced body) (repeats body)) behind =
        Progress.finish (.behind rows (announced body) (repeats body)) := by
    cases behind with
    | nil => rfl
    | cons line rest => exact readLines_cons_of_endMark (ends line rfl)
  rw [finished]
  simp [Progress.finish, Progress.behind]

/-- A file is read up to the first line that reading stops at. -/
theorem read_of_stops {before behind : List (List UInt8)} {line : List UInt8}
    {rows : List NamedClause} {failure : Failure} (isBody : IsBody bytes body)
    (split : body = before ++ line :: behind) (meaning : Meaning before rows)
    (numerable : Numerable rows)
    (stops : Stops rows (Announced before) (before.length + 1) line failure) :
    read bytes = ⟨.error failure, repeats before⟩ := by
  obtain ⟨rest, cut, goesOn, _⟩ := isBody
  rw [read, Text.lines_eq_iff.mpr cut, split, List.append_assoc,
    readLines_of_meaning meaning numerable]
  cases stops with
  | full overflows => exact readLines_cons_of_overflows numerable overflows
  | @refused problem fits offends =>
      have known : Offends ((announced before).isSome = true) (before.length + 1) line problem :=
        propext (isSome_announced_iff meaning) ▸ offends
      exact readLines_cons_of_offends (goesOn line (by simp [split])) numerable fits known

/-- A formula that is read is what the lines mean. -/
theorem exists_meaning_of_read {formula : Cnf} (ended : (read bytes).result = .ok formula) :
    ∃ body rows, IsBody bytes body ∧ Meaning body rows ∧ Numerable rows ∧
      formula = .ofNamed rows := by
  have isBody : IsBody bytes _ := isBody_iff.mpr rfl
  rcases meaning_or_stops _ with
    ⟨rows, meaning, fits⟩ | ⟨_, _, _, _, _, split, meaning, fits, stops⟩
  · rw [read_of_meaning isBody meaning fits] at ended
    exact ⟨_, rows, isBody, meaning, fits, (Except.ok.inj ended).symm⟩
  · rw [read_of_stops isBody split meaning fits stops] at ended
    cases ended

/-- A failure is that of the first line that reading stops at. -/
theorem read_eq_error_iff (isBody : IsBody bytes body) {failure : Failure}
    {warnings : List Warning} :
    read bytes = ⟨.error failure, warnings⟩ ↔
      ∃ before line behind rows, body = before ++ line :: behind ∧ Meaning before rows ∧
        Numerable rows ∧ Stops rows (Announced before) (before.length + 1) line failure ∧
        warnings = repeats before := by
  constructor
  · intro ended
    rcases meaning_or_stops body with
      ⟨rows, meaning, fits⟩ | ⟨_, _, _, _, _, split, meaning, fits, stops⟩
    · rw [read_of_meaning isBody meaning fits] at ended
      cases ended
    · rw [read_of_stops isBody split meaning fits stops] at ended
      cases ended
      exact ⟨_, _, _, _, split, meaning, fits, stops, rfl⟩
  · rintro ⟨before, line, behind, rows, split, meaning, fits, stops, rfl⟩
    exact read_of_stops isBody split meaning fits stops

/-- The reader goes line by line. A file has one row of lines up to the one that ends it. It
is read exactly if they are all in order, and then the formula is what they mean, its names
numbered as they come: counts that a problem line announces have no part in it. Otherwise the
error is that of the first line that is not in order. Problem lines after the first are
reported as they are reached, and counts other than those read at the end. Only where the
clauses that are complete use more names than there are numbers, there is no answer but a
fault, and that takes more bytes than there are numbers. -/
theorem read_iff_meaning (bytes : List UInt8) :
    (∃! body, IsBody bytes body) ∧
    ∀ body, IsBody bytes body →
      (∀ formula warnings, read bytes = ⟨.ok formula, warnings⟩ ↔
        ∃ rows, Meaning body rows ∧ Numerable rows ∧ formula.NumberedFrom rows ∧
          warnings = repeats body ++ countWarnings (announced body) formula) ∧
      (∀ problem warnings, read bytes = ⟨.error (.error problem), warnings⟩ ↔
        ∃ before line behind rows, body = before ++ line :: behind ∧ Meaning before rows ∧
          Numerable rows ∧ ¬Overflows rows line ∧
          Offends (Announced before) (before.length + 1) line problem ∧
          warnings = repeats before) ∧
      (∀ fault warnings, read bytes = ⟨.error (.fault fault), warnings⟩ ↔
        fault = .registryFull ∧
        ∃ before line behind rows, body = before ++ line :: behind ∧ Meaning before rows ∧
          Numerable rows ∧ Overflows rows line ∧ warnings = repeats before) ∧
      (bytes.length ≤ Literal.maxVar → ∀ before behind rows, body = before ++ behind →
        Meaning before rows →
        Numerable rows ∧ ∀ line, behind.head? = some line → ¬Overflows rows line) := by
  refine ⟨⟨_, isBody_iff.mpr rfl, fun body isBody => (isBody_iff.mp isBody).symm⟩, ?_⟩
  intro body isBody
  refine ⟨fun formula warnings => ⟨fun ended => ?_, ?_⟩, fun problem warnings => ?_,
    fun fault warnings => ?_,
    fun short before behind rows split meaning => numerable_of_isBody isBody short split meaning⟩
  · obtain ⟨_, rows, other, meaning, fits, rfl⟩ :=
      exists_meaning_of_read (congrArg Reading.result ended)
    obtain rfl := (isBody_iff.mp isBody).symm.trans (isBody_iff.mp other)
    cases (read_of_meaning isBody meaning fits).symm.trans ended
    exact ⟨rows, meaning, fits, numberedFrom_ofNamed rows, rfl⟩
  · rintro ⟨rows, meaning, fits, numbered, rfl⟩
    rw [numberedFrom_iff.mp numbered, read_of_meaning isBody meaning fits]
  · rw [read_eq_error_iff isBody]
    constructor
    · rintro ⟨before, line, behind, rows, split, meaning, fits, stops, same⟩
      obtain _ | ⟨short, offends⟩ := stops
      exact ⟨before, line, behind, rows, split, meaning, fits, short, offends, same⟩
    · rintro ⟨before, line, behind, rows, split, meaning, fits, short, offends, same⟩
      exact ⟨before, line, behind, rows, split, meaning, fits, .refused short offends, same⟩
  · rw [read_eq_error_iff isBody]
    constructor
    · rintro ⟨before, line, behind, rows, split, meaning, fits, stops, same⟩
      obtain ⟨overflows⟩ := stops
      exact ⟨rfl, before, line, behind, rows, split, meaning, fits, overflows, same⟩
    · rintro ⟨rfl, before, line, behind, rows, split, meaning, fits, overflows, same⟩
      exact ⟨before, line, behind, rows, split, meaning, fits, .full overflows, same⟩

end File

end ChronoSat.Dimacs
