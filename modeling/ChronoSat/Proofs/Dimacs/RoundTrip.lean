/-
# Clause files that are written and read

A clause file is a problem line and, for each clause, a line of its integers, which a zero may
end. All lines are words with spaces between them, so the reader finds the lines and words that
the writer put there, and what it reads is what the clause lines give one after the other. What
the problem line announces is compared with that. Where zeros end the lines, each is one run, so
the file is read as the formula whose variables are named after their numbers, and the only
warning there can be is about registered variables that do not occur.
-/

import ChronoSat.Dimacs.Writer
import ChronoSat.Proofs.Formula.Gathered
import ChronoSat.Proofs.Formula.Renumbering
import ChronoSat.Proofs.Text.Bytes
import ChronoSat.Proofs.Text.Joining

namespace ChronoSat.Dimacs

variable {formula : Cnf}

/-! ## What is written -/

/-- The words of a problem line. -/
def headerWords (formula : Cnf) : List String :=
  ["p", "cnf", toString formula.numVars, toString formula.size]

/-- The words of a clause's line. -/
def clauseWords (terminator : Terminator) (clause : Clause) : List String :=
  (clause.literals.map Literal.toInt ++ terminator.closing).map toString

/-- The line of some words, without its end. -/
def lineOf (words : List String) : List UInt8 :=
  Text.encoded (" ".intercalate words).toList

/-- The lines of a formula's clause file. -/
def fileWords (terminator : Terminator) (formula : Cnf) : List (List String) :=
  headerWords formula :: formula.clauses.map (clauseWords terminator)

/-- The characters of a formula's clause file. -/
def fileText (terminator : Terminator) (formula : Cnf) : List Char :=
  (fileWords terminator formula).flatMap fun words => (" ".intercalate words).toList ++ ['\n']

theorem toList_foldl_append {α : Type} (line : α → String) (rows : List α) (start : String) :
    (rows.foldl (fun text row => text ++ line row) start).toList =
      start.toList ++ rows.flatMap fun row => (line row).toList := by
  induction rows generalizing start with
  | nil => simp
  | cons row rest ih => rw [List.foldl_cons, ih]; simp

/-- A formula is written as its lines. -/
theorem exists_write_eq_fileText (wellFormed : formula.WellFormed) (terminator : Terminator) :
    ∃ text, write formula terminator = .ok text ∧ text.toList = fileText terminator formula := by
  refine ⟨_, by rw [write, wellFormed.encode_eq_ok]; rfl, ?_⟩
  have header : (headerLine formula).toList =
      (" ".intercalate (headerWords formula)).toList ++ ['\n'] := by
    simp [headerLine, headerWords]
  rw [toList_foldl_append, header, fileText, fileWords, List.flatMap_cons, List.flatMap_map,
    List.flatMap_map]
  simp [clauseLine, clauseWords]

theorem exists_write_eq_ok (wellFormed : formula.WellFormed) :
    ∃ text, write formula .zero = .ok text ∧ text.toList = fileText .zero formula :=
  exists_write_eq_fileText wellFormed .zero

/-! ## Words that are written -/

/-- What is not made of digits, apart from a minus, is no numeral. -/
theorem toString_ne {word : String} {character : Char} (member : character ∈ word.toList)
    (other : character ≠ '-' ∧ character.isDigit = false) (value : Int) :
    toString value ≠ word := by
  rintro rfl
  rcases Text.mem_toString_int member with sign | digit
  · exact other.1 sign
  · simp [other.2] at digit

theorem unbroken_headerWords :
    ∀ word ∈ headerWords formula, Text.Unbroken Text.blankBreak word := by
  simp only [headerWords, List.forall_mem_cons]
  exact ⟨by decide, by decide, Text.unbroken_toString_nat _, Text.unbroken_toString_nat _, nofun⟩

theorem unbroken_numerals (values : List Int) :
    ∀ word ∈ values.map toString, Text.Unbroken Text.blankBreak word :=
  List.forall_mem_map.mpr fun value _ => Text.unbroken_toString value

theorem lineWords_lineOf {words : List String}
    (unbroken : ∀ word ∈ words, Text.Unbroken Text.blankBreak word) :
    LineWords (lineOf words) words := by
  refine ⟨_, Text.text?_encoded _, ?_⟩
  rw [String.ofList_toList]
  exact Text.isWords_intercalate unbroken

/-- A line of numerals begins with nothing else. -/
theorem not_beginsWith_numerals (values : List Int) {word : String} {character : Char}
    (member : character ∈ word.toList) (other : character ≠ '-' ∧ character.isDigit = false) :
    ¬BeginsWith word (lineOf (values.map toString)) := by
  rw [(lineWords_lineOf (unbroken_numerals values)).beginsWith_iff]
  intro first
  obtain ⟨rest, same⟩ := List.head?_eq_some_iff.mp first
  obtain ⟨value, _, _, numeral, _⟩ := List.map_eq_cons_iff.mp same
  exact toString_ne member other value numeral

/-! ## The lines and their meaning -/

/-- No line of a formula's clause file ends the file. -/
theorem isBody_toUTF8 {terminator : Terminator} {text : String}
    (written : text.toList = fileText terminator formula) :
    IsBody text.toUTF8.toList ((fileWords terminator formula).map lineOf) := by
  have unbroken : ∀ words ∈ fileWords terminator formula, ∀ word ∈ words,
      Text.Unbroken Text.blankBreak word :=
    List.forall_mem_cons.mpr ⟨unbroken_headerWords,
      List.forall_mem_map.mpr fun clause _ => unbroken_numerals _⟩
  have goesOn : ∀ words ∈ fileWords terminator formula, ¬BeginsWith "%" (lineOf words) := by
    refine List.forall_mem_cons.mpr ⟨?_, List.forall_mem_map.mpr fun clause _ =>
      not_beginsWith_numerals _ (List.mem_singleton_self '%') (by decide)⟩
    rw [(lineWords_lineOf unbroken_headerWords).beginsWith_iff]
    simp [headerWords]
  refine ⟨[], ?_, List.forall_mem_map.mpr goesOn, nofun⟩
  have cut := Text.pieces_encoded (List.forall_mem_map.mpr
    fun words (member : words ∈ fileWords terminator formula) =>
      Text.newline_not_mem_intercalate (unbroken words member))
  rw [List.map_map, List.flatMap_map] at cut
  rw [List.append_nil, Text.toList_toUTF8, written]
  exact cut

theorem namedLiteral_toInt (literal : Literal) :
    namedLiteral literal.toInt = (Formula.numberedName literal.var, literal.polarity) := by
  obtain ⟨var, polarity, positive⟩ := literal
  cases polarity with
  | false => simp [namedLiteral, Literal.toInt, Formula.numberedName]
  | true => simpa [namedLiteral, Literal.toInt, Formula.numberedName] using positive

theorem zero_not_mem_map_toInt (literals : List Literal) : 0 ∉ literals.map Literal.toInt := by
  intro member
  obtain ⟨literal, _, zero⟩ := List.mem_map.mp member
  exact literal.toInt_ne_zero zero

/-- Numerals are read as the numbers that they were written for. -/
theorem map_readSigned_numerals {values : List Int}
    (fits : ∀ value ∈ values, value.natAbs < Text.signedLimit) :
    (values.map toString).map Text.readSigned = values.map some := by
  rw [List.map_map]
  exact List.map_congr_left fun value member => Text.readSigned_toString (fits value member)

theorem natAbs_lt_of_mem_map_toInt {literals : List Literal}
    (fits : ∀ literal ∈ literals, literal.var ≤ Literal.maxVar) :
    ∀ value ∈ literals.map Literal.toInt, value.natAbs < Text.signedLimit :=
  List.forall_mem_map.mpr fun literal inside => by
    rw [Literal.natAbs_toInt]
    exact Nat.lt_of_le_of_lt (fits literal inside) (by decide)

theorem map_namedLiteral_toInt (clause : Clause) :
    (clause.literals.map Literal.toInt).map namedLiteral = Formula.rowByNumber clause := by
  rw [List.map_map, Formula.rowByNumber]
  exact List.map_congr_left fun literal _ => namedLiteral_toInt literal

/-- The line of a clause is one run of integers. -/
theorem inOrder_clauseWords_zero {clause : Clause} (announced : Prop)
    (fits : ∀ literal ∈ clause.literals, literal.var ≤ Literal.maxVar) :
    InOrder announced (clauseWords .zero clause) [Formula.rowByNumber clause] := by
  have read : (clauseWords .zero clause).map Text.readSigned =
      (clause.literals.map Literal.toInt ++ [0]).map some :=
    map_readSigned_numerals (List.forall_mem_append.mpr
      ⟨natAbs_lt_of_mem_map_toInt fits, List.forall_mem_singleton.mpr (by decide)⟩)
  have ordered : InOrder announced (clauseWords .zero clause) _ :=
    .integers read (.ended (zero_not_mem_map_toInt clause.literals) .none)
  rwa [List.map_singleton, map_namedLiteral_toInt] at ordered

/-- The lines of clauses can be added if they are in order whatever was announced. -/
theorem Meaning.append_clauseWords {terminator : Terminator} {given : Clause → List NamedClause}
    {before : List (List UInt8)} {rows : List NamedClause} (meaning : Meaning before rows)
    {clauses : List Clause} (ordered : ∀ clause ∈ clauses, ∀ announced,
      InOrder announced (clauseWords terminator clause) (given clause)) :
    Meaning (before ++ clauses.map (lineOf ∘ clauseWords terminator))
      (rows ++ clauses.flatMap given) := by
  induction clauses generalizing before rows with
  | nil => simpa using meaning
  | cons clause rest ih =>
      obtain ⟨here, others⟩ := List.forall_mem_cons.mp ordered
      have reads : LineWords (lineOf (clauseWords terminator clause)) _ :=
        lineWords_lineOf (unbroken_numerals _)
      have longer := Meaning.concat meaning reads (here (Announced before))
      simpa using ih longer others

theorem readHeader_headerWords (fits : formula.numVars ≤ Literal.maxVar)
    (sizeFits : formula.size ≤ Text.unsignedLimit) (number : Nat) :
    readHeader number (headerWords formula) = .ok ⟨number, formula.numVars, formula.size⟩ := by
  have numVarsFits : formula.numVars ≤ Text.unsignedLimit := Nat.le_trans fits (by decide)
  simp only [readHeader, headerWords, Text.readUnsigned_toString numVarsFits,
    Text.readUnsigned_toString sizeFits]

/-- The lines of a formula's clause file mean what the lines of its clauses give. -/
theorem meaning_fileWords {terminator : Terminator} {given : Clause → List NamedClause}
    (fits : formula.numVars ≤ Literal.maxVar) (sizeFits : formula.size ≤ Text.unsignedLimit)
    (ordered : ∀ clause ∈ formula.clauses, ∀ announced,
      InOrder announced (clauseWords terminator clause) (given clause)) :
    Meaning ((fileWords terminator formula).map lineOf) (formula.clauses.flatMap given) := by
  have announces : InOrder (Announced []) (headerWords formula) [] :=
    inOrder_of_readHeader (readHeader_headerWords fits sizeFits 1)
  have header := Meaning.concat .nil (lineWords_lineOf unbroken_headerWords) announces
  have all := header.append_clauseWords ordered
  simpa [fileWords] using all

/-! ## What is reported -/

theorem repeats_cons_of_quiet (first : List UInt8) {rest : List (List UInt8)}
    (quiet : ∀ line ∈ rest, ¬BeginsWith "p" line) : repeats (first :: rest) = [] := by
  induction rest using List.reverseRecOn with
  | nil => by_cases isHeader : BeginsWith "p" first <;> simp [repeats, problemNumbers, isHeader]
  | append_singleton rest line ih =>
      obtain ⟨others, last⟩ := List.forall_mem_append.mp quiet
      rw [← List.cons_append, repeats_concat, ih others]
      simp [last line (List.mem_singleton_self line)]

theorem announced_cons {first : List UInt8} {words : List String} {header : Header}
    (reads : LineWords first words) (read : readHeader 1 words = .ok header)
    (rest : List (List UInt8)) : announced (first :: rest) = some header := by
  simp [announced, List.zipIdx_cons, lineWords_iff.mp reads, read, Except.toOption]

/-- A formula's clause file is read as what the lines of its clauses give. It is odd at most in
announcing other counts. -/
theorem read_fileText {terminator : Terminator} {given : Clause → List NamedClause}
    (fits : formula.numVars ≤ Literal.maxVar) (sizeFits : formula.size ≤ Text.unsignedLimit)
    (ordered : ∀ clause ∈ formula.clauses, ∀ announced,
      InOrder announced (clauseWords terminator clause) (given clause))
    (numerable : Formula.Numerable (formula.clauses.flatMap given)) {text : String}
    (written : text.toList = fileText terminator formula) :
    read text.toUTF8.toList = ⟨.ok (.ofNamed (formula.clauses.flatMap given)),
      countWarnings (some ⟨1, formula.numVars, formula.size⟩)
        (.ofNamed (formula.clauses.flatMap given))⟩ := by
  have quiet : ∀ line ∈ (formula.clauses.map (clauseWords terminator)).map lineOf,
      ¬BeginsWith "p" line := by
    rw [List.map_map, List.forall_mem_map]
    intro clause _
    exact not_beginsWith_numerals _ (List.mem_singleton_self 'p') (by decide)
  rw [read_of_meaning (isBody_toUTF8 written) (meaning_fileWords fits sizeFits ordered) numerable,
    fileWords, List.map_cons, repeats_cons_of_quiet _ quiet,
    announced_cons (lineWords_lineOf unbroken_headerWords)
      (readHeader_headerWords fits sizeFits 1)]
  rfl

/-- The file of a formula is read as the formula with its variables named after their numbers.
It is odd at most in announcing more variables than occur. -/
theorem read_toUTF8 (wellFormed : formula.WellFormed) (fits : formula.numVars ≤ Literal.maxVar)
    (sizeFits : formula.size ≤ Text.unsignedLimit) {text : String}
    (written : text.toList = fileText .zero formula) :
    read text.toUTF8.toList = ⟨.ok formula.renumbered,
      countWarnings (some ⟨1, formula.numVars, formula.size⟩) formula.renumbered⟩ := by
  have ordered : ∀ clause ∈ formula.clauses, ∀ announced,
      InOrder announced (clauseWords .zero clause) [Formula.rowByNumber clause] :=
    fun clause member announced => inOrder_clauseWords_zero announced fun literal inside =>
      Nat.le_trans (wellFormed.var_le clause member literal inside) fits
  have given : formula.rowsByNumber =
      formula.clauses.flatMap fun clause => [Formula.rowByNumber clause] :=
    List.map_eq_flatMap
  have numerable := Formula.numerable_rowsByNumber wellFormed fits
  rw [given] at numerable
  rw [Formula.renumbered, given]
  exact read_fileText fits sizeFits ordered numerable written

/-- Which variables the file announces too many. -/
theorem countWarnings_renumbered_eq_nil_iff (wellFormed : formula.WellFormed) :
    countWarnings (some ⟨1, formula.numVars, formula.size⟩) formula.renumbered = [] ↔
      ∀ var ∈ formula.registry.vars,
        ∃ clause ∈ formula.clauses, ∃ literal ∈ clause.literals, literal.var = var := by
  simp only [← Formula.mem_occurrences]
  rw [← Formula.numVars_renumbered_eq_iff wellFormed, countWarnings, Formula.size_renumbered]
  by_cases same : formula.numVars = formula.renumbered.numVars
  · simp [same]
  · simp [same, Ne.symm same]

/-! ## There and back -/

/-- The literals that come back are those that were written, place by place, over variables
named after their numbers. -/
theorem forall₂_renumbered (formula : Cnf) :
    List.Forall₂ (fun clause other =>
      List.Forall₂ (fun literal image =>
        formula.renumbered.registry.name? image.var = some ("p" ++ toString literal.var) ∧
          image.polarity = literal.polarity) clause.literals other.literals)
      formula.clauses formula.renumbered.clauses := by
  rw [Formula.clauses_renumbered, List.forall₂_map_right_iff, List.forall₂_same]
  intro clause member
  rw [List.forall₂_map_right_iff, List.forall₂_same]
  exact fun literal inside => ⟨Formula.name?_renumber member inside, rfl⟩

theorem encode_and_write_renumbered (wellFormed : formula.WellFormed)
    (ordered : formula.InFirstSeenOrder) :
    formula.renumbered.encode = formula.encode ∧
      write formula.renumbered .zero = write formula .zero := by
  have clauses := Formula.clauses_renumbered_of_inFirstSeenOrder wellFormed ordered
  have numVars : formula.renumbered.numVars = formula.numVars := by
    rw [Formula.numVars_renumbered, Formula.eraseDups_occurrences wellFormed ordered]
    simp [Registry.vars, Formula.numVars]
  have renumberedWellFormed : formula.renumbered.WellFormed := Formula.wellFormed_ofNamed _
  have encoded : formula.renumbered.encode = formula.encode := by
    rw [wellFormed.encode_eq_ok, renumberedWellFormed.encode_eq_ok, clauses]
  have header : headerLine formula.renumbered = headerLine formula := by
    rw [headerLine, headerLine, numVars, Formula.size, clauses, Formula.size]
  exact ⟨encoded, by rw [write, write, encoded, header]⟩

/-- Writing and reading clause files. A formula with no more clauses than a machine word counts
is written, and its file is read as a formula with the same literals, place by place, over
variables that are named after their numbers. If its names are registered in the order in
which they occur first, as those of a gathered formula are, the numbers come back as well and
the file is written again. There is a warning exactly if a registered variable does not occur,
and no difference to satisfiability in any case. -/
theorem read_write (obtained : Obtainable formula)
    (sizeFits : formula.size ≤ Text.unsignedLimit) :
    ∃ text reread warnings, write formula .zero = .ok text ∧
      read text.toUTF8.toList = ⟨.ok reread, warnings⟩ ∧
      List.Forall₂ (fun clause other =>
        List.Forall₂ (fun literal image =>
          reread.registry.name? image.var = some ("p" ++ toString literal.var) ∧
            image.polarity = literal.polarity) clause.literals other.literals)
        formula.clauses reread.clauses ∧
      (Gathered formula → formula.InFirstSeenOrder) ∧
      (formula.InFirstSeenOrder →
        reread.encode = formula.encode ∧ write reread .zero = .ok text) ∧
      (warnings = [] ↔ ∀ var ∈ formula.registry.vars,
        ∃ clause ∈ formula.clauses, ∃ literal ∈ clause.literals, literal.var = var) ∧
      (reread.Satisfiable ↔ formula.Satisfiable) := by
  have wellFormed := obtained.wellFormed
  obtain ⟨text, ended, written⟩ := exists_write_eq_ok wellFormed
  refine ⟨text, formula.renumbered, _, ended,
    read_toUTF8 wellFormed obtained.numVars_le sizeFits written, forall₂_renumbered formula,
    Gathered.inFirstSeenOrder, ?_, countWarnings_renumbered_eq_nil_iff wellFormed,
    Formula.satisfiable_renumbered_iff wellFormed⟩
  intro ordered
  rw [← ended]
  exact encode_and_write_renumbered wellFormed ordered

theorem read_write_twoLiterals :
    ∃ text reread, write (.ofNamed [[("b", true), ("a", false)]]) .zero = .ok text ∧
      read text.toUTF8.toList = ⟨.ok reread, []⟩ ∧ reread.encode = .ok [[1, -2]] := by
  have gathered := Formula.gathered_twoLiterals
  obtain ⟨text, reread, warnings, ended, read, _, ordered, same, silent, _⟩ :=
    read_write gathered.obtainable (by decide)
  have encoded := (same (ordered gathered)).1
  have noWarning : warnings = [] := silent.mpr (by decide)
  exact ⟨text, reread, ended, noWarning ▸ read, encoded.trans (by decide)⟩

end ChronoSat.Dimacs
