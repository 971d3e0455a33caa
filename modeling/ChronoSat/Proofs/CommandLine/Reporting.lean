/-
# What a report says

A request to solve a text is answered with the truth. Either the text does not parse, and
then nothing is printed and the error is told, or it stands for a formula, and then the
last line says whether the formula has a model. Only for a text with more names than there
are numbers is there no answer. What stands in front of that line depends
on the options alone, but for two parts: the line that says that a model was checked, and
the line with the model. They are there if they are wanted and there is a model, and the
first never says that the check failed.

Both parts are recognised by how their lines begin. That no other line begins like them is
shown for all lines a report can have (`Plain`), so that a reader of the output can tell.
-/

import ChronoSat.CommandLine.Run
import ChronoSat.FileTree
import ChronoSat.Proofs.Assignment.Spelling
import ChronoSat.Proofs.Dimacs.LineByLine
import ChronoSat.Proofs.Infix.Grammar
import ChronoSat.Proofs.Instruments
import ChronoSat.Proofs.Search.Verdict

namespace ChronoSat.CommandLine

variable {World γ : Type} [RandomSource γ]

/-! ## Transcripts without trouble -/

/-- A transcript that prints some lines and ends well. -/
structure Transcript.Prints (transcript : Transcript) (lines : List String) : Prop where
  output : transcript.output = lines
  trouble : transcript.trouble = none

namespace Transcript

variable {first second : Transcript} {lines more : List String}

theorem prints_print (lines : List String) : (print lines).Prints lines := ⟨rfl, rfl⟩

theorem prints_logged (target : Target) (log : List LogLine) : (logged target log).Prints [] :=
  ⟨rfl, rfl⟩

theorem Prints.append (before : first.Prints lines) (after : second.Prints more) :
    (first ++ second).Prints (lines ++ more) := by
  rw [andThen_of_none second before.trouble, before.output, after.output]
  exact ⟨rfl, after.trouble⟩

/-- A part that is left out prints nothing. -/
theorem Prints.onlyIf (prints : first.Prints lines) (wanted : Bool) :
    (onlyIf wanted first).Prints (if wanted then lines else []) := by
  cases wanted with
  | true => exact prints
  | false => exact ⟨rfl, rfl⟩

theorem Prints.exit (prints : first.Prints lines) (debug : Bool) :
    (first.exit debug).status = 0 ∧ (first.exit debug).output = lines := by
  rw [Transcript.exit, prints.trouble]
  exact ⟨rfl, prints.output⟩

end Transcript

/-! ## Lines -/

/-- What the line about a checked model begins with. -/
def checkMark : String := "Verified: "

/-- What the line with a model begins with. -/
def modelMark : String := "v "

/-- A line that begins neither like the one about a checked model nor like the one with a
model. -/
def Plain (line : String) : Prop :=
  ∀ mark ∈ [checkMark, modelMark], ¬mark.toList <+: line.toList

instance (line : String) : Decidable (Plain line) :=
  inferInstanceAs (Decidable (∀ mark ∈ [checkMark, modelMark], ¬mark.toList <+: line.toList))

theorem plain_append (start rest : String)
    (apart : ∀ mark ∈ [checkMark, modelMark],
      ¬mark.toList <+: start.toList ∧ ¬start.toList <+: mark.toList) :
    Plain (start ++ rest) := by
  intro mark member begins
  rw [String.toList_append] at begins
  rcases List.prefix_or_prefix_of_prefix begins (List.prefix_append _ _) with shorter | longer
  · exact (apart mark member).1 shorter
  · exact (apart mark member).2 longer

theorem plain_statLine (label value : String) : Plain (statLine label value) := by
  simp only [statLine, String.append_assoc]
  exact plain_append "|  " _ (by decide)

theorem plain_rateLine (label : String) (count : Nat) (elapsed : Measured) :
    Plain (rateLine label count elapsed) := by
  simp only [rateLine, String.append_assoc]
  exact plain_append "|  " _ (by decide)

theorem plain_statisticsLines (formula : Cnf) (stats : Search.Stats)
    (measurements : Measurements) :
    ∀ line ∈ statisticsLines formula stats measurements, Plain line := by
  have rule : Plain "=====================================================================" := by
    decide
  have problem :
      Plain "=======================[ Problem Statistics ]=========================" := by decide
  have search :
      Plain "========================[ Search Statistics ]========================" := by decide
  have blank : Plain "" := by decide
  simp only [statisticsLines, problemLines, searchLines, List.cons_append, List.nil_append,
    List.forall_mem_cons, plain_statLine, plain_rateLine, rule, problem, search, blank,
    List.not_mem_nil, false_implies, implies_true, and_true]

/-- What is printed before a formula is solved. -/
def openingLines (common : CommonOptions) (formula : Cnf) : List String :=
  if common.debug then
    ["CNF: " ++ formula.render, "Variables: " ++ toString formula.numVars,
      "Clauses: " ++ toString formula.size]
  else []

theorem prints_announcement (common : CommonOptions) (formula : Cnf) :
    (announcement common none formula).Prints (openingLines common formula) :=
  (Transcript.prints_print []).append ((Transcript.prints_print _).onlyIf common.debug)

theorem plain_openingLines (common : CommonOptions) (formula : Cnf) :
    ∀ line ∈ openingLines common formula, Plain line := by
  unfold openingLines
  split
  · simp only [List.forall_mem_cons]
    exact ⟨plain_append _ _ (by decide), plain_append _ _ (by decide),
      plain_append _ _ (by decide), nofun⟩
  · exact nofun

/-! ## Reports -/

/-- The line with the model that a row of signs is. -/
def solutionLine (formula : Cnf) (signs : List Bool) : String :=
  modelMark ++ " ".intercalate (List.zipWith Literal.spell formula.registry.names signs)

/-- What is truly said of a formula: about the check, about the model, and in the end. -/
inductive Truthful (formula : Cnf) : (checked solution : List String) → (verdict : String) → Prop
  | satisfiable {signs : List Bool} (length : signs.length = formula.numVars)
      (holds : formula.evaluate (.ofSigns signs) = true) :
      Truthful formula ["Verified: true"] [solutionLine formula signs] "SATISFIABLE"
  | unsatisfiable (refuted : ¬formula.Satisfiable) :
      Truthful formula ["UNSAT"] [] "UNSATISFIABLE"

/-- The report on a formula that is settled tells the truth about it. -/
theorem exists_truthful {formula : Cnf} {report : Report} (settles : Settles formula report.answer)
    (fits : formula.numVars ≤ Literal.maxVar) (common : CommonOptions)
    (measurements : Measurements) :
    ∃ checked solution verdict, Truthful formula checked solution verdict ∧
      (searchReport common formula report measurements).Prints
        ((if common.verify then checked else []) ++
          (if common.stats then statisticsLines formula report.stats measurements else []) ++
          (if common.printSolution then solution else []) ++ ["", verdict]) := by
  have assembled {checked solution : List String} {verdict : Verdict}
      (known : Verdict.ofAnswer report.answer = .ok verdict)
      (verification : (verdict.verification formula).Prints checked)
      (shown : (verdict.solution formula).Prints solution) :
      (searchReport common formula report measurements).Prints
        ((if common.verify then checked else []) ++
          (if common.stats then statisticsLines formula report.stats measurements else []) ++
          (if common.printSolution then solution else []) ++ ["", verdict.text]) := by
    rw [searchReport, known]
    exact (Transcript.prints_logged _ _).append
      ((((verification.onlyIf _).append ((Transcript.prints_print _).onlyIf _)).append
        (shown.onlyIf _)).append (Transcript.prints_print _))
  generalize report.answer = answer at settles assembled
  cases settles with
  | satisfiable holds covers room =>
      obtain ⟨signs, length, rfl⟩ := covers.exists_eq_ofSigns room
      refine ⟨_, _, _, .satisfiable length holds, assembled rfl ?_ ?_⟩
      · have said : "Verified: " ++ toString true = "Verified: true" := by decide
        simp only [Verdict.verification, holds, if_true, said]
        exact Transcript.prints_print _
      · simp only [Verdict.solution, Formula.modelLine_ofSigns length fits]
        exact Transcript.prints_print _
  | unsatisfiable refuted =>
      exact ⟨_, _, _, .unsatisfiable refuted, assembled rfl (Transcript.prints_print _) ⟨rfl, rfl⟩⟩

/-! ## Solving a text -/

/-- Without a budget of time the report is on a search by a solver of the library, whatever
it draws from and whatever the clock shows. -/
theorem exists_solveAndReport_eq {instruments : Instruments (StateM World) γ}
    (faithful : instruments.Faithful) {common : CommonOptions} (unlimited : common.timeout = none)
    (formula : Cnf) (parseTime : Measured) (world : World) :
    ∃ (source : γ) (clock : Clock) (elapsed : Measured) (memory : Option Memory),
      (solveAndReport instruments common none formula parseTime world).1 =
        announcement common none formula ++
          searchReport common formula
            ((Solver.builtIn common.selector source 0).solve clock formula).1
            ⟨parseTime, elapsed, memory⟩ := by
  have valid : common.solverConfig = .ok ⟨common.selector, none, common.seed⟩ := by
    rw [CommonOptions.solverConfig, unlimited]
    rfl
  let fresh := instruments.freshSource world
  let source := RandomSource.seeded common.seed fresh.1
  let solver := Solver.builtIn common.selector source 0
  let begun := instruments.now fresh.2
  let solved := instruments.timed none (fun clock => solver.solve clock formula) begun.2
  obtain ⟨clock, known⟩ :=
    faithful.exists_clock none (fun clock => solver.solve clock formula) begun.2
  let finished := instruments.now solved.2
  refine ⟨source, clock, Measured.between begun.1 finished.1,
    (instruments.memory finished.2).1, ?_⟩
  rw [solveAndReport, valid, ← known]
  rfl

/-- What is reported about a formula: lines that say nothing about a model, and the truth. -/
theorem exists_solveAndReport_prints {instruments : Instruments (StateM World) γ}
    (faithful : instruments.Faithful) {common : CommonOptions} (unlimited : common.timeout = none)
    {formula : Cnf} (obtained : Obtainable formula) (parseTime : Measured) (world : World) :
    ∃ checked solution verdict tables, Truthful formula checked solution verdict ∧
      (∀ line ∈ tables, Plain line) ∧
      (solveAndReport instruments common none formula parseTime world).1.Prints
        (openingLines common formula ++
          ((if common.verify then checked else []) ++ tables ++
            (if common.printSolution then solution else []) ++ ["", verdict])) := by
  obtain ⟨source, clock, elapsed, memory, same⟩ :=
    exists_solveAndReport_eq faithful unlimited formula parseTime world
  have settles := Solver.settles_builtIn obtained common.selector source 0 clock
  obtain ⟨checked, solution, verdict, truthful, prints⟩ :=
    exists_truthful settles obtained.numVars_le common ⟨parseTime, elapsed, memory⟩
  refine ⟨checked, solution, verdict, _, truthful, ?_,
    same ▸ (prints_announcement common formula).append prints⟩
  split
  · exact plain_statisticsLines _ _ _
  · exact nofun

section Reading

variable {formula : Cnf} {checked solution opening tables : List String} {verdict line : String}

namespace Truthful

theorem verdict_eq (truthful : Truthful formula checked solution verdict) :
    (formula.Satisfiable → verdict = "SATISFIABLE") ∧
      (¬formula.Satisfiable → verdict = "UNSATISFIABLE") := by
  cases truthful with
  | satisfiable _ holds => exact ⟨fun _ => rfl, fun refuted => absurd ⟨_, holds⟩ refuted⟩
  | unsatisfiable refuted => exact ⟨fun satisfiable => absurd satisfiable refuted, fun _ => rfl⟩

/-- No check fails, and one that is there means a model. -/
theorem mem_checked (truthful : Truthful formula checked solution verdict) :
    "Verified: false" ∉ checked ∧ ("Verified: true" ∈ checked ↔ formula.Satisfiable) := by
  cases truthful with
  | satisfiable _ holds =>
      exact ⟨by decide, fun _ => ⟨_, holds⟩, fun _ => List.mem_singleton_self _⟩
  | unsatisfiable refuted =>
      have noCheck : "Verified: true" ∉ ["UNSAT"] := by decide
      exact ⟨by decide, fun said => absurd said noCheck,
        fun satisfiable => absurd satisfiable refuted⟩

theorem not_begins_of_mem_checked (truthful : Truthful formula checked solution verdict)
    (member : line ∈ checked) : ¬modelMark.toList <+: line.toList := by
  cases truthful with
  | satisfiable | unsatisfiable =>
      rw [List.mem_singleton.mp member]
      decide

theorem exists_mem_solution_iff (truthful : Truthful formula checked solution verdict) :
    (∃ line, line ∈ solution) ↔ formula.Satisfiable := by
  cases truthful with
  | satisfiable _ holds => exact ⟨fun _ => ⟨_, holds⟩, fun _ => ⟨_, List.mem_singleton_self _⟩⟩
  | unsatisfiable refuted => exact ⟨nofun, fun satisfiable => absurd satisfiable refuted⟩

theorem exists_of_mem_solution (truthful : Truthful formula checked solution verdict)
    (member : line ∈ solution) :
    ∃ signs : List Bool, signs.length = formula.numVars ∧
      line = solutionLine formula signs ∧ formula.evaluate (.ofSigns signs) = true := by
  cases truthful with
  | satisfiable length holds => exact ⟨_, length, List.mem_singleton.mp member, holds⟩
  | unsatisfiable => exact absurd member List.not_mem_nil

theorem begins_of_mem_solution (truthful : Truthful formula checked solution verdict)
    (member : line ∈ solution) : modelMark.toList <+: line.toList := by
  obtain ⟨signs, _, rfl, _⟩ := truthful.exists_of_mem_solution member
  rw [solutionLine, String.toList_append]
  exact List.prefix_append _ _

/-- A line that is not plain is about the check or about the model. -/
theorem mem_iff_of_not_plain (truthful : Truthful formula checked solution verdict)
    (plainOpening : ∀ line ∈ opening, Plain line) (plainTables : ∀ line ∈ tables, Plain line)
    (verify printSolution : Bool) (special : ¬Plain line) :
    line ∈ opening ++ ((if verify then checked else []) ++ tables ++
        (if printSolution then solution else []) ++ ["", verdict]) ↔
      verify = true ∧ line ∈ checked ∨ printSolution = true ∧ line ∈ solution := by
  have notOpening : line ∉ opening := fun member => special (plainOpening line member)
  have notTables : line ∉ tables := fun member => special (plainTables line member)
  have notBlank : line ≠ "" := by
    rintro rfl
    exact special (by decide)
  have notVerdict : line ≠ verdict := by
    rintro rfl
    cases truthful <;> exact special (by decide)
  cases verify <;> cases printSolution <;>
    simp [notOpening, notTables, notBlank, notVerdict]

/-- What can be told from a report in which the truth stands between plain lines. -/
theorem reads (truthful : Truthful formula checked solution verdict)
    (plainOpening : ∀ line ∈ opening, Plain line) (plainTables : ∀ line ∈ tables, Plain line)
    (verify printSolution : Bool) {lines : List String}
    (printed : lines = opening ++ ((if verify then checked else []) ++ tables ++
      (if printSolution then solution else []) ++ ["", verdict])) :
    (formula.Satisfiable → lines.getLast? = some "SATISFIABLE") ∧
      (¬formula.Satisfiable → lines.getLast? = some "UNSATISFIABLE") ∧
      "Verified: false" ∉ lines ∧
      ("Verified: true" ∈ lines ↔ verify = true ∧ formula.Satisfiable) ∧
      ((∃ line ∈ lines, modelMark.toList <+: line.toList) ↔
        printSolution = true ∧ formula.Satisfiable) ∧
      ∀ line ∈ lines, modelMark.toList <+: line.toList →
        ∃ signs : List Bool, signs.length = formula.numVars ∧
          line = solutionLine formula signs ∧ formula.evaluate (.ofSigns signs) = true := by
  have last : lines.getLast? = some verdict := by
    rw [printed]
    simp [List.getLast?_append]
  have found {line : String} (special : ¬Plain line) :
      line ∈ lines ↔ verify = true ∧ line ∈ checked ∨ printSolution = true ∧ line ∈ solution := by
    rw [printed]
    exact truthful.mem_iff_of_not_plain plainOpening plainTables verify printSolution special
  have foundCheck {line : String} (special : ¬Plain line)
      (other : ¬modelMark.toList <+: line.toList) :
      line ∈ lines ↔ verify = true ∧ line ∈ checked := by
    have noModel : line ∉ solution := fun member => other (truthful.begins_of_mem_solution member)
    rw [found special]
    simp [noModel]
  have foundModel {line : String} (begins : modelMark.toList <+: line.toList) :
      line ∈ lines ↔ printSolution = true ∧ line ∈ solution := by
    have noCheck : line ∉ checked := fun member => truthful.not_begins_of_mem_checked member begins
    have special : ¬Plain line := fun plain => plain modelMark (by decide) begins
    rw [found special]
    simp [noCheck]
  obtain ⟨said, saidNot⟩ := truthful.verdict_eq
  obtain ⟨neverFails, passes⟩ := truthful.mem_checked
  refine ⟨fun satisfiable => ?_, fun refuted => ?_, ?_, ?_, ?_, ?_⟩
  · rw [last, said satisfiable]
  · rw [last, saidNot refuted]
  · rw [foundCheck (by decide) (by decide)]
    exact fun wanted => neverFails wanted.2
  · rw [foundCheck (by decide) (by decide), passes]
  · rw [← truthful.exists_mem_solution_iff]
    constructor
    · rintro ⟨line, member, begins⟩
      obtain ⟨wanted, shown⟩ := (foundModel begins).mp member
      exact ⟨wanted, line, shown⟩
    · rintro ⟨wanted, line, shown⟩
      have begins := truthful.begins_of_mem_solution shown
      exact ⟨line, (foundModel begins).mpr ⟨wanted, shown⟩, begins⟩
  · intro line member begins
    exact truthful.exists_of_mem_solution ((foundModel begins).mp member).2

end Truthful

end Reading

theorem obtainable_of_readInput {input : String} {dimacs : Bool} {formula : Cnf}
    (read : (readInput input dimacs).result = .ok formula) : Obtainable formula := by
  cases dimacs with
  | true => exact .readDimacs read
  | false => exact .parse read

/-- Numbers for the names run out in no text of fewer bytes. -/
theorem lt_of_readInput_fault {input : String} {dimacs : Bool} {fault : Fault}
    (failed : (readInput input dimacs).result = .error (.fault fault)) :
    fault = .registryFull ∧ Literal.maxVar < input.utf8ByteSize := by
  cases dimacs with
  | true =>
      let bytes := input.toUTF8.toList
      have isBody : Dimacs.IsBody bytes _ := Dimacs.isBody_iff.mpr rfl
      have ended : Dimacs.read bytes = ⟨.error (.fault fault), (Dimacs.read bytes).warnings⟩ :=
        congrArg (Dimacs.Reading.mk · _) failed
      obtain ⟨before, line, behind, rows, split, meaning, _, stops, _⟩ :=
        (Dimacs.read_eq_error_iff isBody).mp ended
      obtain ⟨overflows⟩ := stops
      refine ⟨rfl, Nat.lt_of_not_le fun short => ?_⟩
      rw [← Text.length_toList_toUTF8] at short
      exact (Dimacs.numerable_of_isBody isBody short split meaning).2 line rfl overflows
  | false =>
      obtain ⟨rfl, front, rows, begins, derived, exceeds⟩ := Formula.parse_eq_fault_iff.mp failed
      refine ⟨rfl, Nat.lt_of_not_le fun short => exceeds ?_⟩
      have isTokens := Infix.tokens_eq_iff.mp (rfl : Infix.tokens input = _)
      exact Formula.numerable_of_formulaText isTokens
        (Nat.le_trans (Text.length_le_utf8ByteSize input) short) begins derived

/-- What is read decides what solving a text comes to. -/
theorem exists_solveText_eq (instruments : Instruments (StateM World) γ) (input : String)
    (dimacs : Bool) (common : CommonOptions) (world : World) :
    ∃ parseTime later, (solveText instruments input dimacs common world).1 =
      warningLog (readInput input dimacs) ++
        (solveReading instruments common none id (readInput input dimacs).result parseTime
          later).1 :=
  ⟨_, _, rfl⟩

/-- Asked to solve a text without a budget of time, the program reports the truth. A text
that does not parse is told with its error and nothing is printed. For any other text the
program ends well and its last line says whether the formula has a model, but for texts that
have more names than there are numbers: they make the program break off, with nothing printed,
and have more bytes than there are numbers. That a model was checked is printed if this was
asked for and there is one, and the check never fails. A line with a model is printed if this
was asked for and there is one, and names every variable once, in order, with signs that make
the formula true. -/
theorem act_text {instruments : Instruments (StateM World) γ} (faithful : instruments.Faithful)
    (files : Files (StateM World)) (input : String) (dimacs : Bool) (common : CommonOptions)
    (unlimited : common.timeout = none) (world : World) :
    ∃ exit, (act instruments files (.text input dimacs common) world).1 = .finished exit ∧
      (∀ problem, (readInput input dimacs).result = .error (.error problem) →
        exit.status = 1 ∧ exit.output = [] ∧
          exit.errors.getLast? = some ("error: " ++ problem.message)) ∧
      (∀ fault, (readInput input dimacs).result = .error (.fault fault) →
        fault = .registryFull ∧ Literal.maxVar < input.utf8ByteSize ∧
          exit.status = 101 ∧ exit.output = []) ∧
      ∀ formula, (readInput input dimacs).result = .ok formula →
        exit.status = 0 ∧
          (formula.Satisfiable → exit.output.getLast? = some "SATISFIABLE") ∧
          (¬formula.Satisfiable → exit.output.getLast? = some "UNSATISFIABLE") ∧
          "Verified: false" ∉ exit.output ∧
          ("Verified: true" ∈ exit.output ↔ common.verify = true ∧ formula.Satisfiable) ∧
          ((∃ line ∈ exit.output, modelMark.toList <+: line.toList) ↔
            common.printSolution = true ∧ formula.Satisfiable) ∧
          ∀ line ∈ exit.output, modelMark.toList <+: line.toList →
            ∃ signs : List Bool, signs.length = formula.numVars ∧
              line = solutionLine formula signs ∧ formula.evaluate (.ofSigns signs) = true := by
  obtain ⟨parseTime, later, same⟩ := exists_solveText_eq instruments input dimacs common world
  refine ⟨(solveText instruments input dimacs common world).1.exit common.debug, rfl, ?_, ?_, ?_⟩
  · intro problem failed
    have told :
        (solveReading instruments common none id (.error (.error problem)) parseTime later).1 =
          .told problem.message := rfl
    rw [same, failed, told, Transcript.andThen_of_none _ rfl]
    refine ⟨rfl, rfl, ?_⟩
    simp [Transcript.exit, Transcript.told, Transcript.failed, List.getLast?_append]
  · intro fault failed
    obtain ⟨full, long⟩ := lt_of_readInput_fault failed
    have broken :
        (solveReading instruments common none id (.error (.fault fault)) parseTime later).1 =
          .failed (.fault fault) := rfl
    rw [same, failed, broken, Transcript.andThen_of_none _ rfl]
    exact ⟨full, long, rfl, rfl⟩
  · intro formula read
    rw [read] at same
    obtain ⟨checked, solution, verdict, tables, truthful, plain, prints⟩ :=
      exists_solveAndReport_prints faithful unlimited (obtainable_of_readInput read) parseTime later
    have whole := same ▸ (Transcript.prints_logged _ _).append prints
    obtain ⟨status, output⟩ := whole.exit common.debug
    exact ⟨status, truthful.reads (plain_openingLines common formula) plain common.verify
      common.printSolution output⟩

/-- One variable has a model, and a connective is no formula. -/
theorem act_text_oneVariable :
    let common : CommonOptions := ⟨true, true, true, true, .random, none, some 7⟩
    let instruments : Instruments (StateM FileTree) Generator := .none _ ⟨7⟩ .still
    let solve (input : String) :=
      (act instruments FileTree.actions (.text input false common) .empty).1
    (∃ exit, solve "a" = .finished exit ∧ exit.status = 0 ∧
        exit.output.getLast? = some "SATISFIABLE" ∧ "Verified: true" ∈ exit.output) ∧
      ∃ exit, solve "∨" = .finished exit ∧ exit.status = 1 ∧ exit.output = [] := by
  intro common instruments solve
  have faithful : instruments.Faithful := Instruments.faithful_none (⟨7⟩ : Generator) .still
  have readOne : (readInput "a" false).result = .ok (.ofNamed [[("a", true)]]) := rfl
  have satisfiable : (Formula.ofNamed [[("a", true)]] : Cnf).Satisfiable :=
    ⟨⟨[none, some true]⟩, by decide⟩
  have readNone : (readInput "∨" false).result =
      .error (.error (.formulaText 0 (.connectiveAsLiteral "∨"))) := rfl
  obtain ⟨exit, solved, _, _, parsed⟩ :=
    act_text faithful FileTree.actions "a" false common rfl .empty
  obtain ⟨refused, failed, told, _⟩ :=
    act_text faithful FileTree.actions "∨" false common rfl .empty
  obtain ⟨status, verdict, _, _, checked, _⟩ := parsed _ readOne
  obtain ⟨failure, silent, _⟩ := told _ readNone
  exact ⟨⟨exit, solved, status, verdict satisfiable, checked.mpr ⟨rfl, satisfiable⟩⟩,
    refused, failed, failure, silent⟩

end ChronoSat.CommandLine
