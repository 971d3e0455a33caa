/-
# How an account reads

The account of a search is typed, and what goes into a log is text. Nothing is lost on
the way: every message is a row of words, its first word says what kind of event it is
about, and the others spell what the event holds. So there is one account that the lines
of a log can have come from. The two lines around the account begin with words of their
own.
-/

import ChronoSat.Proofs.Search.Nesting
import ChronoSat.Proofs.Text.Joining
import ChronoSat.Solver

namespace ChronoSat

namespace Search

/-- The word that messages about a kind of event begin with. -/
def Event.Kind.word : Event.Kind → String
  | conflict => "conflict"
  | propagate => "propagate"
  | decide => "decide"
  | backtrack => "backtrack"

theorem Event.Kind.word_inj {kind other : Kind} (same : kind.word = other.word) : kind = other := by
  cases kind <;> cases other <;> first | rfl | (revert same; decide)

/-- All kinds of events. -/
def Event.Kind.all : List Event.Kind := [conflict, propagate, decide, backtrack]

/-- The words of a choice and the depth it was made at. -/
def Event.choiceWords (choice : Choice) (depth : Nat) : List String :=
  [toString choice.var, "=", toString choice.value, "at", "depth", toString depth]

/-- What the message of an event says behind its first word. -/
def Event.details : Event → List String
  | conflict depth => ["at", "depth", toString depth]
  | propagate literal depth impact =>
    [toString literal.toInt, "at", "depth", toString depth ++ ":", toString impact.satisfied,
      "satisfied,", toString impact.struck, "struck"]
  | decide choice depth clausesLeft =>
    choiceWords choice depth ++ ["(" ++ toString clausesLeft, "clauses", "left)"]
  | backtrack choice depth => choiceWords choice depth

/-- The words of an event's message. -/
def Event.words (event : Event) : List String := event.kind.word :: event.details

/-- The line of an event in a log. -/
def Event.line (event : Event) : LogLine := ⟨event.level, event.message⟩

end Search

/-- The kind of event that a line of a log is about, by its first word. -/
def LogLine.kind? (line : LogLine) : Option Search.Event.Kind :=
  Search.Event.Kind.all.find? fun kind => (Text.words line.message).head? == some kind.word

/-- The lines of a log that are about events. -/
def eventLines (log : List LogLine) : List LogLine :=
  log.filter fun line => line.kind?.isSome

namespace Search

/-! ## Messages -/

open Text in
theorem Event.unbroken_words (event : Event) :
    ∀ word ∈ event.words, Unbroken blankBreak word := by
  have number (count : Nat) := unbroken_toString_nat count
  have truth (value : Bool) : Unbroken blankBreak (toString value) := by
    cases value <;> decide
  have fixed : ∀ word ∈ ["conflict", "propagate", "decide", "backtrack", "at", "depth", "=",
      "satisfied,", "struck", "clauses", "left)"], Unbroken blankBreak word := by decide
  have colon (count : Nat) : Unbroken blankBreak (toString count ++ ":") :=
    (number count).append (by decide)
  have parenthesis (count : Nat) : Unbroken blankBreak ("(" ++ toString count) :=
    Unbroken.append (by decide) (number count)
  simp only [List.forall_mem_cons] at fixed
  cases event <;>
    simp only [words, kind, Kind.word, details, choiceWords, List.cons_append, List.nil_append,
      List.forall_mem_cons, List.not_mem_nil, false_implies, implies_true, unbroken_toString,
      number, truth, colon, parenthesis, fixed, and_true]

/-- A message is its words with spaces between them. -/
theorem Event.message_eq (event : Event) : event.message = " ".intercalate event.words := by
  -- What a number is written as is a word here and nothing to be computed.
  cases event with
  | conflict depth =>
      unfold message words kind Kind.word details
      generalize toString depth = depth
      simp [← String.toList_inj]
  | propagate literal depth impact =>
      unfold message words kind Kind.word details
      generalize toString literal.toInt = literal
      generalize toString depth = depth
      generalize toString impact.satisfied = satisfied
      generalize toString impact.struck = struck
      simp [← String.toList_inj]
  | decide choice depth clausesLeft =>
      unfold message words kind Kind.word details choiceText choiceWords
      generalize toString choice.var = var
      generalize toString choice.value = value
      generalize toString depth = depth
      generalize toString clausesLeft = clausesLeft
      simp [← String.toList_inj]
  | backtrack choice depth =>
      unfold message words kind Kind.word details choiceText choiceWords
      generalize toString choice.var = var
      generalize toString choice.value = value
      generalize toString depth = depth
      simp [← String.toList_inj]

theorem Event.choiceWords_inj {choice other : Choice} {depth deep : Nat}
    (same : choiceWords choice depth = choiceWords other deep) : choice = other ∧ depth = deep := by
  obtain ⟨var, value⟩ := choice
  obtain ⟨otherVar, otherValue⟩ := other
  simp only [choiceWords, List.cons.injEq, Text.toString_nat_inj] at same
  obtain ⟨rfl, _, sameValue, _, _, rfl, _⟩ := same
  have truth : ∀ left right : Bool, toString left = toString right → left = right := by decide
  exact ⟨congrArg _ (truth value otherValue sameValue), rfl⟩

/-- What an event holds can be told from the words about it. -/
theorem Event.eq_of_details_eq {event other : Event} (kinds : event.kind = other.kind)
    (same : event.details = other.details) : event = other := by
  cases event with
  | conflict depth =>
      cases other with
      | conflict deep =>
          simp only [details, List.cons.injEq, Text.toString_nat_inj] at same
          rw [same.2.2.1]
      | _ => cases kinds
  | propagate literal depth impact =>
      cases other with
      | propagate made deep effect =>
          simp only [details, List.cons.injEq, Text.toString_nat_inj, Text.toString_int_inj] at same
          obtain ⟨signed, _, _, colon, satisfied, _, struck, _⟩ := same
          have sameDepth := Text.toString_nat_inj.mp ((String.append_left_inj ":").mp colon)
          have effects : impact = effect := by
            cases impact
            cases effect
            cases satisfied
            cases struck
            rfl
          rw [Literal.toInt_inj signed, sameDepth, effects]
      | _ => cases kinds
  | decide choice depth clausesLeft =>
      cases other with
      | decide made deep left =>
          obtain ⟨choices, behind⟩ := List.append_inj same rfl
          obtain ⟨rfl, rfl⟩ := choiceWords_inj choices
          have parenthesis := (List.cons.inj behind).1
          rw [Text.toString_nat_inj.mp ((String.append_right_inj "(").mp parenthesis)]
      | _ => cases kinds
  | backtrack choice depth =>
      cases other with
      | backtrack made deep =>
          obtain ⟨rfl, rfl⟩ := choiceWords_inj same
          rfl
      | _ => cases kinds

/-- Different events have different messages. -/
theorem Event.message_inj {event other : Event} (same : event.message = other.message) :
    event = other := by
  rw [message_eq, message_eq] at same
  have words := Text.intercalate_space_inj event.unbroken_words other.unbroken_words same
  obtain ⟨first, details⟩ := List.cons.inj words
  exact eq_of_details_eq (Kind.word_inj first) details

/-! ## Lines -/

theorem Event.kind?_line (event : Event) : event.line.kind? = some event.kind := by
  have words : Text.words event.message = event.words := by
    rw [message_eq]
    exact Text.words_eq_iff.mpr (Text.isWords_intercalate event.unbroken_words)
  have first : (Text.words event.line.message).head? = some event.kind.word := by
    rw [line, words]
    rfl
  have found : ∀ kind : Kind, (Kind.all.find? fun other => some kind.word == some other.word) =
      some kind := by
    rintro (_ | _ | _ | _) <;> rfl
  rw [LogLine.kind?, first]
  exact found event.kind

end Search

open Search

/-- A line that begins with another word is about no event. -/
theorem LogLine.kind?_eq_none {line : LogLine} (word : String)
    (unbroken : Text.Unbroken Text.blankBreak word)
    (other : ∀ kind ∈ Event.Kind.all, kind.word ≠ word)
    (starts : word.toList ++ [' '] <+: line.message.toList) : line.kind? = none := by
  rw [kind?, Text.head?_words unbroken starts, List.find?_eq_none]
  intro kind member
  simpa using (other kind member).symm

namespace Report

variable {report : Report} {elapsed : String}

/-- The line that a log begins with. -/
def openingLine (report : Report) : LogLine :=
  ⟨.info, "solving " ++ toString report.numClauses ++ " clauses over " ++
    toString report.numVars ++ " variables"⟩

theorem log_eq (report : Report) (elapsed : String) :
    report.log elapsed =
      report.openingLine :: (report.events.map Event.line ++
        (report.closingLine elapsed).toList) := rfl

theorem kind?_openingLine (report : Report) : report.openingLine.kind? = none := by
  apply LogLine.kind?_eq_none "solving" (by decide) (by decide)
  unfold openingLine
  generalize toString report.numClauses = clauses
  generalize toString report.numVars = registered
  simp

theorem kind?_closingLine {line : LogLine} (closes : line ∈ report.closingLine elapsed) :
    line.kind? = none := by
  unfold closingLine at closes
  generalize toString report.stats.decisions = decisions at closes
  split at closes
  · cases closes
    exact LogLine.kind?_eq_none "satisfiable" (by decide) (by decide) (by simp)
  · cases closes
    exact LogLine.kind?_eq_none "unsatisfiable" (by decide) (by decide) (by simp)
  · cases closes
    exact LogLine.kind?_eq_none "gave" (by decide) (by decide) (by simp)
  · cases closes

/-- The lines of a log that are about events are those of the account. -/
theorem eventLines_log (report : Report) (elapsed : String) :
    eventLines (report.log elapsed) = report.events.map Event.line := by
  have account : eventLines (report.events.map Event.line) = report.events.map Event.line := by
    rw [eventLines, List.filter_eq_self, List.forall_mem_map]
    intro event _
    rw [event.kind?_line]
    rfl
  have closing : eventLines (report.closingLine elapsed).toList = [] := by
    rw [eventLines, List.filter_eq_nil_iff]
    intro line member
    rw [kind?_closingLine (Option.mem_toList.mp member)]
    exact Bool.false_ne_true
  rw [eventLines] at account closing
  rw [log_eq, eventLines, List.filter_cons_of_neg, List.filter_append, account, closing,
    List.append_nil]
  rw [kind?_openingLine]
  exact Bool.false_ne_true

/-- There is one account that the lines of a log can have come from. -/
theorem map_message_eq_iff {account : List Event} :
    account.map Event.message = (eventLines (report.log elapsed)).map LogLine.message ↔
      account = report.events := by
  rw [eventLines_log, List.map_map]
  exact List.map_inj_right fun _ _ => Event.message_inj

/-- As many lines of a log are about events of a kind as there are in the account. -/
theorem countP_log (report : Report) (elapsed : String) (kind : Event.Kind) :
    (report.log elapsed).countP (fun line => line.kind? == some kind) =
      tally kind report.events := by
  have inside : (report.log elapsed).countP (fun line => line.kind? == some kind) =
      (eventLines (report.log elapsed)).countP fun line => line.kind? == some kind := by
    rw [eventLines, List.countP_filter]
    apply List.countP_congr
    intro line _
    cases line.kind? <;> simp
  rw [inside, eventLines_log, List.countP_map, tally, List.count, List.countP_map]
  apply List.countP_congr
  intro event _
  simp [event.kind?_line]

end Report

end ChronoSat
