/-
# The books of a search

A search keeps its books twice: in five counters, and in an account of events. The
counters are those that the account makes, whatever the policy and however the search
ended. The account has the shape of the tree that was searched: complete for a subtree
without a model, and otherwise a way down from the root to where the search is, with
complete accounts beside it.

What the counters have to do with each other follows from the shape alone. Below a node
that branches, two values are decided and taken back, and each of them accounts for the
conflicts of its own subtree; below one that does not branch there is one conflict. So
where no model was found there are two decisions for every conflict but one, and on the
way down a value that was tried second has an odd number of values taken back behind it.

The way down also says what the assignment is at its end. A value that was taken back
leaves no trace in it, whatever was made true below.
-/

import ChronoSat.Proofs.Search.Nesting
import ChronoSat.Proofs.Search.Soundness

namespace ChronoSat

namespace Search

open SearchState

variable {σ : Type}

/-! ## The counters -/

/-- The counters are those that the account makes. -/
def Run.Recorded (run : Run σ) : Prop :=
  run.stats = .of run.latestFirst

namespace Run.Recorded

variable {run : Run σ}

theorem start (formula : Cnf) (memory : σ) : (Run.start formula memory).Recorded := rfl

theorem noteConflict (recorded : run.Recorded) (depth : Nat) :
    (run.noteConflict depth).Recorded := by
  rw [Recorded] at recorded
  simp [Recorded, Run.noteConflict, Stats.of, recorded, deepest, Event.kind, Event.opened]

theorem notePropagation (recorded : run.Recorded) (literal : Literal) (depth : Nat)
    (next : SearchState) (impact : Impact) :
    (run.notePropagation literal depth next impact).Recorded := by
  rw [Recorded] at recorded
  simp [Recorded, Run.notePropagation, Stats.of, recorded, deepest, Event.kind, Event.opened]

/-- The depth that a proposal opens is in the account once the first value is decided. -/
theorem noteDecision (recorded : run.Recorded) (memory : σ) (choice : Choice) (depth : Nat) :
    ((run.noteProposal memory depth).noteDecision choice depth).Recorded := by
  rw [Recorded] at recorded
  simp [Recorded, Run.noteProposal, Run.noteDecision, Stats.of, recorded, deepest, Event.kind,
    Event.opened, Nat.max_comm]

/-- The other value opens the same depth again. -/
theorem noteOpposite (recorded : run.Recorded) (choice : Choice) {depth : Nat}
    (opened : depth ≤ run.stats.maxDepth) (restored next : SearchState) :
    ((run.leftAgain choice depth restored).entered choice.opposite depth next).Recorded := by
  rw [Recorded] at recorded
  rw [recorded] at opened
  have deeper : deepest run.latestFirst = max depth (deepest run.latestFirst) :=
    (Nat.max_eq_right opened).symm
  simp [Recorded, Run.leftAgain, Run.noteBacktrack, Run.entered, Run.noteDecision, Stats.of,
    recorded, deepest, Event.kind, Event.opened, ← deeper]

theorem leftAgain (recorded : run.Recorded) (choice : Choice) (depth : Nat)
    (restored : SearchState) : (run.leftAgain choice depth restored).Recorded := by
  rw [Recorded] at recorded
  simp [Recorded, Run.leftAgain, Run.noteBacktrack, Stats.of, recorded, deepest, Event.kind,
    Event.opened]

end Run.Recorded

section Subtree

variable {policy : Policy σ} {alarm : Alarm} {frames depth : Nat} {run after : Run σ}
  {ending : Ending}

/-- The counters stay those of the account, and the greatest depth never shrinks. -/
theorem Explores.recorded (explores : Explores policy alarm frames depth run ending after)
    (starts : run.Recorded) :
    after.Recorded ∧ run.stats.maxDepth ≤ after.stats.maxDepth := by
  induction explores with
  | nestingLimit | deadline | satisfied | policyFault | noCandidate =>
      exact ⟨starts, Nat.le_refl _⟩
  | conflict => exact ⟨starts.noteConflict _, Nat.le_refl _⟩
  | @notAVariable _ _ _ _ memory => exact ⟨starts.noteDecision memory _ _, Nat.le_max_left ..⟩
  | @forced _ depth _ _ literal next impact _ _ _ _ _ ih
  | @forcedBack _ depth _ _ literal next _ impact _ _ _ _ ih =>
      exact ih (starts.notePropagation literal depth next impact)
  | @decided _ _ _ _ _ memory _ _ _ _ _ _ ih =>
      obtain ⟨recorded, deeper⟩ := ih (starts.noteDecision memory _ _)
      exact ⟨recorded, Nat.le_trans (Nat.le_max_left ..) deeper⟩
  | @decidedSecond _ _ _ _ _ _ memory _ restored other _ _ _ _ _ _ _ _ firstIh secondIh =>
      obtain ⟨recorded, deeper⟩ := firstIh (starts.noteDecision memory _ _)
      have opened := Nat.le_trans (Nat.le_max_right ..) deeper
      obtain ⟨recordedAgain, deepest⟩ := secondIh (recorded.noteOpposite _ opened restored other)
      exact ⟨recordedAgain, Nat.le_trans (Nat.le_trans (Nat.le_max_left ..) deeper) deepest⟩
  | @bothBack _ depth _ _ _ literal memory _ restored other last _ _ _ _ _ _ _ firstIh secondIh =>
      obtain ⟨recorded, deeper⟩ := firstIh (starts.noteDecision memory _ _)
      have opened := Nat.le_trans (Nat.le_max_right ..) deeper
      obtain ⟨recordedAgain, deepest⟩ := secondIh (recorded.noteOpposite _ opened restored other)
      exact ⟨recordedAgain.leftAgain literal.negated.choice (depth + 1) last,
        Nat.le_trans (Nat.le_trans (Nat.le_max_left ..) deeper) deepest⟩

/-! ## The account -/

/-- No search takes room away. -/
theorem Explores.room_le (explores : Explores policy alarm frames depth run ending after) :
    run.state.assignment.room ≤ after.state.assignment.room := by
  induction explores with
  | nestingLimit | deadline | satisfied | conflict | policyFault | noCandidate
  | notAVariable => exact Nat.le_refl _
  | forced _ made _ _ ih | decided _ made _ _ ih =>
      exact (Nat.le_max_left ..).trans (made.room_eq.ge.trans ih)
  | forcedBack _ made _ undone ih =>
      exact (Nat.le_max_left ..).trans (made.room_eq.ge.trans (ih.trans undone.room_eq.ge))
  | decidedSecond _ made _ undone madeOpposite _ _ firstIh secondIh =>
      have first := (Nat.le_max_left ..).trans (made.room_eq.ge.trans firstIh)
      have second := (Nat.le_max_left ..).trans (madeOpposite.room_eq.ge.trans secondIh)
      exact first.trans (undone.room_eq.ge.trans second)
  | bothBack _ made _ undone madeOpposite _ undoneAgain firstIh secondIh =>
      have first := (Nat.le_max_left ..).trans (made.room_eq.ge.trans firstIh)
      have second := (Nat.le_max_left ..).trans (madeOpposite.room_eq.ge.trans secondIh)
      exact first.trans (undone.room_eq.ge.trans (second.trans undoneAgain.room_eq.ge))

/-- The assignment below is the one above overwritten on the way, with room for everything
that was made true. -/
structure Leads (path : List Mark) (above below : SearchState) : Prop where
  value?_eq : below.assignment.value? =
    overwritten (path.map Mark.choice) above.assignment.value?
  room : ∀ mark ∈ path, mark.choice.var < below.assignment.room

theorem Leads.of_makes {path : List Mark} {literal : Literal} {above next below : SearchState}
    (leads : Leads path next below) (made : Makes literal above next)
    (room : next.assignment.room ≤ below.assignment.room) {mark : Mark}
    (same : mark.choice = literal.choice) : Leads (path ++ [mark]) above below where
  value?_eq := by
    rw [leads.value?_eq, made.value?_eq, List.map_append, List.map_singleton, same, overwritten,
      overwritten, List.foldr_append]
    rfl
  room := by
    have inside : literal.var < next.assignment.room := by
      rw [made.room_eq]
      omega
    rw [List.forall_mem_append, List.forall_mem_singleton, same]
    exact ⟨leads.room, Nat.lt_of_lt_of_le inside room⟩

theorem Leads.of_restores {path : List Mark} {restored above failed below : SearchState}
    (leads : Leads path restored below) (undone : restored.Restores above failed) :
    Leads path above below :=
  ⟨leads.value?_eq.trans (congrArg _ undone.value?_eq), leads.room⟩

/-- What the search below a node adds to the account. -/
structure Tells (depth : Nat) (run : Run σ) (ending : Ending) (after : Run σ)
    (events : List Event) : Prop where
  latestFirst_eq : after.latestFirst = events.reverse ++ run.latestFirst
  fruitless : ending = .exhausted → Fruitless depth events
  unfinished : ending ≠ .exhausted → ∃ path, Unfinished depth events path ∧
    (ending = .satisfied → Leads path run.state after.state)

theorem live_eq_of_restores {above restored below : SearchState} (coherent : above.Coherent)
    (undone : restored.Restores above below) : restored.live = above.live := by
  rw [undone.coherent.live_eq, coherent.live_eq, undone.liveClauses_eq]

/-- A value that was taken back is a bracket in the account. -/
theorem latestFirst_leftAgain {middle : Run σ} {choice : Choice} {restored : SearchState}
    {clausesLeft : Nat} {inside : List Event} {earlier : List Event}
    (told : middle.latestFirst = inside.reverse ++ .decide choice depth clausesLeft :: earlier) :
    (middle.leftAgain choice depth restored).latestFirst =
      (bracket choice depth clausesLeft inside).reverse ++ earlier := by
  simp [Run.leftAgain, Run.noteBacktrack, bracket, told]

/-- The other value is tried with as many clauses left. -/
theorem latestFirst_opposite {middle : Run σ} {choice : Choice} {restored : SearchState}
    {clausesLeft : Nat} {inside : List Event} {earlier : List Event}
    (told : middle.latestFirst = inside.reverse ++ .decide choice depth clausesLeft :: earlier)
    (live : restored.live = clausesLeft) (next : SearchState) :
    ((middle.leftAgain choice depth restored).entered choice.opposite depth next).latestFirst =
      .decide choice.opposite depth clausesLeft ::
        ((bracket choice depth clausesLeft inside).reverse ++ earlier) := by
  rw [← latestFirst_leftAgain told, ← live]
  rfl

theorem Explores.exists_tells (explores : Explores policy alarm frames depth run ending after)
    (coherent : run.state.Coherent) : ∃ events, Tells depth run ending after events := by
  induction explores with
  | nestingLimit | deadline | policyFault | noCandidate =>
      exact ⟨[], rfl, nofun, fun _ => ⟨[], .here, nofun⟩⟩
  | satisfied => exact ⟨[], rfl, nofun, fun _ => ⟨[], .here, fun _ => ⟨rfl, nofun⟩⟩⟩
  | @conflict _ depth => exact ⟨[.conflict depth], rfl, fun _ => .conflict, absurd rfl⟩
  | @notAVariable _ depth run choice =>
      exact ⟨[.decide choice (depth + 1) run.state.live], rfl, nofun,
        fun _ => ⟨_, .first .here, nofun⟩⟩
  | @forced _ depth run _ literal _ impact _ _ made below kept ih =>
      obtain ⟨events, told, _, unfinished⟩ := ih made.coherent
      obtain ⟨path, shape, leads⟩ := unfinished kept
      refine ⟨.propagate literal depth impact :: events, ?_, fun exhausted => absurd exhausted kept,
        fun _ => ⟨_, .forced shape, fun satisfied =>
          (leads satisfied).of_makes made below.room_le rfl⟩⟩
      rw [told, List.reverse_cons, List.append_assoc]
      rfl
  | @forcedBack _ depth run _ literal _ _ impact _ made below undone ih =>
      obtain ⟨events, told, fruitless, _⟩ := ih made.coherent
      refine ⟨.propagate literal depth impact :: events, ?_, fun _ => .forced (fruitless rfl),
        absurd rfl⟩
      rw [List.reverse_cons, List.append_assoc]
      exact told
  | @decided _ depth run _ literal _ _ _ _ made below kept ih =>
      obtain ⟨events, told, _, unfinished⟩ := ih made.coherent
      obtain ⟨path, shape, leads⟩ := unfinished kept
      refine ⟨.decide literal.choice (depth + 1) run.state.live :: events, ?_,
        fun exhausted => absurd exhausted kept,
        fun _ => ⟨_, .first shape, fun satisfied =>
          (leads satisfied).of_makes made below.room_le rfl⟩⟩
      rw [told, List.reverse_cons, List.append_assoc]
      rfl
  | @decidedSecond _ depth run middle _ literal _ _ restored other _ _ made _ undone madeOpposite
      below kept firstIh secondIh =>
      obtain ⟨failed, toldFailed, fruitless, _⟩ := firstIh made.coherent
      obtain ⟨events, told, _, unfinished⟩ := secondIh madeOpposite.coherent
      obtain ⟨path, shape, leads⟩ := unfinished kept
      have tried := latestFirst_opposite toldFailed (live_eq_of_restores coherent undone) other
      refine ⟨bracket literal.choice (depth + 1) run.state.live failed ++
          .decide literal.choice.opposite (depth + 1) run.state.live :: events, ?_,
        fun exhausted => absurd exhausted kept,
        fun _ => ⟨_, .second (fruitless rfl) shape, fun satisfied =>
          ((leads satisfied).of_makes madeOpposite below.room_le rfl).of_restores undone⟩⟩
      rw [List.reverse_append, List.reverse_cons, List.append_assoc, List.append_assoc]
      exact told.trans (congrArg (events.reverse ++ ·) tried)
  | @bothBack _ depth run middle after literal _ _ restored other last _ made _ undone madeOpposite
      _ _ firstIh secondIh =>
      obtain ⟨first, toldFirst, fruitless, _⟩ := firstIh made.coherent
      obtain ⟨second, toldSecond, fruitlessAgain, _⟩ := secondIh madeOpposite.coherent
      have tried := latestFirst_opposite toldFirst (live_eq_of_restores coherent undone) other
      refine ⟨bracket literal.choice (depth + 1) run.state.live first ++
          bracket literal.choice.opposite (depth + 1) run.state.live second, ?_,
        fun _ => .branched (fruitless rfl) (fruitlessAgain rfl), absurd rfl⟩
      rw [List.reverse_append, List.append_assoc]
      exact latestFirst_leftAgain (toldSecond.trans (congrArg (second.reverse ++ ·) tried))

end Subtree

end Search

namespace Solver

open Search

variable {σ : Type} {solver : Solver σ} {clock : Clock} {formula : Cnf}

/-- What a search tells from its beginning to its end is its account. -/
theorem tells_search (solver : Solver σ) (clock : Clock) (formula : Cnf) :
    Tells 0 (.start formula solver.memory) (solver.search clock formula).1
      (solver.search clock formula).2 (solver.search clock formula).2.events := by
  have explores := (explored_search solver clock formula).explores
  obtain ⟨events, tells⟩ := explores.exists_tells (SearchState.coherent_ofFormula formula)
  have account : (solver.search clock formula).2.events = events := by
    rw [Run.events, tells.latestFirst_eq, Run.start, List.append_nil, List.reverse_reverse]
  rw [account]
  exact tells

/-- The counters of a report are those that its account makes. -/
theorem stats_eq_of (solver : Solver σ) (clock : Clock) (formula : Cnf) :
    (solver.solve clock formula).1.stats = .of (solver.solve clock formula).1.events := by
  by_cases fits : clock.deadlineFits solver.timeout = true
  · have explores := (explored_search solver clock formula).explores
    have recorded := (explores.recorded (.start formula solver.memory)).1
    rw [solve_eq fits, Run.events, Stats.of_reverse]
    exact recorded
  · rw [solve, if_neg fits]
    rfl

/-- The account of a search that found no model is complete. -/
theorem fruitless_of_none (answered : (solver.solve clock formula).1.answer = .ok none) :
    Fruitless 0 (solver.solve clock formula).1.events := by
  have tells := tells_search solver clock formula
  rw [solve_eq (deadlineFits_of_answer answered)]
  exact tells.fruitless (search_of_none answered)

/-- Any other search has not left the root. -/
theorem unfinished_of_ne_none (other : (solver.solve clock formula).1.answer ≠ .ok none) :
    ∃ path, Unfinished 0 (solver.solve clock formula).1.events path := by
  by_cases fits : clock.deadlineFits solver.timeout = true
  · have tells := tells_search solver clock formula
    obtain ⟨path, shape, _⟩ :=
      tells.unfinished fun exhausted => other (answer_of_exhausted fits exhausted)
    rw [solve_eq fits]
    exact ⟨path, shape⟩
  · rw [solve, if_neg fits]
    exact ⟨[], .here⟩

/-- The account of any search can be read. -/
theorem wellNested_events (solver : Solver σ) (clock : Clock) (formula : Cnf) :
    Digest.blank.WellNested (solver.solve clock formula).1.events := by
  by_cases answered : (solver.solve clock formula).1.answer = .ok none
  · exact ((fruitless_of_none answered).readsBack rfl).wellNested
  · obtain ⟨_, unfinished⟩ := unfinished_of_ne_none answered
    exact (unfinished.reads rfl).1

/-- The counters of a search account for the tree that was searched. Where no model was
found, every conflict but one is paid for by two values that were tried, and all of them
were taken back. Otherwise the values that were not taken back are the decisions that are
open at the end, no more than the greatest depth, and the conflicts lie half way between
the values taken back and the values tried. Without a conflict an answer is a model and
nothing was taken back, and a depth was opened exactly if a value was tried. -/
theorem stats_balance (solver : Solver σ) (clock : Clock) (formula : Cnf) :
    let report := (solver.solve clock formula).1
    let stats := report.stats
    let numOpen := (Digest.of report.events).numOpen
    (report.answer = .ok none →
        1 ≤ stats.conflicts ∧ stats.decisions = 2 * (stats.conflicts - 1) ∧
          stats.backtracks = stats.decisions) ∧
      (((∃ model, report.answer = .ok (some model)) ∨
          ∃ error, report.answer = .error (.error error)) →
        stats.decisions = stats.backtracks + numOpen ∧ numOpen ≤ stats.maxDepth ∧
          stats.backtracks ≤ 2 * stats.conflicts ∧ 2 * stats.conflicts ≤ stats.decisions) ∧
      (∀ outcome, report.answer = .ok outcome → stats.conflicts = 0 →
        (∃ model, outcome = some model) ∧ stats.backtracks = 0) ∧
      (stats.maxDepth = 0 ↔ stats.decisions = 0) := by
  intro report stats numOpen
  have counters : stats = .of report.events := stats_eq_of solver clock formula
  have refuted (answered : report.answer = .ok none) : 1 ≤ stats.conflicts ∧
      stats.decisions = 2 * (stats.conflicts - 1) ∧ stats.backtracks = stats.decisions := by
    rw [counters]
    exact (fruitless_of_none answered).balance
  have left (other : report.answer ≠ .ok none) :
      stats.decisions = stats.backtracks + numOpen ∧ numOpen ≤ stats.maxDepth ∧
        stats.backtracks ≤ 2 * stats.conflicts ∧ 2 * stats.conflicts ≤ stats.decisions := by
    obtain ⟨_, unfinished⟩ := unfinished_of_ne_none other
    rw [counters]
    exact unfinished.balance
  refine ⟨refuted, ?_, ?_, ?_⟩
  · rintro (⟨model, answered⟩ | ⟨error, answered⟩)
    · exact left (answered ▸ nofun)
    · exact left (answered ▸ nofun)
  · intro outcome answered quiet
    cases outcome with
    | none =>
        have clash := (refuted answered).1
        omega
    | some model =>
        obtain ⟨_, _, back, _⟩ := left (answered ▸ nofun)
        exact ⟨⟨model, rfl⟩, by omega⟩
  · rw [counters]
    exact (wellNested_events solver clock formula).deepest_eq_zero_iff

end Solver

end ChronoSat
