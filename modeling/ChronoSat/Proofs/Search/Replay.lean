/-
# Replaying an account

Whoever has only the log of a search has its answer too. The lines give the account back,
the account can be read as a row of nested decisions, and what has not been taken back at
its end says everything about the model: it was made true one after the other in an
assignment that began with every registered variable true, and nothing else that happened
has left a trace there.

The last part needs a policy that proposes registered variables. Any other might make room
for variables without a name, and the room stays when such a value is taken back, where an
account cannot show it.
-/

import ChronoSat.Proofs.Search.Bookkeeping
import ChronoSat.Proofs.Search.Undoing
import ChronoSat.Proofs.Search.Wording

namespace ChronoSat

namespace Search

variable {numVars : Nat}

/-- Every registered variable true, overwritten by what was made true and has not been
taken back, in the order of the account. -/
def Digest.replay (numVars : Nat) (digest : Digest) : Assignment :=
  digest.marks.foldr (fun mark earlier => earlier.assign mark.choice.var mark.choice.value)
    (.uniform numVars true)

theorem Digest.value?_replay (digest : Digest) :
    (digest.replay numVars).value? =
      overwritten (digest.marks.map Mark.choice) (Assignment.uniform numVars true).value? := by
  obtain ⟨marks, closed⟩ := digest
  induction marks with
  | nil => rfl
  | cons mark earlier ih =>
      rw [replay, List.foldr_cons, Assignment.value?_assign]
      exact congrArg (Function.update · mark.choice.var (some mark.choice.value)) ih

/-- Making registered variables true makes no room. -/
theorem Digest.room_replay {digest : Digest}
    (registered : ∀ mark ∈ digest.marks, mark.choice.var ≤ numVars) :
    (digest.replay numVars).room = numVars + 1 := by
  obtain ⟨marks, closed⟩ := digest
  induction marks with
  | nil => exact Assignment.room_uniform numVars true
  | cons mark earlier ih =>
      rw [List.forall_mem_cons] at registered
      have room := ih registered.2
      rw [replay, List.foldr_cons, Assignment.assign, Assignment.room_setSlot_of_lt]
      · exact room
      · exact Nat.lt_of_lt_of_eq (Nat.lt_succ_of_le registered.1) room.symm

end Search

namespace Solver

open Search

variable {σ : Type} {solver : Solver σ} {clock : Clock} {formula : Cnf} {valid : σ → Prop}

/-- A model is what its account leaves standing. -/
theorem eq_replay_of_some (wellFormed : formula.WellFormed)
    (registers : solver.policy.ProposesRegistered formula.numVars valid)
    (starts : valid solver.memory) {model : Assignment}
    (answered : (solver.solve clock formula).1.answer = .ok (some model)) :
    model = (Digest.of (solver.solve clock formula).1.events).replay formula.numVars := by
  obtain ⟨satisfied, rfl⟩ := search_of_some answered
  have tells := tells_search solver clock formula
  obtain ⟨path, unfinished, leads⟩ := tells.unfinished (satisfied ▸ nofun)
  have way := leads satisfied
  have room := room_search wellFormed registers starts clock
  have events : (solver.solve clock formula).1.events = (solver.search clock formula).2.events := by
    rw [solve_eq (deadlineFits_of_answer answered)]
  rw [events, unfinished.digest_eq]
  apply Assignment.eq_of_value?_eq
  · rw [room, Digest.room_replay]
    intro mark member
    exact Nat.le_of_lt_succ ((way.room mark member).trans_eq room)
  · rw [Digest.value?_replay, way.value?_eq]
    rfl

/-- The log of a search with a policy that proposes registered variables is an account
from which the answer can be replayed. The lines about events come from one row of events.
As many of them are of each kind as the statistics say. Every event fits what was read
before it: it names the number of open decisions, takes back the decision opened last, and
is the other value of a branch exactly behind the first, with as many clauses left. No
branch is left after its first value. Where there is no model no decision stays open, and
a model is what the account leaves standing. -/
theorem log_replays (obtained : Obtainable formula) (solver : Solver σ) (valid : σ → Prop)
    (registers : solver.policy.ProposesRegistered formula.numVars valid)
    (starts : valid solver.memory) (clock : Clock) (elapsed : String) :
    let report := (solver.solve clock formula).1
    let log := report.log elapsed
    let numLines (kind : Event.Kind) := log.countP fun line => line.kind? == some kind
    (numLines .decide = report.stats.decisions ∧
      numLines .propagate = report.stats.propagations ∧
      numLines .conflict = report.stats.conflicts ∧
      numLines .backtrack = report.stats.backtracks) ∧
    ∃ account : List Event,
      (∀ other : List Event,
        other.map Event.message = (eventLines log).map LogLine.message ↔ other = account) ∧
      (∀ before event after, account = before ++ event :: after →
        (Digest.of before).Admits event) ∧
      (Digest.of account).Settled ∧
      (report.answer = .ok none → (Digest.of account).numOpen = 0) ∧
      ∀ model, report.answer = .ok (some model) →
        model = (Digest.of account).replay formula.numVars := by
  intro report log numLines
  have counters : report.stats = .of report.events := stats_eq_of solver clock formula
  have counted (kind : Event.Kind) : numLines kind = tally kind report.events :=
    report.countP_log elapsed kind
  have nested := wellNested_events solver clock formula
  refine ⟨?_, report.events, fun other => report.map_message_eq_iff, ?_, ?_, ?_, ?_⟩
  · rw [counted, counted, counted, counted, counters]
    exact ⟨rfl, rfl, rfl, rfl⟩
  · intro before event after split
    have whole : Digest.blank.WellNested (before ++ event :: after) := split ▸ nested
    exact whole.admits
  · by_cases answered : report.answer = .ok none
    · exact ((fruitless_of_none answered).readsBack rfl).settled
    · obtain ⟨path, unfinished⟩ := unfinished_of_ne_none answered
      rw [unfinished.digest_eq]
      exact Digest.settled_of_none _
  · intro answered
    exact (fruitless_of_none answered).numOpen_eq_zero
  · intro model answered
    exact eq_replay_of_some obtained.wellFormed registers starts answered

/-- One value is decided and taken back, and the other one is in the model. -/
theorem log_replays_lopsided :
    let report := ((Solver.scripted [⟨1, false⟩] none).solve .still lopsided).1
    let log := report.log "1ms"
    let model : Assignment := ⟨[none, some true, some true]⟩
    report.answer = .ok (some model) ∧
      (log.countP fun line => line.kind? == some .decide) = 2 ∧
      ∃ account : List Event,
        account.map Event.message = (eventLines log).map LogLine.message ∧
          (Digest.of account).replay 2 = model := by
  intro report log model
  have named : ∀ choice ∈ [(⟨1, false⟩ : Choice)], 0 < choice.var ∧ choice.var ≤ 2 := by decide
  have answered : report.answer = .ok (some model) := rfl
  obtain ⟨⟨decisions, _⟩, account, reads, _, _, _, replays⟩ :=
    log_replays obtainable_lopsided (Solver.scripted [⟨1, false⟩] none) _
      (Policy.scripted_proposesRegistered 2) named .still "1ms"
  have counted : report.stats.decisions = 2 := rfl
  exact ⟨answered, decisions.trans counted, account, (reads account).mpr rfl,
    (replays model answered).symm⟩

end Solver

end ChronoSat
