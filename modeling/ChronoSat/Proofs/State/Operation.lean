/-
# Rows of operations on a working state

A working state is used by making literals true and by going back to checkpoints.
This module takes such operations in rows, in any order and with any checkpoints: ones
that lie beyond the end of the trail, and ones that cut the steps of a literal that was
made true later.

Two things are shown of all rows. No operation fails, and the counters agree with the
clauses after each. And a row that goes back no further than the state it began in is
undone by going back to that state: clauses, counters, trail and assignment are found
again, but for the room that variables without a name were given.

Both rest on what one operation does. It leaves a coherent state whose trail is a history
that begins at the state above, and such a state can be left in no other way.
-/

import ChronoSat.Proofs.Formula.Rows
import ChronoSat.Proofs.State.Reachable

namespace ChronoSat.SearchState

/-- One thing that is done to a working state. -/
inductive Operation where
  | assign (literal : Literal)
  | backtrack (mark : Checkpoint)

/-- Does one operation. -/
def perform (state : SearchState) : Operation → Except Fault SearchState
  | .assign literal => do return (← state.assign literal).1
  | .backtrack mark => state.backtrack mark

/-- Does a row of operations, one after the other. -/
def performAll (state : SearchState) (operations : List Operation) : Except Fault SearchState :=
  operations.foldlM perform state

/-- A row of operations goes back to no checkpoint older than this one. -/
def NotOlder (mark : Checkpoint) (operations : List Operation) : Prop :=
  ∀ other, .backtrack other ∈ operations → mark.height ≤ other.height

/-- A row of operations makes literals over the first so many variables true. -/
def Within (numVars : Nat) (operations : List Operation) : Prop :=
  ∀ literal, .assign literal ∈ operations → literal.var ≤ numVars

/-- The room that a row of operations leaves in an assignment. -/
def roomAfter (room : Nat) : List Operation → Nat
  | [] => room
  | .assign literal :: rest => roomAfter (max room (literal.var + 1)) rest
  | .backtrack _ :: rest => roomAfter room rest

theorem le_roomAfter (room : Nat) (operations : List Operation) :
    room ≤ roomAfter room operations := by
  induction operations generalizing room with
  | nil => exact Nat.le_refl room
  | cons operation rest ih =>
      cases operation with
      | assign literal => exact (Nat.le_max_left ..).trans (ih _)
      | backtrack => exact ih room

theorem roomAfter_of_within {room numVars : Nat} {operations : List Operation}
    (enough : numVars < room) (within : Within numVars operations) :
    roomAfter room operations = room := by
  induction operations with
  | nil => rfl
  | cons operation rest ih =>
      have others := ih fun literal member => within literal (List.mem_cons_of_mem _ member)
      cases operation with
      | assign literal =>
          have := within literal List.mem_cons_self
          rw [roomAfter, Nat.max_eq_left (by omega), others]
      | backtrack => exact others

theorem performAll_cons (state : SearchState) (operation : Operation) (rest : List Operation) :
    state.performAll (operation :: rest) =
      (do (← state.perform operation).performAll rest) :=
  List.foldlM_cons ..

theorem performAll_concat (state : SearchState) (operations : List Operation)
    (operation : Operation) :
    state.performAll (operations ++ [operation]) =
      (do (← state.performAll operations).perform operation) := by
  rw [performAll, List.foldlM_append]
  exact bind_congr fun _ => List.foldlM_cons.trans (bind_pure _)

theorem perform_assign_eq_ok {state next : SearchState} {literal : Literal} :
    state.perform (.assign literal) = .ok next ↔
      ∃ impact, state.assign literal = .ok (next, impact) := by
  rw [perform, Outcomes.bind_eq_ok]
  constructor
  · rintro ⟨⟨_, impact⟩, assigned, same⟩
    cases same
    exact ⟨impact, assigned⟩
  · rintro ⟨impact, assigned⟩
    exact ⟨(next, impact), assigned, rfl⟩

/-! ## What a row does -/

section Rows

variable {above state : SearchState}

/-- An operation that goes back no further than the state above does not fail, and
leaves a coherent state below it. -/
theorem exists_perform (descends : Descends above state) (coherent : state.Coherent)
    (operation : Operation) (notOlder : NotOlder above.checkpoint [operation]) :
    ∃ next, state.perform operation = .ok next ∧ Descends above next ∧ next.Coherent ∧
      next.assignment.room = roomAfter state.assignment.room [operation] := by
  cases operation with
  | assign literal =>
      obtain ⟨next, impact, assigned, makes⟩ := exists_assign literal coherent
      exact ⟨next, perform_assign_eq_ok.mpr ⟨impact, assigned⟩,
        descends.trans makes.descends, makes.coherent, makes.room_eq⟩
  | backtrack mark => exact descends.exists_backtrack_of_le coherent (notOlder mark (by simp))

/-- The same for a row of operations. -/
theorem exists_performAll (descends : Descends above state) (coherent : state.Coherent)
    (operations : List Operation) (notOlder : NotOlder above.checkpoint operations) :
    ∃ below, state.performAll operations = .ok below ∧ Descends above below ∧ below.Coherent ∧
      below.assignment.room = roomAfter state.assignment.room operations := by
  induction operations generalizing state with
  | nil => exact ⟨state, rfl, descends, coherent, rfl⟩
  | cons operation rest ih =>
      have first : NotOlder above.checkpoint [operation] := fun mark member =>
        notOlder mark (List.mem_cons.mpr (.inl (List.mem_singleton.mp member)))
      have others : NotOlder above.checkpoint rest := fun mark member =>
        notOlder mark (List.mem_cons_of_mem _ member)
      obtain ⟨next, performed, nextDescends, nextCoherent, room⟩ :=
        exists_perform descends coherent operation first
      obtain ⟨below, ran, belowDescends, belowCoherent, roomBelow⟩ :=
        ih nextDescends nextCoherent others
      refine ⟨below, ?_, belowDescends, belowCoherent, ?_⟩
      · rw [performAll_cons, performed]
        exact ran
      · rw [roomBelow, room]
        cases operation <;> rfl

end Rows

/-- The states that can be reached are those that rows of operations end in. -/
theorem reachable_iff_exists_performAll {formula : Cnf} {state : SearchState} :
    Reachable formula state ↔
      ∃ operations, (ofFormula formula).performAll operations = .ok state := by
  constructor
  · intro reachable
    induction reachable with
    | start => exact ⟨[], rfl⟩
    | @assign before after literal impact _ made ih =>
        obtain ⟨operations, ran⟩ := ih
        refine ⟨operations ++ [.assign literal], ?_⟩
        rw [performAll_concat, ran]
        exact perform_assign_eq_ok.mpr ⟨impact, made⟩
    | @backtrack before restored mark _ undone ih =>
        obtain ⟨operations, ran⟩ := ih
        refine ⟨operations ++ [.backtrack mark], ?_⟩
        rw [performAll_concat, ran]
        exact undone
  · rintro ⟨operations, ran⟩
    induction operations using List.reverseRecOn generalizing state with
    | nil =>
        cases ran
        exact .start
    | append_singleton operations operation ih =>
        rw [performAll_concat] at ran
        obtain ⟨before, ranBefore, performed⟩ := Outcomes.bind_eq_ok.mp ran
        cases operation with
        | assign literal =>
            obtain ⟨impact, made⟩ := perform_assign_eq_ok.mp performed
            exact .assign (ih ranBefore) made
        | backtrack mark => exact .backtrack (ih ranBefore) performed

/-- There is always a slot for every registered variable. -/
theorem Reachable.numVars_lt_room {formula : Cnf} {state : SearchState}
    (reachable : Reachable formula state) : formula.numVars < state.assignment.room := by
  obtain ⟨operations, ran⟩ := reachable_iff_exists_performAll.mp reachable
  obtain ⟨below, ranBelow, _, _, room⟩ :=
    exists_performAll (.refl _) (coherent_ofFormula formula) operations fun _ _ => Nat.zero_le _
  cases ran.symm.trans ranBelow
  have initially := Assignment.room_uniform formula.numVars true
  rw [room]
  exact (initially.symm ▸ Nat.lt_succ_self _ : formula.numVars < _).trans_le (le_roomAfter _ _)

/-! ## The counters -/

/-- Whatever is done to the working state of a formula, nothing fails: no counter is
taken below zero, and every place that a literal is struck from or put back into is
there. Afterwards the counters are the numbers of open clauses and of open clauses
without literals, so they tell whether all clauses are satisfied and whether an open one
is empty. A satisfied clause keeps a literal. Each step that is still on the trail is a
change that was made to a clause and a place that there were. -/
theorem tallied_performAll (formula : Cnf) (operations : List Operation) :
    ∃ state, (ofFormula formula).performAll operations = .ok state ∧
      state.live = state.liveClauses.length ∧
      state.emptied = state.liveClauses.countP List.isEmpty ∧
      (state.isSolved = true ↔ state.liveClauses = []) ∧
      (state.hasEmptyClause = true ↔ [] ∈ state.liveClauses) ∧
      (∀ clause ∈ state.clauses, clause.satisfied = true → clause.literals ≠ []) ∧
      History (ofFormula formula).contents state.trail.latestFirst state.contents := by
  obtain ⟨state, ran, ⟨_, steps, trail_eq, history⟩, coherent, _⟩ :=
    exists_performAll (.refl _) (coherent_ofFormula formula) operations fun _ _ => Nat.zero_le _
  refine ⟨state, ran, coherent.live_eq, coherent.emptied_eq, isSolved_iff coherent,
    hasEmptyClause_iff coherent, ?_, ?_⟩
  · intro clause member
    exact coherent.tallied.nonempty clause (Array.mem_toList_iff.mpr member)
  · rw [trail_eq]
    exact (List.append_nil steps).symm ▸ history

/-! ## Going back to where a row began -/

/-- A state is another one, but for empty slots at the end of its assignment. -/
structure EqualButForRoom (restored original : SearchState) : Prop where
  clauses_eq : restored.clauses = original.clauses
  live_eq : restored.live = original.live
  emptied_eq : restored.emptied = original.emptied
  trail_eq : restored.trail = original.trail
  numVars_eq : restored.numVars = original.numVars
  slots_eq : ∃ extra,
    restored.assignment.slots = original.assignment.slots ++ List.replicate extra none
  value?_eq : restored.assignment.value? = original.assignment.value?

theorem Restores.equalButForRoom {restored above below : SearchState}
    (restores : restored.Restores above below) (coherent : above.Coherent)
    (room : above.assignment.room ≤ below.assignment.room) : restored.EqualButForRoom above := by
  have clauses : restored.clauses.toList = above.clauses.toList :=
    congrArg Contents.clauses restores.contents_eq
  have more := room.trans_eq restores.room_eq.symm
  refine ⟨Array.toList_inj.mp clauses, ?_, ?_, restores.trail_eq, restores.numVars_eq,
    Assignment.exists_slots_eq_append more restores.value?_eq, restores.value?_eq⟩
  · rw [restores.coherent.live_eq, coherent.live_eq, restores.liveClauses_eq]
  · rw [restores.coherent.emptied_eq, coherent.emptied_eq, restores.liveClauses_eq]

/-- Going back to the checkpoint of a state undoes every row of operations on it that
goes back to no older checkpoint; those taken on the way are not older. Nothing but
room is left over, and no room is if the row keeps to registered variables. In particular
going back to the first checkpoint gives the state that the formula began with, whatever
was done. -/
theorem backtrack_performAll (formula : Cnf) :
    (∀ state, Reachable formula state → ∀ operations, NotOlder state.checkpoint operations →
      ∃ below restored, state.performAll operations = .ok below ∧
        state.checkpoint.height ≤ below.checkpoint.height ∧
        below.backtrack state.checkpoint = .ok restored ∧ restored.EqualButForRoom state ∧
        (Within formula.numVars operations → restored = state)) ∧
    ∀ operations, ∃ below restored, (ofFormula formula).performAll operations = .ok below ∧
      below.backtrack (ofFormula formula).checkpoint = .ok restored ∧
      restored.EqualButForRoom (ofFormula formula) ∧
      (Within formula.numVars operations → restored = ofFormula formula) := by
  have undoes : ∀ state, Reachable formula state → ∀ operations,
      NotOlder state.checkpoint operations →
        ∃ below restored, state.performAll operations = .ok below ∧
          state.checkpoint.height ≤ below.checkpoint.height ∧
          below.backtrack state.checkpoint = .ok restored ∧ restored.EqualButForRoom state ∧
          (Within formula.numVars operations → restored = state) := by
    intro state reachable operations notOlder
    have coherent := reachable.coherent_and_descends.1
    obtain ⟨below, ran, descends, belowCoherent, room⟩ :=
      exists_performAll (.refl state) coherent operations notOlder
    obtain ⟨restored, undone, restores⟩ := descends.exists_backtrack belowCoherent
    refine ⟨below, restored, ran, descends.height_le, undone, ?_, ?_⟩
    · exact restores.equalButForRoom coherent ((le_roomAfter _ _).trans_eq room.symm)
    · intro within
      have sameRoom := roomAfter_of_within reachable.numVars_lt_room within
      exact restores.eq_above coherent (room.trans sameRoom)
  refine ⟨undoes, fun operations => ?_⟩
  obtain ⟨below, restored, ran, _, undone, equal, same⟩ :=
    undoes _ .start operations fun _ _ => Nat.zero_le _
  exact ⟨below, restored, ran, undone, equal, same⟩

/-- A literal twice in one clause, and its opposite in another. -/
def repeating : Cnf :=
  .ofNamed [[("a", false), ("b", true), ("a", false), ("c", true)], [("a", true), ("d", true)],
    [("c", false), ("a", false)]]

/-- The row goes back into the midst of what making its first literal true did. -/
theorem backtrack_performAll_repeating :
    let row : List Operation := [.assign ⟨1, true, by decide⟩, .assign ⟨1, false, by decide⟩,
      .backtrack ⟨5⟩, .assign ⟨2, false, by decide⟩]
    ∃ state below, (ofFormula repeating).perform (.assign ⟨3, false, by decide⟩) = .ok state ∧
      state.performAll row = .ok below ∧ state.checkpoint = ⟨3⟩ ∧ below.checkpoint = ⟨7⟩ ∧
      below.backtrack ⟨3⟩ = .ok state := by
  intro row
  have computed : ∃ state below,
      (ofFormula repeating).perform (.assign ⟨3, false, by decide⟩) = .ok state ∧
        state.performAll row = .ok below ∧ state.checkpoint = ⟨3⟩ ∧ below.checkpoint = ⟨7⟩ :=
    ⟨_, _, rfl, rfl, rfl, rfl⟩
  obtain ⟨state, below, performed, ran, height, heightBelow⟩ := computed
  obtain ⟨impact, made⟩ := perform_assign_eq_ok.mp performed
  have notOlder : NotOlder state.checkpoint row := by
    rw [height]
    simp [NotOlder, row]
  have fourVars : Formula.numVars repeating = 4 := rfl
  have within : Within (Formula.numVars repeating) row := by
    rw [fourVars]
    simp [Within, row]
  obtain ⟨_, restored, ranAgain, _, undone, _, same⟩ :=
    (backtrack_performAll repeating).1 state (.assign .start made) row notOlder
  cases ran.symm.trans ranAgain
  rw [same within, height] at undone
  exact ⟨state, below, performed, ran, height, heightBelow, undone⟩

end ChronoSat.SearchState
