/-
# Changes and their undoing

Everything that happens to a working state is a row of single changes: a number
is given a value, a clause becomes satisfied, a literal is struck from its place.
A change is described here by the contents before and after it and the step that
records it, and undoing that step on the contents after gives the contents before.
Undoing the latest steps of a history therefore leads back to the contents that
the history had before them, wherever the history is cut.

The contents of a state are its clauses and what its assignment says. Neither
counter belongs to them: the counters follow from the clauses in a coherent state,
and undoing keeps a state coherent. The room of the assignment is no content
either, since undoing never takes room away.
-/

import ChronoSat.SearchState
import ChronoSat.Proofs.Assignment.Values
import ChronoSat.Proofs.Outcomes

namespace ChronoSat

/-- What a working state holds, apart from its counters. -/
structure Contents where
  clauses : List WorkingClause
  values : Nat → Option Bool

/-- A single change: the contents before it, the step that records it, and the
contents after it. -/
inductive Change : Contents → Trail.Step → Contents → Prop
  | assigned (clauses : List WorkingClause) (values : Nat → Option Bool) (var : Nat)
      (value : Bool) :
      Change ⟨clauses, values⟩ (.assigned var (values var))
        ⟨clauses, Function.update values var (some value)⟩
  | satisfied (front back : List WorkingClause) (literals : List Literal)
      (values : Nat → Option Bool) (nonempty : literals ≠ []) :
      Change ⟨front ++ ⟨literals, false⟩ :: back, values⟩ (.satisfied front.length)
        ⟨front ++ ⟨literals, true⟩ :: back, values⟩
  | struck (front back : List WorkingClause) (left right : List Literal) (literal : Literal)
      (values : Nat → Option Bool) :
      Change ⟨front ++ ⟨left ++ literal :: right, false⟩ :: back, values⟩
        (.struck front.length left.length literal)
        ⟨front ++ ⟨left ++ right, false⟩ :: back, values⟩

/-- The contents that a row of changes leads to, the latest step first. -/
inductive History (origin : Contents) : List Trail.Step → Contents → Prop
  | start : History origin [] origin
  | later {steps : List Trail.Step} {before after : Contents} {step : Trail.Step}
      (earlier : History origin steps before) (change : Change before step after) :
      History origin (step :: steps) after

/-- A literal stands in one of the clauses. -/
def Contents.Mentions (contents : Contents) (literal : Literal) : Prop :=
  ∃ clause ∈ contents.clauses, literal ∈ clause.literals

theorem Contents.mentions_append_cons {front back : List WorkingClause} {clause : WorkingClause}
    {values : Nat → Option Bool} {literal : Literal} :
    Mentions ⟨front ++ clause :: back, values⟩ literal ↔
      Mentions ⟨front, values⟩ literal ∨ literal ∈ clause.literals ∨
        Mentions ⟨back, values⟩ literal := by
  simp only [Mentions, List.mem_append, List.mem_cons, or_and_right, exists_or, exists_eq_left]

/-- No change brings a literal in. -/
theorem Change.mentions {before after : Contents} {step : Trail.Step} {literal : Literal}
    (change : Change before step after) (mentioned : after.Mentions literal) :
    before.Mentions literal := by
  cases change with
  | assigned => exact mentioned
  | satisfied =>
      rw [Contents.mentions_append_cons] at mentioned ⊢
      exact mentioned
  | struck front back left right gone =>
      rw [Contents.mentions_append_cons] at mentioned ⊢
      refine mentioned.imp_right (Or.imp_left fun kept => ?_)
      simp only [List.mem_append, List.mem_cons] at kept ⊢
      exact kept.imp_right Or.inr

/-- The two counters of a state say what its clauses are, and no satisfied clause
is empty. -/
structure Tallied (clauses : List WorkingClause) (live emptied : Nat) : Prop where
  live_eq : live = clauses.countP fun clause => !clause.satisfied
  emptied_eq : emptied = clauses.countP fun clause => clause.literals.isEmpty
  nonempty : ∀ clause ∈ clauses, clause.satisfied = true → clause.literals ≠ []

theorem Trail.latestFirst_pushAll (trail : Trail) (steps : List Trail.Step) :
    (trail.pushAll steps).latestFirst = steps.reverse ++ trail.latestFirst := by
  have forwards := congrArg List.reverse (Trail.toList_pushAll trail steps)
  simpa only [Trail.toList, List.reverse_reverse, List.reverse_append] using forwards

namespace History

variable {origin middle contents : Contents} {earlier later : List Trail.Step}

theorem trans (first : History origin earlier middle) (second : History middle later contents) :
    History origin (later ++ earlier) contents := by
  induction second with
  | start => exact first
  | later _ change ih => exact ih.later change

/-- A history can be cut anywhere. -/
theorem cut (whole : History origin (later ++ earlier) contents) :
    ∃ middle, History origin earlier middle ∧ History middle later contents := by
  induction later generalizing contents with
  | nil => exact ⟨contents, whole, .start⟩
  | cons step rest ih =>
      cases whole with
      | later before change =>
          obtain ⟨middle, first, second⟩ := ih before
          exact ⟨middle, first, second.later change⟩

theorem mentions {literal : Literal} (history : History origin later contents)
    (mentioned : contents.Mentions literal) : origin.Mentions literal := by
  induction history with
  | start => exact mentioned
  | later _ change ih => exact ih (change.mentions mentioned)

end History

namespace Tallied

variable {front back : List WorkingClause} {literals left right : List Literal}
  {literal : Literal} {live emptied : Nat}

/-- A clause that is opened again counts as open. -/
theorem reopen (tallied : Tallied (front ++ ⟨literals, true⟩ :: back) live emptied) :
    Tallied (front ++ ⟨literals, false⟩ :: back) (live + 1) emptied where
  live_eq := by
    have := tallied.live_eq
    simp only [List.countP_append, List.countP_cons] at this ⊢
    simp only [Bool.not_true, Bool.false_eq_true, if_false, Bool.not_false, if_true] at this ⊢
    omega
  emptied_eq := by
    have := tallied.emptied_eq
    simpa only [List.countP_append, List.countP_cons] using this
  nonempty := by
    intro clause member satisfied
    apply tallied.nonempty clause _ satisfied
    rcases List.mem_append.mp member with inFront | inRest
    · exact List.mem_append_left _ inFront
    · rcases List.mem_cons.mp inRest with rfl | inBack
      · cases satisfied
      · exact List.mem_append_right _ (List.mem_cons_of_mem _ inBack)

/-- A clause that regains a literal is not empty, and was counted if it had been. -/
theorem regain (tallied : Tallied (front ++ ⟨left ++ right, false⟩ :: back) live emptied)
    (literal : Literal) :
    (if (left ++ right).isEmpty then 1 else 0) ≤ emptied ∧
      Tallied (front ++ ⟨left ++ literal :: right, false⟩ :: back) live
        (emptied - if (left ++ right).isEmpty then 1 else 0) := by
  have emptied_eq := tallied.emptied_eq
  simp only [List.countP_append, List.countP_cons] at emptied_eq
  refine ⟨by omega, ?_, ?_, ?_⟩
  · have := tallied.live_eq
    simpa only [List.countP_append, List.countP_cons] using this
  · have full : (left ++ literal :: right).isEmpty = false := by cases left <;> rfl
    simp only [List.countP_append, List.countP_cons, full, Bool.false_eq_true, if_false]
    omega
  · intro clause member satisfied
    rcases List.mem_append.mp member with inFront | inRest
    · exact tallied.nonempty clause (List.mem_append_left _ inFront) satisfied
    · rcases List.mem_cons.mp inRest with rfl | inBack
      · cases satisfied
      · exact tallied.nonempty clause
          (List.mem_append_right _ (List.mem_cons_of_mem _ inBack)) satisfied

end Tallied

namespace SearchState

/-- The contents of a working state. -/
def contents (state : SearchState) : Contents :=
  ⟨state.clauses.toList, state.assignment.value?⟩

/-- The counters agree with the clauses, and there is room for every number whose
assignment is on record. -/
structure Coherent (state : SearchState) : Prop where
  tallied : Tallied state.clauses.toList state.live state.emptied
  room : ∀ var previous, .assigned var previous ∈ state.trail.latestFirst →
    var < state.assignment.room

/-- A state differs from another one at most in what steps change. -/
structure SameRecord (left right : SearchState) : Prop where
  trail_eq : left.trail = right.trail
  numVars_eq : left.numVars = right.numVars
  room_eq : left.assignment.room = right.assignment.room

/-- A coherent state is its contents with its trail, its room and the number of
variables: the counters follow. -/
theorem eq_of_contents_eq {left right : SearchState} (leftCoherent : left.Coherent)
    (rightCoherent : right.Coherent) (contents : left.contents = right.contents)
    (trail : left.trail = right.trail) (numVars : left.numVars = right.numVars)
    (room : left.assignment.room = right.assignment.room) : left = right := by
  have clauses : left.clauses.toList = right.clauses.toList := congrArg Contents.clauses contents
  have live : left.live = right.live := by
    rw [leftCoherent.tallied.live_eq, rightCoherent.tallied.live_eq, clauses]
  have emptied : left.emptied = right.emptied := by
    rw [leftCoherent.tallied.emptied_eq, rightCoherent.tallied.emptied_eq, clauses]
  have assignment : left.assignment = right.assignment :=
    Assignment.eq_of_value?_eq room (congrArg Contents.values contents)
  cases left
  cases right
  simp only [mk.injEq]
  exact ⟨Array.toList_inj.mp clauses, assignment, trail, numVars, live, emptied⟩

variable {state : SearchState} {before after : Contents} {step : Trail.Step}

theorem reopenClause_eq_ok {index : Nat} {clause : WorkingClause}
    (found : state.clauses[index]? = some clause) :
    state.reopenClause index =
      .ok { state with
        clauses := state.clauses.setIfInBounds index { clause with satisfied := false }
        live := state.live + 1 } := by
  rw [reopenClause, found]

theorem restoreLiteral_eq_ok {index place : Nat} {literal : Literal} {clause : WorkingClause}
    (found : state.clauses[index]? = some clause)
    (counted : (if clause.literals.isEmpty then 1 else 0) ≤ state.emptied)
    (inside : place ≤ clause.literals.length) :
    state.restoreLiteral index place literal =
      .ok { state with
        clauses := state.clauses.setIfInBounds index
          { clause with literals := clause.literals.insertIdx place literal }
        emptied := state.emptied - if clause.literals.isEmpty then 1 else 0 } := by
  rw [restoreLiteral, found]
  dsimp only
  rw [if_neg (Nat.not_lt.mpr counted), if_neg (Nat.not_lt.mpr inside)]

theorem insertIdx_length_append {α : Type} (left right : List α) (element : α) :
    (left ++ right).insertIdx left.length element = left ++ element :: right := by
  induction left with
  | nil => rfl
  | cons first rest ih => exact congrArg (first :: ·) ih

theorem toList_setIfInBounds_length {clauses : Array WorkingClause}
    {front back : List WorkingClause} {old : WorkingClause}
    (known : clauses.toList = front ++ old :: back) (new : WorkingClause) :
    (clauses.setIfInBounds front.length new).toList = front ++ new :: back := by
  rw [Array.toList_setIfInBounds, known]
  simp

theorem getElem?_length {clauses : Array WorkingClause} {front back : List WorkingClause}
    {old : WorkingClause} (known : clauses.toList = front ++ old :: back) :
    clauses[front.length]? = some old := by
  rw [← Array.getElem?_toList, known]
  simp

/-- Undoing a recorded change restores the contents before it. -/
theorem exists_undo (change : Change before step after) (coherent : state.Coherent)
    (reached : state.contents = after) (recorded : step ∈ state.trail.latestFirst) :
    ∃ restored, state.undo step = .ok restored ∧ restored.contents = before ∧
      restored.Coherent ∧ restored.SameRecord state := by
  obtain ⟨tallied, room⟩ := coherent
  cases change with
  | assigned clauses values var value =>
      have same := state.assignment.room_setSlot_of_lt (values var) (room var _ recorded)
      refine ⟨_, rfl, ?_, ⟨tallied, ?_⟩, rfl, rfl, same⟩
      · have clauses_eq : state.clauses.toList = clauses := congrArg Contents.clauses reached
        have values_eq : state.assignment.value? = _ := congrArg Contents.values reached
        simp only [contents]
        rw [clauses_eq, Assignment.value?_setSlot, values_eq, Function.update_idem,
          Function.update_eq_self]
      · intro other previous earlier
        exact lt_of_lt_of_eq (room other previous earlier) same.symm
  | satisfied front back literals values nonempty =>
      have clauses_eq : state.clauses.toList = _ := congrArg Contents.clauses reached
      have values_eq : state.assignment.value? = values := congrArg Contents.values reached
      have opened := toList_setIfInBounds_length clauses_eq ⟨literals, false⟩
      rw [clauses_eq] at tallied
      refine ⟨_, reopenClause_eq_ok (getElem?_length clauses_eq), ?_, ⟨?_, room⟩, rfl, rfl, rfl⟩
      · simp only [contents]
        rw [opened, values_eq]
      · rw [opened]
        exact tallied.reopen
  | struck front back left right literal values =>
      have clauses_eq : state.clauses.toList = _ := congrArg Contents.clauses reached
      have values_eq : state.assignment.value? = values := congrArg Contents.values reached
      have regained := toList_setIfInBounds_length clauses_eq
        ⟨(left ++ right).insertIdx left.length literal, false⟩
      rw [insertIdx_length_append] at regained
      rw [clauses_eq] at tallied
      obtain ⟨counted, restored⟩ := tallied.regain literal
      have inside : left.length ≤ (left ++ right).length := by simp
      refine ⟨_, restoreLiteral_eq_ok (getElem?_length clauses_eq) counted inside, ?_,
        ⟨?_, room⟩, rfl, rfl, rfl⟩
      · simp only [contents]
        rw [insertIdx_length_append, regained, values_eq]
      · simp only [insertIdx_length_append, regained]
        exact restored

/-- Undoing the latest steps of a history restores the contents before them. -/
theorem exists_foldlM_undo {origin : Contents} {steps : List Trail.Step}
    (history : History origin steps state.contents) (coherent : state.Coherent)
    (recorded : steps ⊆ state.trail.latestFirst) :
    ∃ restored, steps.foldlM undo state = .ok restored ∧ restored.contents = origin ∧
      restored.Coherent ∧ restored.SameRecord state := by
  generalize reached : state.contents = after at history
  induction history generalizing state with
  | start => exact ⟨state, rfl, reached, coherent, rfl, rfl, rfl⟩
  | @later steps _ _ _ earlier change ih =>
      obtain ⟨first, undone, there, firstCoherent, record⟩ :=
        exists_undo change coherent reached (recorded List.mem_cons_self)
      have still : steps ⊆ first.trail.latestFirst := by
        rw [record.trail_eq]
        exact List.Subset.trans (List.subset_cons_self ..) recorded
      obtain ⟨restored, others, back, restoredCoherent, rest⟩ := ih firstCoherent still there
      refine ⟨restored, ?_, back, restoredCoherent, rest.trail_eq.trans record.trail_eq,
        rest.numVars_eq.trans record.numVars_eq, rest.room_eq.trans record.room_eq⟩
      rw [List.foldlM_cons, undone]
      exact others

/-! ## Going back to a checkpoint -/

/-- Going back to a checkpoint restores the contents that the history had before
the steps recorded since. -/
theorem exists_backtrack_of_history {middle : Contents} {mark : Checkpoint}
    (history : History middle (state.trail.since mark) state.contents)
    (coherent : state.Coherent) :
    ∃ restored, state.backtrack mark = .ok restored ∧ restored.contents = middle ∧
      restored.trail = state.trail.upTo mark ∧ restored.Coherent ∧
      restored.numVars = state.numVars ∧ restored.assignment.room = state.assignment.room := by
  obtain ⟨undone, ran, back, undoneCoherent, record⟩ :=
    exists_foldlM_undo history coherent (List.take_subset ..)
  refine ⟨{ undone with trail := state.trail.upTo mark }, ?_, back, rfl,
    ⟨undoneCoherent.tallied, ?_⟩, record.numVars_eq, record.room_eq⟩
  · rw [backtrack, ran]
    rfl
  · intro var previous earlier
    apply undoneCoherent.room var previous
    rw [record.trail_eq]
    exact List.drop_subset _ _ earlier

/-- A state was reached from one above it by changes recorded on top of its trail. -/
def Descends (above below : SearchState) : Prop :=
  below.numVars = above.numVars ∧ ∃ steps,
    below.trail.latestFirst = steps ++ above.trail.latestFirst ∧
      History above.contents steps below.contents

/-- What going back from a state to one above it gives: the state above, but for
the room, which is that of the state below. -/
structure Restores (restored above below : SearchState) : Prop where
  contents_eq : restored.contents = above.contents
  trail_eq : restored.trail = above.trail
  numVars_eq : restored.numVars = above.numVars
  room_eq : restored.assignment.room = below.assignment.room
  coherent : restored.Coherent

namespace Descends

variable {above middle below : SearchState}

theorem refl (state : SearchState) : Descends state state :=
  ⟨rfl, [], rfl, .start⟩

theorem trans (first : Descends above middle) (second : Descends middle below) :
    Descends above below := by
  obtain ⟨firstVars, earlier, firstTrail, firstHistory⟩ := first
  obtain ⟨secondVars, later, secondTrail, secondHistory⟩ := second
  refine ⟨secondVars.trans firstVars, later ++ earlier, ?_, firstHistory.trans secondHistory⟩
  rw [secondTrail, firstTrail, List.append_assoc]

theorem height_le (descends : Descends above below) :
    above.checkpoint.height ≤ below.checkpoint.height := by
  obtain ⟨_, steps, trail_eq, _⟩ := descends
  simp only [checkpoint, Trail.checkpoint, Trail.size, trail_eq, List.length_append]
  omega

/-- Going back to any point no older than the checkpoint taken above stays below it. -/
theorem exists_backtrack_of_le (descends : Descends above below) (coherent : below.Coherent)
    {mark : Checkpoint} (notOlder : above.checkpoint.height ≤ mark.height) :
    ∃ restored, below.backtrack mark = .ok restored ∧ Descends above restored ∧
      restored.Coherent ∧ restored.assignment.room = below.assignment.room := by
  obtain ⟨numVars_eq, steps, trail_eq, history⟩ := descends
  have few : below.trail.size - mark.height ≤ steps.length := by
    simp only [checkpoint, Trail.checkpoint] at notOlder
    simp only [Trail.size, trail_eq, List.length_append] at notOlder ⊢
    omega
  have since : below.trail.since mark = steps.take (below.trail.size - mark.height) := by
    rw [Trail.since, trail_eq, List.take_append_of_le_length few]
  have upTo : (below.trail.upTo mark).latestFirst =
      steps.drop (below.trail.size - mark.height) ++ above.trail.latestFirst := by
    rw [Trail.upTo, trail_eq, List.drop_append_of_le_length few]
  rw [← List.take_append_drop (below.trail.size - mark.height) steps, ← since] at history
  obtain ⟨middle, earlier, later⟩ := history.cut
  obtain ⟨restored, undone, contents, trail, restoredCoherent, numVars, room⟩ :=
    exists_backtrack_of_history later coherent
  refine ⟨restored, undone, ⟨numVars.trans numVars_eq, _, ?_, contents ▸ earlier⟩,
    restoredCoherent, room⟩
  rw [trail, upTo]

/-- Going back to the checkpoint taken above undoes everything done since. -/
theorem exists_backtrack (descends : Descends above below) (coherent : below.Coherent) :
    ∃ restored, below.backtrack above.checkpoint = .ok restored ∧
      restored.Restores above below := by
  obtain ⟨numVars_eq, steps, trail_eq, history⟩ := descends
  have height : below.trail.size - above.checkpoint.height = steps.length := by
    simp only [checkpoint, Trail.checkpoint, Trail.size, trail_eq, List.length_append]
    omega
  have since : below.trail.since above.checkpoint = steps := by
    rw [Trail.since, height, trail_eq]
    exact List.take_left
  have upTo : below.trail.upTo above.checkpoint = above.trail := by
    rw [Trail.upTo, height, trail_eq, List.drop_left]
  rw [← since] at history
  obtain ⟨restored, ran, back, trail, restoredCoherent, numVars, room⟩ :=
    exists_backtrack_of_history history coherent
  exact ⟨restored, ran, back, trail.trans upTo, numVars.trans numVars_eq, room, restoredCoherent⟩

end Descends

namespace Restores

variable {restored above below : SearchState}

theorem liveClauses_eq (restores : restored.Restores above below) :
    restored.liveClauses = above.liveClauses := by
  have clauses : restored.clauses.toList = above.clauses.toList :=
    congrArg Contents.clauses restores.contents_eq
  rw [liveClauses, liveClauses, clauses]

theorem value?_eq (restores : restored.Restores above below) :
    restored.assignment.value? = above.assignment.value? :=
  congrArg Contents.values restores.contents_eq

/-- If no room was made below, the state that is found again is the state above. -/
theorem eq_above (restores : restored.Restores above below) (coherent : above.Coherent)
    (sameRoom : below.assignment.room = above.assignment.room) : restored = above :=
  eq_of_contents_eq restores.coherent coherent restores.contents_eq restores.trail_eq
    restores.numVars_eq (restores.room_eq.trans sameRoom)

theorem descends (restores : restored.Restores above below) : Descends above restored := by
  refine ⟨restores.numVars_eq, [], ?_, ?_⟩
  · rw [restores.trail_eq, List.nil_append]
  · rw [restores.contents_eq]
    exact .start

end Restores

end SearchState

end ChronoSat
