/-
# Making a literal true in a working state

Making a literal true goes through the clauses once. Of a clause it decides three
ways: a satisfied clause is passed over, a clause with the literal becomes
satisfied, and from any other clause the opposite literal is struck. The open
clauses afterwards are the reduction of the open clauses before, the steps that
are recorded are a history of the changes, and the state stays coherent. In a
coherent state nothing can go wrong, because no more clauses can become satisfied
than are open.
-/

import ChronoSat.Proofs.Clauses.Reduction
import ChronoSat.Proofs.State.Change

namespace ChronoSat

/-! ## Striking -/

section Strike

variable {falsified : Literal}

theorem strike_of_eq (place : Nat) (rest : List Literal) :
    strike falsified place (falsified :: rest) =
      ((strike falsified place rest).1, place :: (strike falsified place rest).2) := by
  rw [strike, if_pos rfl]

theorem strike_of_ne {literal : Literal} (other : literal ≠ falsified) (place : Nat)
    (rest : List Literal) :
    strike falsified place (literal :: rest) =
      (literal :: (strike falsified (place + 1) rest).1,
        (strike falsified (place + 1) rest).2) := by
  rw [strike, if_neg other]

theorem filter_ne_eq_self {row : List Literal} (absent : falsified ∉ row) :
    row.filter (fun literal => literal ≠ falsified) = row := by
  rw [List.filter_eq_self]
  intro literal member
  exact decide_eq_true fun same => absent (same ▸ member)

/-- Striking keeps the other literals in order. -/
theorem strike_fst (place : Nat) (row : List Literal) :
    (strike falsified place row).1 = row.filter fun literal => literal ≠ falsified := by
  induction row generalizing place with
  | nil => rfl
  | cons literal rest ih =>
      by_cases same : literal = falsified
      · rw [same, strike_of_eq, ih, List.filter_cons_of_neg (by simp)]
      · rw [strike_of_ne same, ih, List.filter_cons_of_pos (by simpa using same)]

theorem strike_snd_eq_nil_iff (place : Nat) (row : List Literal) :
    (strike falsified place row).2 = [] ↔ falsified ∉ row := by
  induction row generalizing place with
  | nil => exact ⟨fun _ => List.not_mem_nil, fun _ => rfl⟩
  | cons literal rest ih =>
      by_cases same : literal = falsified
      · rw [same, strike_of_eq]
        exact ⟨nofun, fun absent => absurd List.mem_cons_self absent⟩
      · rw [strike_of_ne same, ih, List.mem_cons, not_or]
        exact ⟨fun absent => ⟨Ne.symm same, absent⟩, And.right⟩

/-- Every occurrence is struck. -/
theorem length_strike_snd (place : Nat) (row : List Literal) :
    (strike falsified place row).2.length = row.count falsified := by
  induction row generalizing place with
  | nil => rfl
  | cons literal rest ih =>
      by_cases same : literal = falsified
      · rw [same, strike_of_eq, List.count_cons_self, List.length_cons, ih]
      · rw [strike_of_ne same, List.count_cons_of_ne same, ih]

/-- The recorded places are those at which the literals stood one after the other. -/
theorem history_strike (front back : List WorkingClause) (passed row : List Literal)
    (values : Nat → Option Bool) :
    History ⟨front ++ ⟨passed ++ row, false⟩ :: back, values⟩
      (((strike falsified passed.length row).2.map fun place =>
        .struck front.length place falsified).reverse)
      ⟨front ++ ⟨passed ++ row.filter fun literal => literal ≠ falsified, false⟩ :: back,
        values⟩ := by
  induction row generalizing passed with
  | nil => exact .start
  | cons literal rest ih =>
      by_cases same : literal = falsified
      · subst same
        have first := History.start.later
          (Change.struck front back passed rest literal values)
        rw [strike_of_eq, List.filter_cons_of_neg (by simp), List.map_cons, List.reverse_cons]
        exact first.trans (ih passed)
      · have others := ih (passed ++ [literal])
        rw [List.length_append] at others
        rw [strike_of_ne same, List.filter_cons_of_pos (by simpa using same)]
        simpa only [List.append_assoc, List.singleton_append, List.length_singleton] using others

end Strike

/-! ## One clause -/

/-- The literals of the clauses in a row that are open. -/
def openIn (clauses : List WorkingClause) : List (List Literal) :=
  (clauses.filter fun clause => !clause.satisfied).map WorkingClause.literals

theorem openIn_append (front back : List WorkingClause) :
    openIn (front ++ back) = openIn front ++ openIn back := by
  simp only [openIn, List.filter_append, List.map_append]

namespace WorkingClause

/-- What is left of a clause that is not satisfied, with the record of what was
struck from it. -/
def struckEffect (literal : Literal) (index : Nat) (literals : List Literal) : ClauseEffect :=
  let kept := literals.filter fun other => other ≠ literal.negated
  let places := (strike literal.negated 0 literals).2
  ⟨⟨kept, false⟩, places.map fun place => .struck index place literal.negated, 0,
    places.length, if literal.negated ∈ literals then if kept.isEmpty then 1 else 0 else 0⟩

/-- The three ways of a clause. -/
theorem makeTrue_cases (literal : Literal) (index : Nat) (clause : WorkingClause) :
    (clause.satisfied = true ∧ clause.makeTrue literal index = ⟨clause, [], 0, 0, 0⟩) ∨
    (∃ literals, clause = ⟨literals, false⟩ ∧ literal ∈ literals ∧
      clause.makeTrue literal index = ⟨⟨literals, true⟩, [.satisfied index], 1, 0, 0⟩) ∨
    (∃ literals, clause = ⟨literals, false⟩ ∧ literal ∉ literals ∧
      clause.makeTrue literal index = struckEffect literal index literals) := by
  obtain ⟨literals, satisfied⟩ := clause
  cases satisfied with
  | true => exact .inl ⟨rfl, makeTrue_of_satisfied literal index rfl⟩
  | false =>
      by_cases inside : literal ∈ literals
      · exact .inr (.inl ⟨literals, rfl, inside,
          makeTrue_of_contains index rfl (List.contains_iff_mem.mpr inside)⟩)
      · refine .inr (.inr ⟨literals, rfl, inside, ?_⟩)
        simp only [makeTrue, struckEffect, List.contains_iff_mem, inside, Bool.false_eq_true,
          if_false, strike_fst]
        by_cases opposed : literal.negated ∈ literals
        · rw [if_pos opposed, if_pos opposed]
        · have none : (strike literal.negated 0 literals).2 = [] :=
            (strike_snd_eq_nil_iff 0 literals).mpr opposed
          rw [if_neg opposed, if_neg opposed, none, filter_ne_eq_self opposed]
          rfl

variable (literal : Literal) (clause : WorkingClause)

theorem history_makeTrue (front back : List WorkingClause) (values : Nat → Option Bool) :
    History ⟨front ++ clause :: back, values⟩
      (clause.makeTrue literal front.length).steps.reverse
      ⟨front ++ (clause.makeTrue literal front.length).clause :: back, values⟩ := by
  rcases makeTrue_cases literal front.length clause with
    ⟨_, effect⟩ | ⟨literals, rfl, inside, effect⟩ | ⟨literals, rfl, _, effect⟩ <;> rw [effect]
  · exact .start
  · exact History.start.later
      (.satisfied front back literals values (List.ne_nil_of_mem inside))
  · exact history_strike front back [] literals values

/-- A clause that is open afterwards was open before, and holds what the reduction
leaves of it. -/
theorem openIn_makeTrue (index : Nat) :
    openIn [(clause.makeTrue literal index).clause] =
      Clauses.reduced literal (openIn [clause]) := by
  rcases makeTrue_cases literal index clause with
    ⟨satisfied, effect⟩ | ⟨literals, rfl, inside, effect⟩ | ⟨literals, rfl, outside, effect⟩ <;>
    rw [effect]
  · simp [openIn, satisfied, Clauses.reduced]
  · simp [openIn, inside, Clauses.reduced]
  · simp [openIn, outside, Clauses.reduced, struckEffect]

/-- What is counted is what the reduction drops and strikes. -/
theorem impact_makeTrue (index : Nat) :
    (⟨(clause.makeTrue literal index).satisfied, (clause.makeTrue literal index).struck⟩ :
        Impact) = Clauses.impact literal (openIn [clause]) := by
  rcases makeTrue_cases literal index clause with
    ⟨satisfied, effect⟩ | ⟨literals, rfl, inside, effect⟩ | ⟨literals, rfl, outside, effect⟩ <;>
    rw [effect]
  · simp [openIn, satisfied, Clauses.impact]
  · simp [openIn, inside, Clauses.impact]
  · simp [openIn, outside, Clauses.impact, struckEffect, length_strike_snd]

/-- Every clause that becomes satisfied and every literal that is struck is one step. -/
theorem length_steps_makeTrue (index : Nat) :
    (clause.makeTrue literal index).steps.length =
      (clause.makeTrue literal index).satisfied + (clause.makeTrue literal index).struck := by
  rcases makeTrue_cases literal index clause with
    ⟨_, effect⟩ | ⟨literals, rfl, _, effect⟩ | ⟨literals, rfl, _, effect⟩ <;> rw [effect]
  · rfl
  · rfl
  · simp [struckEffect]

theorem countP_open_makeTrue (index : Nat) :
    (clause.makeTrue literal index).satisfied +
        [(clause.makeTrue literal index).clause].countP (fun other => !other.satisfied) =
      [clause].countP fun other => !other.satisfied := by
  rcases makeTrue_cases literal index clause with
    ⟨_, effect⟩ | ⟨literals, rfl, _, effect⟩ | ⟨literals, rfl, _, effect⟩ <;> rw [effect]
  · exact Nat.zero_add _
  · rfl
  · rfl

theorem countP_empty_makeTrue (index : Nat) :
    [(clause.makeTrue literal index).clause].countP (fun other => other.literals.isEmpty) =
      [clause].countP (fun other => other.literals.isEmpty) +
        (clause.makeTrue literal index).emptied := by
  rcases makeTrue_cases literal index clause with
    ⟨_, effect⟩ | ⟨literals, rfl, _, effect⟩ | ⟨literals, rfl, _, effect⟩ <;> rw [effect]
  · rfl
  · rfl
  · simp only [struckEffect, List.countP_singleton]
    by_cases opposed : literal.negated ∈ literals
    · have full : literals.isEmpty = false := by
        rw [List.isEmpty_eq_false_iff]
        exact List.ne_nil_of_mem opposed
      rw [if_pos opposed, full]
      simp
    · rw [if_neg opposed, filter_ne_eq_self opposed, Nat.add_zero]

theorem nonempty_makeTrue (index : Nat)
    (before : clause.satisfied = true → clause.literals ≠ [])
    (after : (clause.makeTrue literal index).clause.satisfied = true) :
    (clause.makeTrue literal index).clause.literals ≠ [] := by
  rcases makeTrue_cases literal index clause with
    ⟨satisfied, effect⟩ | ⟨literals, rfl, inside, effect⟩ | ⟨literals, rfl, _, effect⟩ <;>
    rw [effect] at after ⊢
  · exact before satisfied
  · exact List.ne_nil_of_mem inside
  · cases after

end WorkingClause

/-! ## A row of clauses -/

namespace SearchState

variable (literal : Literal)

theorem effectFrom_cons (index : Nat) (clause : WorkingClause) (rest : List WorkingClause) :
    effectFrom literal index (clause :: rest) =
      ⟨(clause.makeTrue literal index).clause :: (effectFrom literal (index + 1) rest).clauses,
        (clause.makeTrue literal index).steps ++ (effectFrom literal (index + 1) rest).steps,
        (clause.makeTrue literal index).satisfied +
          (effectFrom literal (index + 1) rest).satisfied,
        (clause.makeTrue literal index).struck + (effectFrom literal (index + 1) rest).struck,
        (clause.makeTrue literal index).emptied +
          (effectFrom literal (index + 1) rest).emptied⟩ :=
  rfl

theorem history_effectFrom (front clauses : List WorkingClause) (values : Nat → Option Bool) :
    History ⟨front ++ clauses, values⟩ (effectFrom literal front.length clauses).steps.reverse
      ⟨front ++ (effectFrom literal front.length clauses).clauses, values⟩ := by
  induction clauses generalizing front with
  | nil => exact .start
  | cons clause rest ih =>
      have first := WorkingClause.history_makeTrue literal clause front rest values
      have others := ih (front ++ [(clause.makeTrue literal front.length).clause])
      rw [List.length_append, List.length_singleton] at others
      simp only [List.append_assoc, List.singleton_append] at others
      rw [effectFrom_cons, List.reverse_append]
      exact first.trans others

/-- Only the change of the assignment is recorded as one. -/
theorem assigned_not_mem_effectFrom (index : Nat) (clauses : List WorkingClause) (var : Nat)
    (previous : Option Bool) :
    .assigned var previous ∉ (effectFrom literal index clauses).steps := by
  induction clauses generalizing index with
  | nil => exact List.not_mem_nil
  | cons clause rest ih =>
      rw [effectFrom_cons, List.mem_append, not_or]
      refine ⟨?_, ih (index + 1)⟩
      rcases WorkingClause.makeTrue_cases literal index clause with
        ⟨_, effect⟩ | ⟨literals, rfl, _, effect⟩ | ⟨literals, rfl, _, effect⟩ <;>
        simp [effect, WorkingClause.struckEffect]

theorem openIn_effectFrom (index : Nat) (clauses : List WorkingClause) :
    openIn (effectFrom literal index clauses).clauses =
      Clauses.reduced literal (openIn clauses) := by
  induction clauses generalizing index with
  | nil => rfl
  | cons clause rest ih =>
      have first := WorkingClause.openIn_makeTrue literal clause index
      rw [effectFrom_cons, ← List.singleton_append, openIn_append, first, ih,
        ← Clauses.reduced_append, ← openIn_append, List.singleton_append]

theorem impact_effectFrom (index : Nat) (clauses : List WorkingClause) :
    (⟨(effectFrom literal index clauses).satisfied, (effectFrom literal index clauses).struck⟩ :
        Impact) = Clauses.impact literal (openIn clauses) := by
  induction clauses generalizing index with
  | nil => rfl
  | cons clause rest ih =>
      rw [← List.singleton_append, openIn_append, Clauses.impact_append,
        ← WorkingClause.impact_makeTrue literal clause index, ← ih (index + 1)]
      rfl

theorem length_steps_effectFrom (index : Nat) (clauses : List WorkingClause) :
    (effectFrom literal index clauses).steps.length =
      (effectFrom literal index clauses).satisfied +
        (effectFrom literal index clauses).struck := by
  induction clauses generalizing index with
  | nil => rfl
  | cons clause rest ih =>
      have first := WorkingClause.length_steps_makeTrue literal clause index
      have others := ih (index + 1)
      simp only [effectFrom_cons, List.length_append]
      omega

/-- No more clauses become satisfied than are open. -/
theorem countP_open_effectFrom (index : Nat) (clauses : List WorkingClause) :
    (effectFrom literal index clauses).satisfied +
        (effectFrom literal index clauses).clauses.countP (fun clause => !clause.satisfied) =
      clauses.countP fun clause => !clause.satisfied := by
  induction clauses generalizing index with
  | nil => rfl
  | cons clause rest ih =>
      have first := WorkingClause.countP_open_makeTrue literal clause index
      have others := ih (index + 1)
      rw [effectFrom_cons]
      rw [List.countP_singleton, List.countP_singleton] at first
      simp only [List.countP_cons]
      omega

theorem countP_empty_effectFrom (index : Nat) (clauses : List WorkingClause) :
    (effectFrom literal index clauses).clauses.countP (fun clause => clause.literals.isEmpty) =
      clauses.countP (fun clause => clause.literals.isEmpty) +
        (effectFrom literal index clauses).emptied := by
  induction clauses generalizing index with
  | nil => rfl
  | cons clause rest ih =>
      have first := WorkingClause.countP_empty_makeTrue literal clause index
      have others := ih (index + 1)
      rw [effectFrom_cons]
      rw [List.countP_singleton, List.countP_singleton] at first
      simp only [List.countP_cons]
      omega

theorem nonempty_effectFrom (index : Nat) {clauses : List WorkingClause}
    (before : ∀ clause ∈ clauses, clause.satisfied = true → clause.literals ≠ []) :
    ∀ clause ∈ (effectFrom literal index clauses).clauses,
      clause.satisfied = true → clause.literals ≠ [] := by
  induction clauses generalizing index with
  | nil => exact nofun
  | cons clause rest ih =>
      rw [List.forall_mem_cons] at before
      rw [effectFrom_cons, List.forall_mem_cons]
      exact ⟨WorkingClause.nonempty_makeTrue literal clause index before.1,
        ih (index + 1) before.2⟩

/-- The counters that are kept agree with the clauses afterwards. -/
theorem tallied_effectFrom (index : Nat) {clauses : List WorkingClause} {live emptied : Nat}
    (tallied : Tallied clauses live emptied) :
    (effectFrom literal index clauses).satisfied ≤ live ∧
      Tallied (effectFrom literal index clauses).clauses
        (live - (effectFrom literal index clauses).satisfied)
        (emptied + (effectFrom literal index clauses).emptied) := by
  have still_open := countP_open_effectFrom literal index clauses
  have now_empty := countP_empty_effectFrom literal index clauses
  obtain ⟨live_eq, emptied_eq, nonempty⟩ := tallied
  exact ⟨by omega, by omega, by omega, nonempty_effectFrom literal index nonempty⟩

/-! ## A working state -/

/-- What making a literal true does to a state. -/
structure Makes (before after : SearchState) : Prop where
  descends : Descends before after
  coherent : after.Coherent
  liveClauses_eq : after.liveClauses = Clauses.reduced literal before.liveClauses
  value?_eq : after.assignment.value? =
    Function.update before.assignment.value? literal.var (some literal.polarity)
  room_eq : after.assignment.room = max before.assignment.room (literal.var + 1)

theorem assign_eq_ok {state : SearchState}
    (enough : (effectFrom literal 0 state.clauses.toList).satisfied ≤ state.live) :
    state.assign literal =
      .ok
        ({ state with
            clauses := (effectFrom literal 0 state.clauses.toList).clauses.toArray
            assignment := state.assignment.assign literal.var literal.polarity
            trail := state.trail.pushAll
              (.assigned literal.var (state.assignment.value? literal.var) ::
                (effectFrom literal 0 state.clauses.toList).steps)
            live := state.live - (effectFrom literal 0 state.clauses.toList).satisfied
            emptied := state.emptied + (effectFrom literal 0 state.clauses.toList).emptied },
          ⟨(effectFrom literal 0 state.clauses.toList).satisfied,
            (effectFrom literal 0 state.clauses.toList).struck⟩) := by
  rw [assign, if_pos enough]

/-- Making a literal true in a coherent state never fails. -/
theorem exists_assign {state : SearchState} (coherent : state.Coherent) :
    ∃ after impact, state.assign literal = .ok (after, impact) ∧ Makes literal state after := by
  obtain ⟨enough, tallied⟩ := tallied_effectFrom literal 0 coherent.tallied
  have values := state.assignment.value?_assign literal.var literal.polarity
  have room := state.assignment.room_setSlot literal.var (some literal.polarity)
  refine ⟨_, _, assign_eq_ok literal enough, ⟨rfl, ?_⟩, ⟨tallied, ?_⟩, ?_, values, room⟩
  · have given := History.start.later
      (Change.assigned state.clauses.toList state.assignment.value? literal.var literal.polarity)
    have made := history_effectFrom literal [] state.clauses.toList
      (Function.update state.assignment.value? literal.var (some literal.polarity))
    refine ⟨_, Trail.latestFirst_pushAll .., ?_⟩
    rw [List.reverse_cons, contents, contents, values]
    exact given.trans made
  · intro var previous recorded
    rw [Trail.latestFirst_pushAll, List.mem_append, List.mem_reverse] at recorded
    refine Nat.lt_of_lt_of_eq ?_ room.symm
    rcases recorded with now | earlier
    · rcases List.mem_cons.mp now with same | inClauses
      · cases same
        omega
      · exact absurd inClauses (assigned_not_mem_effectFrom literal 0 _ var previous)
    · have := coherent.room var previous earlier
      omega
  · exact openIn_effectFrom literal 0 state.clauses.toList

theorem makes_of_assign {state after : SearchState} {impact : Impact} (coherent : state.Coherent)
    (made : state.assign literal = .ok (after, impact)) : Makes literal state after := by
  obtain ⟨next, nextImpact, assigned, makes⟩ := exists_assign literal coherent
  cases made.symm.trans assigned
  exact makes

/-- What is reported is what the reduction of the open clauses drops and strikes, and all
of it is on the trail, behind the value that was given. -/
theorem impact_of_assign {state after : SearchState} {impact : Impact}
    (assigned : state.assign literal = .ok (after, impact)) :
    impact = Clauses.impact literal state.liveClauses ∧
      after.trail.size = state.trail.size + 1 + impact.satisfied + impact.struck := by
  have reported := impact_effectFrom literal 0 state.clauses.toList
  have recorded := length_steps_effectFrom literal 0 state.clauses.toList
  rw [assign] at assigned
  split at assigned
  · cases assigned
    refine ⟨reported, ?_⟩
    simp only [Trail.size, Trail.latestFirst_pushAll, List.length_append, List.length_reverse,
      List.length_cons]
    omega
  · cases assigned

/-! ## What the counters answer -/

variable {literal} {state : SearchState}

/-- One counter is the number of open clauses. -/
theorem Coherent.live_eq (coherent : state.Coherent) : state.live = state.liveClauses.length := by
  rw [coherent.tallied.live_eq, liveClauses, List.length_map, List.countP_eq_length_filter]

/-- The other one is the number of open clauses without literals, since a satisfied
clause has one. -/
theorem Coherent.emptied_eq (coherent : state.Coherent) :
    state.emptied = state.liveClauses.countP List.isEmpty := by
  rw [coherent.tallied.emptied_eq, liveClauses, List.countP_map, List.countP_filter]
  apply List.countP_congr
  intro clause member
  have full := coherent.tallied.nonempty clause member
  cases satisfied : clause.satisfied with
  | true => simp [full satisfied]
  | false => simp

theorem isSolved_iff (coherent : state.Coherent) :
    state.isSolved = true ↔ state.liveClauses = [] := by
  rw [isSolved, coherent.live_eq, beq_iff_eq, List.length_eq_zero_iff]

/-- A clause without literals is open. -/
theorem hasEmptyClause_iff (coherent : state.Coherent) :
    state.hasEmptyClause = true ↔ [] ∈ state.liveClauses := by
  rw [hasEmptyClause, coherent.emptied_eq, decide_eq_true_eq, List.countP_pos_iff]
  simp only [List.isEmpty_iff, exists_eq_right]

theorem mem_of_firstUnit (found : state.firstUnit = some literal) :
    [literal] ∈ state.liveClauses := by
  rw [firstUnit_eq_findSome?] at found
  exact Clauses.mem_of_findSome?_unitOf found

end SearchState

end ChronoSat
