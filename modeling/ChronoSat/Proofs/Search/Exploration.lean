/-
# Explorations

The search is a recursion on the nodes that may be nested, and what it does at a
node is spread over making a literal true, going below, and undoing. A derivation
of `Explores` is the tree of nodes that a search visits, with all of this resolved:
nothing in it fails but what the policy brings about, the state below a literal is
the state above with the literal made true, and the state that an exhausted subtree
leaves behind is the one it was entered in.

From a coherent state every search is such a tree. The theorems about searches are
inductions over it; they look at a working state only through its open clauses and
its assignment. No promise of the policy is used here, and the alarm is any alarm.
-/

import ChronoSat.Search.Basic
import ChronoSat.Proofs.State.Making

namespace ChronoSat.Search

open SearchState

variable {σ : Type}

namespace Run

/-- A value is tried, which leads to a state. -/
def entered (run : Run σ) (choice : Choice) (depth : Nat) (next : SearchState) : Run σ :=
  { run.noteDecision choice depth with state := next }

/-- A value that failed is taken back, which leads to a state. -/
def leftAgain (run : Run σ) (choice : Choice) (depth : Nat) (restored : SearchState) : Run σ :=
  Run.noteBacktrack { run with state := restored } choice depth

end Run

/-- A node that goes on: there is time, clauses are open, and none of them is empty. -/
structure GoesOn (alarm : Alarm) (run : Run σ) : Prop where
  inTime : alarm run.looks = false
  unsolved : run.state.liveClauses ≠ []
  nonempty : [] ∉ run.state.liveClauses

/-- A node that makes the literal of its first unit true. -/
structure Forces (alarm : Alarm) (run : Run σ) (literal : Literal) : Prop
    extends GoesOn alarm run where
  unit : run.state.firstUnit = some literal

theorem Forces.occurs {alarm : Alarm} {run : Run σ} {literal : Literal}
    (forces : Forces alarm run literal) : literal.var ∈ Clauses.vars run.state.liveClauses :=
  Clauses.var_mem_vars_of_unit (mem_of_firstUnit forces.unit)

/-- A node that asks the policy. -/
structure Asks (alarm : Alarm) (run : Run σ) : Prop extends GoesOn alarm run where
  noUnit : run.state.firstUnit = none

/-- A node that is told to make a literal true first. -/
structure Decides (policy : Policy σ) (alarm : Alarm) (run : Run σ) (literal : Literal)
    (memory : σ) : Prop extends Asks alarm run where
  proposed : policy.propose run.state.remaining run.memory = .ok (some literal.choice, memory)
  inRange : literal.var ≤ Literal.maxVar

/-- The tree of nodes that a search visits, with how it ends. -/
inductive Explores (policy : Policy σ) (alarm : Alarm) :
    (frames depth : Nat) → Run σ → Ending → Run σ → Prop
  | nestingLimit {depth : Nat} {run : Run σ} :
      Explores policy alarm 0 depth run (.stopped (.fault .nestingLimit)) run
  | deadline {frames depth : Nat} {run : Run σ} (timeUp : alarm run.looks = true) :
      Explores policy alarm (frames + 1) depth run (.stopped .deadline) run.noteLook
  | satisfied {frames depth : Nat} {run : Run σ} (inTime : alarm run.looks = false)
      (solved : run.state.liveClauses = []) :
      Explores policy alarm (frames + 1) depth run .satisfied run.noteLook
  | conflict {frames depth : Nat} {run : Run σ} (inTime : alarm run.looks = false)
      (empty : [] ∈ run.state.liveClauses) :
      Explores policy alarm (frames + 1) depth run .exhausted
        (run.noteLook.noteConflict depth)
  | forced {frames depth : Nat} {run after : Run σ} {literal : Literal} {next : SearchState}
      {impact : Impact} {ending : Ending} (forces : Forces alarm run literal)
      (made : Makes literal run.state next)
      (below : Explores policy alarm frames depth
        (run.noteLook.notePropagation literal depth next impact) ending after)
      (kept : ending ≠ .exhausted) :
      Explores policy alarm (frames + 1) depth run ending after
  | forcedBack {frames depth : Nat} {run after : Run σ} {literal : Literal}
      {next restored : SearchState} {impact : Impact} (forces : Forces alarm run literal)
      (made : Makes literal run.state next)
      (below : Explores policy alarm frames depth
        (run.noteLook.notePropagation literal depth next impact) .exhausted after)
      (undone : restored.Restores run.state after.state) :
      Explores policy alarm (frames + 1) depth run .exhausted { after with state := restored }
  | policyFault {frames depth : Nat} {run : Run σ} {fault : Fault} (asks : Asks alarm run)
      (failed : policy.propose run.state.remaining run.memory = .error fault) :
      Explores policy alarm (frames + 1) depth run (.stopped (.fault fault)) run.noteLook
  | noCandidate {frames depth : Nat} {run : Run σ} {memory : σ} (asks : Asks alarm run)
      (silent : policy.propose run.state.remaining run.memory = .ok (none, memory)) :
      Explores policy alarm (frames + 1) depth run (.stopped .noCandidate)
        { run.noteLook with memory := memory }
  | notAVariable {frames depth : Nat} {run : Run σ} {choice : Choice} {memory : σ}
      (asks : Asks alarm run)
      (proposed : policy.propose run.state.remaining run.memory = .ok (some choice, memory))
      (outside : ¬ (0 < choice.var ∧ choice.var ≤ Literal.maxVar)) :
      Explores policy alarm (frames + 1) depth run (.stopped (.fault (.notAVariable choice.var)))
        ((run.noteLook.noteProposal memory (depth + 1)).noteDecision choice (depth + 1))
  | decided {frames depth : Nat} {run after : Run σ} {literal : Literal} {memory : σ}
      {next : SearchState} {ending : Ending} (decides : Decides policy alarm run literal memory)
      (made : Makes literal run.state next)
      (below : Explores policy alarm frames (depth + 1)
        ((run.noteLook.noteProposal memory (depth + 1)).entered literal.choice (depth + 1) next)
        ending after)
      (kept : ending ≠ .exhausted) :
      Explores policy alarm (frames + 1) depth run ending after
  | decidedSecond {frames depth : Nat} {run middle after : Run σ} {literal : Literal} {memory : σ}
      {next restored other : SearchState} {ending : Ending}
      (decides : Decides policy alarm run literal memory) (made : Makes literal run.state next)
      (first : Explores policy alarm frames (depth + 1)
        ((run.noteLook.noteProposal memory (depth + 1)).entered literal.choice (depth + 1) next)
        .exhausted middle)
      (undone : restored.Restores run.state middle.state)
      (madeOpposite : Makes literal.negated restored other)
      (second : Explores policy alarm frames (depth + 1)
        ((middle.leftAgain literal.choice (depth + 1) restored).entered literal.negated.choice
          (depth + 1) other)
        ending after)
      (kept : ending ≠ .exhausted) :
      Explores policy alarm (frames + 1) depth run ending after
  | bothBack {frames depth : Nat} {run middle after : Run σ} {literal : Literal} {memory : σ}
      {next restored other last : SearchState}
      (decides : Decides policy alarm run literal memory) (made : Makes literal run.state next)
      (first : Explores policy alarm frames (depth + 1)
        ((run.noteLook.noteProposal memory (depth + 1)).entered literal.choice (depth + 1) next)
        .exhausted middle)
      (undone : restored.Restores run.state middle.state)
      (madeOpposite : Makes literal.negated restored other)
      (second : Explores policy alarm frames (depth + 1)
        ((middle.leftAgain literal.choice (depth + 1) restored).entered literal.negated.choice
          (depth + 1) other)
        .exhausted after)
      (undoneAgain : last.Restores restored after.state) :
      Explores policy alarm (frames + 1) depth run .exhausted
        (after.leftAgain literal.negated.choice (depth + 1) last)

/-- A search that is such a tree, and ends in a coherent state below the one it was
entered in. -/
structure Explored (policy : Policy σ) (alarm : Alarm) (frames depth : Nat) (run : Run σ)
    (ended : Ending × Run σ) : Prop where
  explores : Explores policy alarm frames depth run ended.1 ended.2
  coherent : ended.2.state.Coherent
  descends : Descends run.state ended.2.state

/-! ## Undoing a subtree -/

theorem retreat_of_ne {mark : Checkpoint} {ended : Ending × Run σ} (kept : ended.1 ≠ .exhausted) :
    retreat mark ended = ended := by
  unfold retreat
  split
  · exact absurd rfl kept
  · rfl

theorem retreat_exhausted {mark : Checkpoint} {run : Run σ} {restored : SearchState}
    (undone : run.state.backtrack mark = .ok restored) :
    retreat mark (.exhausted, run) = (.exhausted, { run with state := restored }) := by
  simp only [retreat, undone]

theorem propagate_eq {below : Run σ → Ending × Run σ} {depth : Nat} {literal : Literal}
    {run : Run σ} {next : SearchState} {impact : Impact}
    (assigned : run.state.assign literal = .ok (next, impact)) :
    propagate below depth literal run =
      retreat run.state.checkpoint (below (run.notePropagation literal depth next impact)) := by
  rw [propagate, assigned]

theorem attempt_eq {below : Run σ → Ending × Run σ} {depth : Nat} {literal : Literal}
    {run : Run σ} {next : SearchState} {impact : Impact}
    (inRange : literal.var ≤ Literal.maxVar)
    (assigned : run.state.assign literal = .ok (next, impact)) :
    attempt below depth literal.choice run =
      match retreat run.state.checkpoint (below (run.entered literal.choice depth next)) with
      | (.exhausted, after) => (.exhausted, after.noteBacktrack literal.choice depth)
      | ended => ended := by
  have isLiteral : Literal.ofVar? literal.choice.var literal.choice.value = some literal :=
    dif_pos ⟨literal.var_pos, inRange⟩
  have sameState : (run.noteDecision literal.choice depth).state = run.state := rfl
  unfold attempt
  simp only [isLiteral, sameState, assigned]
  rfl

theorem branch_of_ne {below : Run σ → Ending × Run σ} {depth : Nat} {choice : Choice}
    {run after : Run σ} {ending : Ending} (kept : ending ≠ .exhausted)
    (tried : attempt below depth choice run = (ending, after)) :
    branch below depth choice run = (ending, after) := by
  rw [branch, tried]
  split
  · next same => exact absurd (congrArg Prod.fst same) kept
  · rfl

theorem branch_of_exhausted {below : Run σ → Ending × Run σ} {depth : Nat} {choice : Choice}
    {run after : Run σ} (tried : attempt below depth choice run = (.exhausted, after)) :
    branch below depth choice run = attempt below depth choice.opposite after := by
  rw [branch, tried]

/-! ## One node -/

section Node

variable {policy : Policy σ} {alarm : Alarm} {frames depth : Nat} {run : Run σ}
  {literal : Literal}

theorem explored_propagate (forces : Forces alarm run literal) (coherent : run.state.Coherent)
    (below : ∀ other : Run σ, other.state.Coherent →
      Explored policy alarm frames depth other (explore policy alarm frames depth other)) :
    Explored policy alarm (frames + 1) depth run
      (propagate (explore policy alarm frames depth) depth literal run.noteLook) := by
  obtain ⟨next, impact, assigned, made⟩ := exists_assign literal coherent
  have propagated : propagate (explore policy alarm frames depth) depth literal run.noteLook =
      retreat run.state.checkpoint (explore policy alarm frames depth
        (run.noteLook.notePropagation literal depth next impact)) :=
    propagate_eq assigned
  obtain ⟨explores, afterCoherent, fromNext⟩ :=
    below (run.noteLook.notePropagation literal depth next impact) made.coherent
  have descends := made.descends.trans fromNext
  rw [propagated]
  generalize explore policy alarm frames depth _ = ended at explores afterCoherent descends ⊢
  obtain ⟨ending, after⟩ := ended
  by_cases exhausted : ending = .exhausted
  · subst exhausted
    obtain ⟨restored, undone, restores⟩ := descends.exists_backtrack afterCoherent
    have retreated : retreat run.state.checkpoint (.exhausted, after) =
        (.exhausted, { after with state := restored }) := retreat_exhausted undone
    rw [retreated]
    exact ⟨.forcedBack forces made explores restores, restores.coherent, restores.descends⟩
  · rw [retreat_of_ne exhausted]
    exact ⟨.forced forces made explores exhausted, afterCoherent, descends⟩

/-- Trying a value either ends as the subtree below it does, or takes it back. -/
theorem attempt_cases (run : Run σ) (literal : Literal) (inRange : literal.var ≤ Literal.maxVar)
    (coherent : run.state.Coherent)
    (below : ∀ other : Run σ, other.state.Coherent →
      Explored policy alarm frames depth other (explore policy alarm frames depth other)) :
    ∃ next ending after, Makes literal run.state next ∧
      Explored policy alarm frames depth (run.entered literal.choice depth next)
        (ending, after) ∧
      ((ending ≠ .exhausted ∧
          attempt (explore policy alarm frames depth) depth literal.choice run =
            (ending, after)) ∨
        (ending = .exhausted ∧ ∃ restored, restored.Restores run.state after.state ∧
          attempt (explore policy alarm frames depth) depth literal.choice run =
            (.exhausted, after.leftAgain literal.choice depth restored))) := by
  obtain ⟨next, impact, assigned, made⟩ := exists_assign literal coherent
  have explored := below (run.entered literal.choice depth next) made.coherent
  have attempted : attempt (explore policy alarm frames depth) depth literal.choice run = _ :=
    attempt_eq inRange assigned
  have descends := made.descends.trans explored.descends
  generalize explore policy alarm frames depth _ = ended at explored attempted descends
  obtain ⟨ending, after⟩ := ended
  refine ⟨next, ending, after, made, explored, ?_⟩
  by_cases exhausted : ending = .exhausted
  · subst exhausted
    obtain ⟨restored, undone, restores⟩ := descends.exists_backtrack explored.coherent
    rw [retreat_exhausted undone] at attempted
    exact .inr ⟨rfl, restored, restores, attempted⟩
  · rw [retreat_of_ne exhausted] at attempted
    refine .inl ⟨exhausted, ?_⟩
    rw [attempted]
    split
    · next same => exact absurd (congrArg Prod.fst same) exhausted
    · rfl

theorem explored_branch {memory : σ} (decides : Decides policy alarm run literal memory)
    (coherent : run.state.Coherent)
    (below : ∀ other : Run σ, other.state.Coherent →
      Explored policy alarm frames (depth + 1) other
        (explore policy alarm frames (depth + 1) other)) :
    Explored policy alarm (frames + 1) depth run
      (branch (explore policy alarm frames (depth + 1)) (depth + 1) literal.choice
        (run.noteLook.noteProposal memory (depth + 1))) := by
  obtain ⟨next, ending, middle, made, first, tried⟩ :=
    attempt_cases (run.noteLook.noteProposal memory (depth + 1)) literal
      decides.inRange coherent below
  have descends := made.descends.trans first.descends
  rcases tried with ⟨kept, attempted⟩ | ⟨rfl, restored, restores, attempted⟩
  · rw [branch_of_ne kept attempted]
    exact ⟨.decided decides made first.explores kept, first.coherent, descends⟩
  · obtain ⟨other, ending, after, madeOpposite, second, triedAgain⟩ :=
      attempt_cases (middle.leftAgain literal.choice (depth + 1) restored) literal.negated
        decides.inRange restores.coherent below
    have fromRestored := madeOpposite.descends.trans second.descends
    have opposite : literal.choice.opposite = literal.negated.choice := rfl
    rw [branch_of_exhausted attempted, opposite]
    rcases triedAgain with ⟨kept, attempted⟩ | ⟨rfl, last, again, attempted⟩ <;> rw [attempted]
    · exact ⟨.decidedSecond decides made first.explores restores madeOpposite second.explores kept,
        second.coherent, restores.descends.trans fromRestored⟩
    · exact ⟨.bothBack decides made first.explores restores madeOpposite second.explores again,
        again.coherent, restores.descends.trans again.descends⟩

/-- A node that asks the policy does what it is told. -/
theorem explored_ask (asks : Asks alarm run) (coherent : run.state.Coherent)
    (below : ∀ other : Run σ, other.state.Coherent →
      Explored policy alarm frames (depth + 1) other
        (explore policy alarm frames (depth + 1) other)) :
    Explored policy alarm (frames + 1) depth run
      (match policy.propose run.state.remaining run.memory with
        | .error fault => faulted fault run.noteLook
        | .ok (none, memory) =>
          (.stopped .noCandidate, { run.noteLook with memory := memory })
        | .ok (some choice, memory) =>
          branch (explore policy alarm frames (depth + 1)) (depth + 1) choice
            (run.noteLook.noteProposal memory (depth + 1))) := by
  cases answer : policy.propose run.state.remaining run.memory with
  | error fault => exact ⟨.policyFault asks answer, coherent, .refl _⟩
  | ok told =>
      obtain ⟨choice, memory⟩ := told
      cases choice with
      | none => exact ⟨.noCandidate asks answer, coherent, .refl _⟩
      | some choice =>
          by_cases inRange : 0 < choice.var ∧ choice.var ≤ Literal.maxVar
          · have decides : Decides policy alarm run ⟨choice.var, choice.value, inRange.1⟩ memory :=
              ⟨asks, answer, inRange.2⟩
            exact explored_branch decides coherent below
          · have refused : attempt (explore policy alarm frames (depth + 1)) (depth + 1) choice
                (run.noteLook.noteProposal memory (depth + 1)) =
                  (.stopped (.fault (.notAVariable choice.var)),
                    (run.noteLook.noteProposal memory (depth + 1)).noteDecision choice
                      (depth + 1)) := by
              simp only [attempt, Literal.ofVar?_of_not_inRange choice.value inRange]
              rfl
            have kept : Ending.stopped (.fault (.notAVariable choice.var)) ≠ .exhausted := nofun
            simp only [branch_of_ne kept refused]
            exact ⟨.notAVariable asks answer inRange, coherent, .refl _⟩

end Node

/-! ## Whole searches -/

/-- From a coherent state every search is a tree of nodes. -/
theorem explored_explore (policy : Policy σ) (alarm : Alarm) (frames depth : Nat) (run : Run σ)
    (coherent : run.state.Coherent) :
    Explored policy alarm frames depth run (explore policy alarm frames depth run) := by
  induction frames generalizing depth run with
  | zero => exact ⟨.nestingLimit, coherent, .refl _⟩
  | succ frames ih =>
      have isSolved : run.noteLook.state.isSolved = true ↔ run.state.liveClauses = [] :=
        isSolved_iff coherent
      have isEmpty : run.noteLook.state.hasEmptyClause = true ↔ [] ∈ run.state.liveClauses :=
        hasEmptyClause_iff coherent
      rw [explore]
      by_cases timeUp : alarm run.looks = true
      · rw [if_pos timeUp]
        exact ⟨.deadline timeUp, coherent, .refl _⟩
      rw [if_neg timeUp]
      have inTime := Bool.eq_false_iff.mpr timeUp
      by_cases solved : run.state.liveClauses = []
      · rw [if_pos (isSolved.mpr solved)]
        exact ⟨.satisfied inTime solved, coherent, .refl _⟩
      rw [if_neg fun solves => solved (isSolved.mp solves)]
      by_cases empty : [] ∈ run.state.liveClauses
      · rw [if_pos (isEmpty.mpr empty)]
        exact ⟨.conflict inTime empty, coherent, .refl _⟩
      rw [if_neg fun empties => empty (isEmpty.mp empties)]
      have goesOn : GoesOn alarm run := ⟨inTime, solved, empty⟩
      cases unit : run.noteLook.state.firstUnit with
      | some literal => exact explored_propagate ⟨goesOn, unit⟩ coherent (ih depth)
      | none => exact explored_ask ⟨goesOn, unit⟩ coherent (ih (depth + 1))

/-- An exhausted search leaves the state as it was found, but for the room. -/
theorem Explores.restored {policy : Policy σ} {alarm : Alarm} {frames depth : Nat}
    {run after : Run σ} (explores : Explores policy alarm frames depth run .exhausted after) :
    after.state.contents = run.state.contents ∧ after.state.trail = run.state.trail ∧
      after.state.numVars = run.state.numVars := by
  cases explores with
  | conflict => exact ⟨rfl, rfl, rfl⟩
  | forced _ _ _ kept => exact absurd rfl kept
  | forcedBack _ _ _ undone => exact ⟨undone.contents_eq, undone.trail_eq, undone.numVars_eq⟩
  | decided _ _ _ kept => exact absurd rfl kept
  | decidedSecond _ _ _ _ _ _ kept => exact absurd rfl kept
  | bothBack _ _ _ undone _ _ again =>
      exact ⟨again.contents_eq.trans undone.contents_eq, again.trail_eq.trans undone.trail_eq,
        again.numVars_eq.trans undone.numVars_eq⟩

/-! ## More nesting -/

/-- A search was given up because too many nodes were nested. -/
def Ending.tooDeep : Ending := .stopped (.fault .nestingLimit)

section Nesting

variable {below wider : Run σ → Ending × Run σ} {depth : Nat}

theorem retreat_congr {mark : Checkpoint} {run : Run σ}
    (agree : ∀ run, (below run).1 ≠ .tooDeep → wider run = below run)
    (inside : (retreat mark (below run)).1 ≠ .tooDeep) :
    retreat mark (wider run) = retreat mark (below run) := by
  rw [agree run]
  intro deep
  rw [retreat_of_ne (by rw [deep]; nofun)] at inside
  exact inside deep

theorem propagate_congr {literal : Literal} {run : Run σ}
    (agree : ∀ run, (below run).1 ≠ .tooDeep → wider run = below run)
    (inside : (propagate below depth literal run).1 ≠ .tooDeep) :
    propagate wider depth literal run = propagate below depth literal run := by
  unfold propagate at inside ⊢
  split at inside
  · rfl
  · exact retreat_congr agree inside

theorem attempt_congr {choice : Choice} {run : Run σ}
    (agree : ∀ run, (below run).1 ≠ .tooDeep → wider run = below run)
    (inside : (attempt below depth choice run).1 ≠ .tooDeep) :
    attempt wider depth choice run = attempt below depth choice run := by
  unfold attempt at inside ⊢
  dsimp only at inside ⊢
  split at inside
  · rfl
  · split at inside
    · rfl
    · rw [retreat_congr agree]
      intro deep
      apply inside
      split
      · next same => rw [same] at deep; cases deep
      · exact deep

theorem branch_congr {choice : Choice} {run : Run σ}
    (agree : ∀ run, (below run).1 ≠ .tooDeep → wider run = below run)
    (inside : (branch below depth choice run).1 ≠ .tooDeep) :
    branch wider depth choice run = branch below depth choice run := by
  unfold branch at inside ⊢
  have first : attempt wider depth choice run = attempt below depth choice run := by
    apply attempt_congr agree
    intro deep
    apply inside
    split
    · next same => rw [same] at deep; cases deep
    · exact deep
  rw [first]
  split at inside
  · exact attempt_congr agree inside
  · rfl

end Nesting

/-- A search that never nested too many nodes does the same if more may be nested. -/
theorem explore_of_le {policy : Policy σ} {alarm : Alarm} {frames more depth : Nat} {run : Run σ}
    (inside : (explore policy alarm frames depth run).1 ≠ .tooDeep) (le : frames ≤ more) :
    explore policy alarm more depth run = explore policy alarm frames depth run := by
  induction frames generalizing more depth run with
  | zero => exact absurd rfl inside
  | succ frames ih =>
      obtain ⟨more, rfl⟩ : ∃ fewer, more = fewer + 1 := ⟨more - 1, by omega⟩
      have agree (depth : Nat) (run : Run σ)
          (inside : (explore policy alarm frames depth run).1 ≠ .tooDeep) :
          explore policy alarm more depth run = explore policy alarm frames depth run :=
        ih inside (Nat.le_of_succ_le_succ le)
      revert inside
      rw [explore, explore]
      split
      · exact fun _ => rfl
      split
      · exact fun _ => rfl
      split
      · exact fun _ => rfl
      split
      · exact propagate_congr (agree depth)
      split
      · exact fun _ => rfl
      · exact fun _ => rfl
      · exact branch_congr (agree (depth + 1))

end ChronoSat.Search
