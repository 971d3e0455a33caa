/-
# What a search leaves behind

A subtree without a model is undone on the way out. A node that meets a conflict has
changed nothing, a unit takes itself back once the chain below it has failed, and a
decision takes back one value before it tries the other. Whichever of these it was, the
state that is left is the state that was entered. A subtree with a model is left as it is,
on top of a trail that begins with the trail there was, so that going back is possible at
any time.

Both are true of the state as a whole and not only of its clauses, because no search makes
room in the assignment. Room is made for variables without a name, and those do not come
up: no change brings a literal into a clause, so units are over registered variables
wherever a search begins, and the policy proposes no others.

Every node that a search visits is covered, since its state can be reached. For the second
value of a decision this rests on the first one having left no trace.
-/

import ChronoSat.Proofs.Search.Soundness
import ChronoSat.Proofs.State.Operation

namespace ChronoSat

variable {σ : Type}

namespace SearchState

/-! ## Room for what is registered -/

/-- A coherent state whose clauses are over so many variables, with room for all of them. -/
structure Roomy (numVars : Nat) (state : SearchState) : Prop where
  coherent : state.Coherent
  isOver : state.remaining.Over numVars
  room : numVars < state.assignment.room

variable {numVars : Nat} {state next : SearchState} {literal : Literal}

theorem Roomy.room_of_makes (roomy : Roomy numVars state) (made : Makes literal state next)
    (registered : literal.var ≤ numVars) :
    next.assignment.room = state.assignment.room := by
  have enough := roomy.room
  rw [made.room_eq]
  omega

theorem Roomy.of_makes (roomy : Roomy numVars state) (made : Makes literal state next)
    (registered : literal.var ≤ numVars) : Roomy numVars next where
  coherent := made.coherent
  isOver := made.over roomy.isOver
  room := roomy.room.trans_eq (roomy.room_of_makes made registered).symm

/-- What is found again below a registered literal is the state, if no room was made there. -/
theorem Roomy.eq_of_restores {restored below : SearchState} (roomy : Roomy numVars state)
    (made : Makes literal state next) (registered : literal.var ≤ numVars)
    (room : below.assignment.room = next.assignment.room)
    (undone : restored.Restores state below) : restored = state :=
  undone.eq_above roomy.coherent (room.trans (roomy.room_of_makes made registered))

/-- Whatever was done, a state has room for the variables of the formula. -/
theorem Reachable.roomy {formula : Cnf} (wellFormed : formula.WellFormed)
    (reachable : Reachable formula state) : Roomy formula.numVars state where
  coherent := reachable.coherent_and_descends.1
  isOver := ⟨reachable.coherent_and_descends.2.1, reachable.registered wellFormed⟩
  room := reachable.numVars_lt_room

end SearchState

namespace Search

open SearchState

variable {policy : Policy σ} {numVars : Nat} {valid : σ → Prop} {alarm : Alarm}
  {frames depth : Nat} {run after : Run σ} {ending : Ending}

/-! ## One subtree -/

theorem Decides.registered_and_valid (registers : policy.ProposesRegistered numVars valid)
    {literal : Literal} {memory : σ} (decides : Decides policy alarm run literal memory)
    (isOver : run.state.remaining.Over numVars) (starts : valid run.memory) :
    literal.var ≤ numVars ∧ valid memory :=
  ⟨(registers.registered isOver starts decides.proposed).2,
    registers.keeps isOver starts decides.proposed⟩

/-- No search makes room. -/
theorem Explores.room_eq (registers : policy.ProposesRegistered numVars valid)
    (explores : Explores policy alarm frames depth run ending after)
    (roomy : Roomy numVars run.state) (starts : valid run.memory) :
    after.state.assignment.room = run.state.assignment.room := by
  induction explores with
  | nestingLimit | deadline | satisfied | conflict | policyFault | noCandidate
  | notAVariable => rfl
  | forced forces made _ _ ih =>
      have registered := roomy.isOver.le_of_mem_vars forces.occurs
      have room := ih (roomy.of_makes made registered) starts
      exact room.trans (roomy.room_of_makes made registered)
  | forcedBack forces made _ undone ih =>
      have registered := roomy.isOver.le_of_mem_vars forces.occurs
      have room := ih (roomy.of_makes made registered) starts
      exact undone.room_eq.trans (room.trans (roomy.room_of_makes made registered))
  | decided decides made _ _ ih =>
      obtain ⟨registered, told⟩ := decides.registered_and_valid registers roomy.isOver starts
      have room := ih (roomy.of_makes made registered) told
      exact room.trans (roomy.room_of_makes made registered)
  | decidedSecond decides made first undone madeOpposite _ _ firstIh secondIh =>
      obtain ⟨registered, told⟩ := decides.registered_and_valid registers roomy.isOver starts
      have room := firstIh (roomy.of_makes made registered) told
      have still := first.valid_memory registers (made.over roomy.isOver) told
      -- The first value has left the state itself, so the second one begins where it did.
      cases roomy.eq_of_restores made registered room undone
      have roomAgain := secondIh (roomy.of_makes madeOpposite registered) still
      exact roomAgain.trans (roomy.room_of_makes madeOpposite registered)
  | bothBack decides made first undone madeOpposite _ undoneAgain firstIh secondIh =>
      obtain ⟨registered, told⟩ := decides.registered_and_valid registers roomy.isOver starts
      have room := firstIh (roomy.of_makes made registered) told
      have still := first.valid_memory registers (made.over roomy.isOver) told
      cases roomy.eq_of_restores made registered room undone
      have roomAgain := secondIh (roomy.of_makes madeOpposite registered) still
      exact undoneAgain.room_eq.trans
        (roomAgain.trans (roomy.room_of_makes madeOpposite registered))

theorem Explores.liveClauses_eq_nil
    (explores : Explores policy alarm frames depth run ending after)
    (satisfied : ending = .satisfied) : after.state.liveClauses = [] := by
  induction explores with
  | satisfied _ solved => exact solved
  | forced _ _ _ _ ih | decided _ _ _ _ ih => exact ih satisfied
  | decidedSecond _ _ _ _ _ _ _ _ ih => exact ih satisfied
  | nestingLimit | deadline | conflict | forcedBack | policyFault | noCandidate | notAVariable
  | bothBack => cases satisfied

/-- What a search that was begun in a state leaves of it. -/
structure LeavesNoTrace (run : Run σ) (ended : Ending × Run σ) : Prop where
  exhausted : ended.1 = .exhausted → ended.2.state = run.state
  satisfied : ended.1 = .satisfied → ended.2.state.liveClauses = []
  /-- However the search ended, what was recorded before it is on record. -/
  trail_prefix : run.state.trail.toList <+: ended.2.state.trail.toList
  /-- However the search ended, the state can be found again. -/
  backtrack_eq : ended.2.state.backtrack run.state.checkpoint = .ok run.state

theorem leavesNoTrace_of_roomy (registers : policy.ProposesRegistered numVars valid)
    (alarm : Alarm) (frames depth : Nat) (roomy : Roomy numVars run.state)
    (starts : valid run.memory) :
    LeavesNoTrace run (explore policy alarm frames depth run) := by
  obtain ⟨explores, coherent, descends⟩ :=
    explored_explore policy alarm frames depth run roomy.coherent
  generalize explore policy alarm frames depth run = ended at explores coherent descends
  obtain ⟨ending, after⟩ := ended
  have room := explores.room_eq registers roomy starts
  refine ⟨?_, explores.liveClauses_eq_nil, ?_, ?_⟩
  · rintro rfl
    obtain ⟨contents, trail, sameVars⟩ := explores.restored
    exact eq_of_contents_eq coherent roomy.coherent contents trail sameVars room
  · obtain ⟨_, steps, trail, _⟩ := descends
    refine ⟨steps.reverse, ?_⟩
    rw [Trail.toList, Trail.toList, trail, List.reverse_append]
  · obtain ⟨restored, undone, restores⟩ := descends.exists_backtrack coherent
    exact restores.eq_above roomy.coherent room ▸ undone

/-! ## The nodes of a search -/

/-- A node of a search: how many nodes may be nested, how many decisions are open, and what
was done so far. -/
structure Node (σ : Type) where
  frames : Nat
  depth : Nat
  run : Run σ

/-- A node goes on with another one below it: with a unit made true, with the first value of
a decision, or with the second one in what the first one left. -/
inductive Enters (policy : Policy σ) (alarm : Alarm) : Node σ → Node σ → Prop
  | forced {frames depth : Nat} {run : Run σ} {literal : Literal} {next : SearchState}
      {impact : Impact} (forces : Forces alarm run literal)
      (assigned : run.state.assign literal = .ok (next, impact)) :
      Enters policy alarm ⟨frames + 1, depth, run⟩
        ⟨frames, depth, run.noteLook.notePropagation literal depth next impact⟩
  | first {frames depth : Nat} {run : Run σ} {literal : Literal} {memory : σ}
      {next : SearchState} {impact : Impact} (decides : Decides policy alarm run literal memory)
      (assigned : run.state.assign literal = .ok (next, impact)) :
      Enters policy alarm ⟨frames + 1, depth, run⟩
        ⟨frames, depth + 1,
          (run.noteLook.noteProposal memory (depth + 1)).entered literal.choice (depth + 1) next⟩
  | second {frames depth : Nat} {run middle : Run σ} {literal : Literal} {memory : σ}
      {next : SearchState} {impact : Impact} (decides : Decides policy alarm run literal memory)
      (failed : attempt (explore policy alarm frames (depth + 1)) (depth + 1) literal.choice
        (run.noteLook.noteProposal memory (depth + 1)) = (.exhausted, middle))
      (assigned : middle.state.assign literal.negated = .ok (next, impact)) :
      Enters policy alarm ⟨frames + 1, depth, run⟩
        ⟨frames, depth + 1, middle.entered literal.negated.choice (depth + 1) next⟩

/-- The nodes that a search visits which is begun at a node. -/
def Visits (policy : Policy σ) (alarm : Alarm) : Node σ → Node σ → Prop :=
  Relation.ReflTransGen (Enters policy alarm)

/-- A value that was taken back leaves the state as it was. -/
theorem state_eq_of_attempt (registers : policy.ProposesRegistered numVars valid)
    {literal : Literal} {middle : Run σ}
    (failed : attempt (explore policy alarm frames depth) depth literal.choice run =
      (.exhausted, middle))
    (inRange : literal.var ≤ Literal.maxVar) (registered : literal.var ≤ numVars)
    (roomy : Roomy numVars run.state) (starts : valid run.memory) :
    middle.state = run.state ∧ valid middle.memory := by
  obtain ⟨next, ending, after, made, explored, tried⟩ :=
    attempt_cases run literal inRange roomy.coherent fun other coherent =>
      explored_explore policy alarm frames depth other coherent
  have room := explored.explores.room_eq registers (roomy.of_makes made registered) starts
  have kept := explored.explores.valid_memory registers (made.over roomy.isOver) starts
  rw [failed] at tried
  rcases tried with ⟨stays, same⟩ | ⟨_, restored, restores, same⟩
  · exact absurd (congrArg Prod.fst same).symm stays
  · cases congrArg Prod.snd same
    exact ⟨roomy.eq_of_restores made registered room restores, kept⟩

/-- The node below a node of a reached state is one. -/
theorem Enters.reachable {formula : Cnf} (wellFormed : formula.WellFormed)
    (registers : policy.ProposesRegistered formula.numVars valid) {upper lower : Node σ}
    (enters : Enters policy alarm upper lower) (reachable : Reachable formula upper.run.state)
    (starts : valid upper.run.memory) :
    Reachable formula lower.run.state ∧ valid lower.run.memory := by
  have roomy := reachable.roomy wellFormed
  cases enters with
  | forced _ assigned => exact ⟨reachable.assign assigned, starts⟩
  | first decides assigned =>
      exact ⟨reachable.assign assigned, registers.keeps roomy.isOver starts decides.proposed⟩
  | second decides failed assigned =>
      obtain ⟨registered, told⟩ := decides.registered_and_valid registers roomy.isOver starts
      obtain ⟨same, kept⟩ :=
        state_eq_of_attempt registers failed decides.inRange registered roomy told
      rw [same] at assigned
      exact ⟨reachable.assign assigned, kept⟩

theorem Visits.reachable {formula : Cnf} (wellFormed : formula.WellFormed)
    (registers : policy.ProposesRegistered formula.numVars valid) {root node : Node σ}
    (visits : Visits policy alarm root node) (reachable : Reachable formula root.run.state)
    (starts : valid root.run.memory) :
    Reachable formula node.run.state ∧ valid node.run.memory := by
  induction visits with
  | refl => exact ⟨reachable, starts⟩
  | tail _ enters ih => exact enters.reachable wellFormed registers ih.1 ih.2

/-- With a policy that proposes registered variables, a search begun in any state that can
be reached leaves no trace if it is exhausted. If it is satisfied no clause is open, the
trail begins with the trail that there was, and going back to where that ended gives the
state again. The same holds of every node that a search for a model of the formula
visits, at any depth: the state of each can be reached. -/
theorem leavesNoTrace_of_visits {formula : Cnf} (obtained : Obtainable formula)
    (registers : policy.ProposesRegistered formula.numVars valid) (alarm : Alarm) :
    (∀ frames depth run, Reachable formula run.state → valid run.memory →
      LeavesNoTrace run (explore policy alarm frames depth run)) ∧
    ∀ frames memory, valid memory →
      ∀ node, Visits policy alarm ⟨frames, 0, .start formula memory⟩ node →
        Reachable formula node.run.state ∧
          LeavesNoTrace node.run (explore policy alarm node.frames node.depth node.run) := by
  have leaves : ∀ frames depth run, Reachable formula run.state → valid run.memory →
      LeavesNoTrace run (explore policy alarm frames depth run) := by
    intro frames depth run reachable starts
    have roomy := reachable.roomy obtained.wellFormed
    exact leavesNoTrace_of_roomy registers alarm frames depth roomy starts
  refine ⟨leaves, ?_⟩
  intro frames memory starts node visits
  obtain ⟨reachable, kept⟩ := visits.reachable obtained.wellFormed registers .start starts
  exact ⟨reachable, leaves node.frames node.depth node.run reachable kept⟩

/-- Two clauses that only one value of the first variable satisfies. -/
def lopsided : Cnf :=
  .ofNamed [[("a", true), ("b", true)], [("a", true), ("b", false)]]

theorem obtainable_lopsided : Obtainable lopsided :=
  .addClauses [["a", "b"], ["a", "¬b"]] .empty rfl

/-- The value that is tried first fails, and the search is satisfied with the other one. -/
theorem leavesNoTrace_of_visits_lopsided :
    let a : Literal := ⟨1, true, by decide⟩
    let begun : Run (List Choice) := .start lopsided [⟨1, false⟩]
    let ended := explore .scripted .never 4 0 begun
    let next : SearchState :=
      ⟨#[⟨[⟨2, true, by decide⟩], false⟩, ⟨[⟨2, false, by decide⟩], false⟩],
        ⟨[none, some false, some true]⟩,
        ⟨[.struck 1 0 a, .struck 0 0 a, .assigned 1 (some true)]⟩, 2, 2, 0⟩
    let lower := (begun.noteLook.noteProposal [] 1).entered a.negated.choice 1 next
    let endedBelow := explore .scripted .never 3 1 lower
    ended.1 = .satisfied ∧ ended.2.state.backtrack ⟨0⟩ = .ok (ofFormula lopsided) ∧
      Visits .scripted .never ⟨4, 0, begun⟩ ⟨3, 1, lower⟩ ∧
      endedBelow.1 = .exhausted ∧ endedBelow.2.state = next := by
  intro a begun ended next lower endedBelow
  have named : ∀ choice ∈ begun.memory, 0 < choice.var ∧ choice.var ≤ 2 := by decide
  have goesOn : GoesOn .never begun := ⟨rfl, by decide, by decide⟩
  have decides : Decides .scripted .never begun a.negated [] := ⟨⟨goesOn, rfl⟩, rfl, by decide⟩
  have assigned : begun.state.assign a.negated = .ok (next, ⟨0, 2⟩) := rfl
  have visits : Visits .scripted .never ⟨4, 0, begun⟩ ⟨3, 1, lower⟩ :=
    .single (.first decides assigned)
  obtain ⟨leaves, leavesBelow⟩ := leavesNoTrace_of_visits obtainable_lopsided
    (Policy.scripted_proposesRegistered 2) .never
  have whole : LeavesNoTrace begun ended := leaves 4 0 begun .start named
  have part : LeavesNoTrace lower endedBelow := (leavesBelow 4 _ named _ visits).2
  have solved : ended.1 = .satisfied := by decide +kernel
  have failed : endedBelow.1 = .exhausted := by decide +kernel
  exact ⟨solved, whole.backtrack_eq, visits, failed, part.exhausted failed⟩

end Search

/-- A search ends with room for the registered variables and no others. -/
theorem Solver.room_search {solver : Solver σ} {formula : Cnf} {valid : σ → Prop}
    (wellFormed : formula.WellFormed)
    (registers : solver.policy.ProposesRegistered formula.numVars valid)
    (starts : valid solver.memory) (clock : Clock) :
    (solver.search clock formula).2.state.assignment.room = formula.numVars + 1 := by
  have explores := (explored_search solver clock formula).explores
  have roomy := SearchState.Reachable.roomy wellFormed .start
  exact (explores.room_eq registers roomy starts).trans
    (Assignment.room_uniform formula.numVars true)

end ChronoSat
