/-
# The search and the search by value

The search on a working state does what the search by value does, node for node:
the open clauses of the state are the clauses of the formula in the same order,
with the same literals in the same order, and the assignments are equal slot for
slot. Failed subtrees do not disturb this, because the state is found again after
them, and neither do the counters, the memory of the policy, or what it is asked.

The policy may propose any registered variable, also one that has a value or occurs
in no clause. Variables without a name are excluded, since giving one a value makes
room in the assignment that undoing does not take away.
-/

import ChronoSat.Proofs.Search.ByValue
import ChronoSat.Proofs.Search.Soundness

namespace ChronoSat

variable {σ τ : Type}

/-- A policy proposes what another one does, registered variables only, as long as
their memories and the record of queries are related. -/
structure Policy.Tracks (actual : Policy τ) (policy : Policy σ) (numVars : Nat)
    (related : τ → σ → List Query → Prop) : Prop where
  failing : ∀ {remaining : Remaining} {own : τ} {memory : σ} {asked : List Query} {fault : Fault},
    remaining.Over numVars → related own memory asked →
      actual.propose remaining own = .error fault → policy.propose remaining memory = .error fault
  answering : ∀ {remaining : Remaining} {own ownLater : τ} {memory : σ} {asked : List Query}
    {answer : Option Choice}, remaining.Over numVars → related own memory asked →
      actual.propose remaining own = .ok (answer, ownLater) →
        ∃ later, policy.propose remaining memory = .ok (answer, later) ∧
          related ownLater later (⟨remaining, answer⟩ :: asked)
  registered : ∀ {remaining : Remaining} {own ownLater : τ} {memory : σ} {asked : List Query}
    {choice : Choice}, remaining.Over numVars → related own memory asked →
      actual.propose remaining own = .ok (some choice, ownLater) →
        0 < choice.var ∧ choice.var ≤ numVars

namespace Policy.ProposesRegistered

variable {policy : Policy σ} {numVars : Nat} {valid : σ → Prop}

theorem tracks (registers : policy.ProposesRegistered numVars valid) :
    policy.Tracks policy numVars fun own memory _ => own = memory ∧ valid memory where
  failing := by
    rintro remaining own memory asked fault _ ⟨rfl, _⟩ failed
    exact failed
  answering := by
    rintro remaining own ownLater memory asked answer isOver ⟨rfl, isValid⟩ answered
    exact ⟨ownLater, answered, rfl, registers.keeps isOver isValid answered⟩
  registered := by
    rintro remaining own ownLater memory asked choice isOver ⟨rfl, isValid⟩ proposed
    exact registers.registered isOver isValid proposed

/-- The policy that remembers what it was asked proposes the same. -/
theorem tracks_recorded (registers : policy.ProposesRegistered numVars valid) :
    policy.recorded.Tracks policy numVars fun own memory asked =>
      own = (memory, asked) ∧ valid memory where
  failing := by
    rintro remaining _ memory asked fault _ ⟨rfl, _⟩ failed
    rcases Outcomes.bind_eq_error.mp failed with refused | ⟨_, _, ended⟩
    · exact refused
    · cases ended
  answering := by
    rintro remaining _ ownLater memory asked answer isOver ⟨rfl, isValid⟩ answered
    obtain ⟨⟨_, later⟩, told, same⟩ := Outcomes.bind_eq_ok.mp answered
    cases same
    exact ⟨later, told, rfl, registers.keeps isOver isValid told⟩
  registered := by
    rintro remaining _ ownLater memory asked choice isOver ⟨rfl, isValid⟩ answered
    obtain ⟨⟨_, later⟩, told, same⟩ := Outcomes.bind_eq_ok.mp answered
    cases same
    exact registers.registered isOver isValid told

end Policy.ProposesRegistered

namespace Search

open SearchState

/-! ## States and formulas -/

/-- A working state over so many variables holds what a node of the search by value
has. -/
structure Mirrors (numVars : Nat) (state : SearchState) (formula : Cnf) (values : Assignment) :
    Prop where
  liveClauses_eq : state.liveClauses = formula.clauses.map Clause.literals
  size_eq : formula.numVars = numVars
  assignment_eq : state.assignment = values
  room_eq : state.assignment.room = numVars + 1
  isOver : state.remaining.Over numVars
  inRange : numVars ≤ Literal.maxVar

theorem mirrors_ofFormula {formula : Cnf} (obtained : Obtainable formula) :
    Mirrors formula.numVars (ofFormula formula) formula (.uniform formula.numVars true) where
  liveClauses_eq := liveClauses_ofFormula formula
  size_eq := rfl
  assignment_eq := rfl
  room_eq := Assignment.room_uniform formula.numVars true
  isOver := ⟨rfl, registered_ofFormula obtained.wellFormed⟩
  inRange := obtained.numVars_le

namespace Mirrors

variable {numVars : Nat} {state next : SearchState} {formula : Cnf} {values : Assignment}

theorem remaining_eq (mirrors : Mirrors numVars state formula values) :
    state.remaining = formula.remaining := by
  have sameSize : state.numVars = formula.numVars :=
    mirrors.isOver.numVars_eq.trans mirrors.size_eq.symm
  rw [SearchState.remaining, Formula.remaining, mirrors.liveClauses_eq, sameSize]

/-- Giving a registered variable a value makes no room. -/
theorem room_of_makes {literal : Literal} (mirrors : Mirrors numVars state formula values)
    (made : Makes literal state next) (registered : literal.var ≤ numVars) :
    next.assignment.room = state.assignment.room := by
  have room := mirrors.room_eq
  rw [made.room_eq]
  omega

/-- Making a literal true is reducing by it and giving its variable the value. -/
theorem of_makes {literal : Literal} (mirrors : Mirrors numVars state formula values)
    (made : Makes literal state next) (registered : literal.var ≤ numVars) :
    ∃ reduced, formula.reduce literal.choice.alone = .ok reduced ∧
      Mirrors numVars next reduced (values.assign literal.var literal.polarity) := by
  obtain ⟨reduced, applied, registry, clauses⟩ :=
    formula.exists_reduce_alone (registered.trans mirrors.inRange)
  have room := (mirrors.room_of_makes made registered).trans mirrors.room_eq
  refine ⟨reduced, applied, ?_, ?_, ?_, room, made.over mirrors.isOver, mirrors.inRange⟩
  · rw [made.liveClauses_eq, mirrors.liveClauses_eq, clauses]
  · exact (congrArg Registry.size registry).trans mirrors.size_eq
  · have written := Assignment.room_setSlot values literal.var (some literal.polarity)
    apply Assignment.eq_of_value?_eq
    · rw [made.room_eq, mirrors.assignment_eq]
      exact written.symm
    · rw [made.value?_eq, mirrors.assignment_eq, Assignment.value?_assign]

/-- A state that is found again after a subtree is the state, if the subtree made
no room. -/
theorem of_restores {restored below : SearchState} (mirrors : Mirrors numVars state formula values)
    (undone : restored.Restores state below)
    (sameRoom : below.assignment.room = state.assignment.room) :
    Mirrors numVars restored formula values where
  liveClauses_eq := undone.liveClauses_eq.trans mirrors.liveClauses_eq
  size_eq := mirrors.size_eq
  assignment_eq := by
    rw [← mirrors.assignment_eq]
    exact Assignment.eq_of_value?_eq (undone.room_eq.trans sameRoom) undone.value?_eq
  room_eq := by rw [undone.room_eq, sameRoom, mirrors.room_eq]
  isOver := undone.over mirrors.isOver
  inRange := mirrors.inRange

/-! ### What a node tests -/

theorem isEmpty_iff (mirrors : Mirrors numVars state formula values) :
    formula.clauses.isEmpty = true ↔ state.liveClauses = [] := by
  rw [mirrors.liveClauses_eq, List.map_eq_nil_iff, List.isEmpty_iff]

theorem hasEmptyClause_iff (mirrors : Mirrors numVars state formula values) :
    formula.hasEmptyClause = true ↔ [] ∈ state.liveClauses := by
  rw [mirrors.liveClauses_eq, formula.hasEmptyClause_iff]

theorem firstUnit_eq (mirrors : Mirrors numVars state formula values) :
    formula.firstUnit = state.firstUnit := by
  rw [firstUnit_eq_findSome?, mirrors.liveClauses_eq, Formula.firstUnit_eq_findSome?]

theorem goesOn {run : Run τ} {alarm : Alarm} (mirrors : Mirrors numVars run.state formula values)
    (goesOn : GoesOn alarm run) :
    (¬ formula.clauses.isEmpty = true) ∧ ¬ formula.hasEmptyClause = true :=
  ⟨fun solved => goesOn.unsolved (mirrors.isEmpty_iff.mp solved),
    fun empty => goesOn.nonempty (mirrors.hasEmptyClause_iff.mp empty)⟩

end Mirrors

/-! ## One node by value -/

section Node

variable {policy : Policy σ} {frames depth : Nat} {formula reduced : Cnf} {values : Assignment}
  {notes : Notes σ} {literal : Literal}

theorem byValue_forced (unsolved : ¬ formula.clauses.isEmpty = true)
    (nonempty : ¬ formula.hasEmptyClause = true) (unit : formula.firstUnit = some literal)
    (applied : formula.reduce literal.choice.alone = .ok reduced) :
    byValue policy (frames + 1) depth formula values notes =
      byValue policy frames depth reduced (values.assign literal.var literal.polarity)
        (notes.count fun stats => { stats with propagations := stats.propagations + 1 }) := by
  rw [byValue, if_neg unsolved, if_neg nonempty, unit]
  simp only [applied]

theorem byValue_fault {fault : Fault} (unsolved : ¬ formula.clauses.isEmpty = true)
    (nonempty : ¬ formula.hasEmptyClause = true) (noUnit : formula.firstUnit = none)
    (failed : policy.propose formula.remaining notes.memory = .error fault) :
    byValue policy (frames + 1) depth formula values notes = (.error (.fault fault), notes) := by
  rw [byValue, if_neg unsolved, if_neg nonempty, noUnit]
  simp only [failed]

theorem byValue_silent {memory : σ} (unsolved : ¬ formula.clauses.isEmpty = true)
    (nonempty : ¬ formula.hasEmptyClause = true) (noUnit : formula.firstUnit = none)
    (silent : policy.propose formula.remaining notes.memory = .ok (none, memory)) :
    byValue policy (frames + 1) depth formula values notes =
      (.error (.error .noCandidate), notes.ask ⟨formula.remaining, none⟩ memory) := by
  rw [byValue, if_neg unsolved, if_neg nonempty, noUnit]
  simp only [silent]

theorem byValue_decided {memory : σ} {choice : Choice}
    (unsolved : ¬ formula.clauses.isEmpty = true) (nonempty : ¬ formula.hasEmptyClause = true)
    (noUnit : formula.firstUnit = none)
    (proposed : policy.propose formula.remaining notes.memory = .ok (some choice, memory)) :
    byValue policy (frames + 1) depth formula values notes =
      branchByValue (byValue policy frames (depth + 1)) formula values choice
        ((notes.ask ⟨formula.remaining, some choice⟩ memory).count fun stats =>
          { stats with maxDepth := max stats.maxDepth (depth + 1) }) := by
  rw [byValue, if_neg unsolved, if_neg nonempty, noUnit]
  simp only [proposed]

variable {below : Cnf → Assignment → Notes σ → Except Failure (Option Assignment) × Notes σ}
  {answer : Except Failure (Option Assignment)} {after : Notes σ} {choice : Choice}

theorem tryByValue_kept (applied : formula.reduce choice.alone = .ok reduced)
    (ended : below reduced (values.assign choice.var choice.value)
      (notes.count fun stats => { stats with decisions := stats.decisions + 1 }) =
        (answer, after))
    (kept : answer ≠ .ok none) :
    tryByValue below formula values choice notes = (answer, after) := by
  unfold tryByValue
  simp only [applied, ended]
  split
  · next same => exact absurd (congrArg Prod.fst same) kept
  · rfl

theorem tryByValue_back (applied : formula.reduce choice.alone = .ok reduced)
    (ended : below reduced (values.assign choice.var choice.value)
      (notes.count fun stats => { stats with decisions := stats.decisions + 1 }) =
        (.ok none, after)) :
    tryByValue below formula values choice notes =
      (.ok none,
        after.count fun stats => { stats with backtracks := stats.backtracks + 1 }) := by
  unfold tryByValue
  simp only [applied, ended]

theorem branchByValue_kept (tried : tryByValue below formula values choice notes = (answer, after))
    (kept : answer ≠ .ok none) :
    branchByValue below formula values choice notes = (answer, after) := by
  unfold branchByValue
  simp only [tried]
  split
  · next same => exact absurd (congrArg Prod.fst same) kept
  · rfl

theorem branchByValue_back
    (tried : tryByValue below formula values choice notes = (.ok none, after)) :
    branchByValue below formula values choice notes =
      tryByValue below formula values choice.opposite after := by
  unfold branchByValue
  simp only [tried]

end Node

/-! ## Whole searches -/

/-- What the two searches have in common besides states and formulas. -/
structure Agrees (related : τ → σ → List Query → Prop) (run : Run τ) (notes : Notes σ) : Prop where
  memories : related run.memory notes.memory notes.asked
  stats_eq : run.stats = notes.stats

theorem answerOf_ne_none {run : Run τ} {ending : Ending} (kept : ending ≠ .exhausted) :
    Solver.answerOf none run ending ≠ .ok none := by
  cases ending with
  | satisfied => nofun
  | exhausted => exact absurd rfl kept
  | stopped cause => cases cause <;> nofun

namespace Agrees

variable {related : τ → σ → List Query → Prop} {run : Run τ} {notes : Notes σ}

theorem proposed {own : τ} {memory : σ} {query : Query}
    (agrees : Agrees related run notes) (memories : related own memory (query :: notes.asked))
    (depth : Nat) :
    Agrees related (run.noteLook.noteProposal own depth)
      ((notes.ask query memory).count fun stats =>
        { stats with maxDepth := max stats.maxDepth depth }) where
  memories := memories
  stats_eq := congrArg (fun stats : Stats => { stats with maxDepth := max stats.maxDepth depth })
    agrees.stats_eq

theorem entered (agrees : Agrees related run notes) (choice : Choice) (depth : Nat)
    (next : SearchState) :
    Agrees related (run.entered choice depth next)
      (notes.count fun stats => { stats with decisions := stats.decisions + 1 }) where
  memories := agrees.memories
  stats_eq := congrArg (fun stats : Stats => { stats with decisions := stats.decisions + 1 })
    agrees.stats_eq

theorem leftAgain (agrees : Agrees related run notes) (choice : Choice) (depth : Nat)
    (restored : SearchState) :
    Agrees related (run.leftAgain choice depth restored)
      (notes.count fun stats => { stats with backtracks := stats.backtracks + 1 }) where
  memories := agrees.memories
  stats_eq := congrArg (fun stats : Stats => { stats with backtracks := stats.backtracks + 1 })
    agrees.stats_eq

theorem propagated (agrees : Agrees related run notes) (literal : Literal) (depth : Nat)
    (next : SearchState) (impact : Impact) :
    Agrees related (run.noteLook.notePropagation literal depth next impact)
      (notes.count fun stats => { stats with propagations := stats.propagations + 1 }) where
  memories := agrees.memories
  stats_eq := congrArg (fun stats : Stats => { stats with propagations := stats.propagations + 1 })
    agrees.stats_eq

end Agrees

/-- The search by value, begun at what a run mirrors, ends as the run does. -/
def Simulated (policy : Policy σ) (numVars : Nat) (related : τ → σ → List Query → Prop)
    (frames depth : Nat) (run : Run τ) (ending : Ending) (after : Run τ) : Prop :=
  ∀ {formula : Cnf} {values : Assignment} {notes : Notes σ},
    Mirrors numVars run.state formula values → Agrees related run notes →
      ∃ last, byValue policy frames depth formula values notes =
          (Solver.answerOf none after ending, last) ∧
        Agrees related after last ∧ after.state.assignment.room = run.state.assignment.room

section Subtree

variable {actual : Policy τ} {policy : Policy σ} {related : τ → σ → List Query → Prop}
  {numVars frames depth : Nat} {run after : Run τ} {ending : Ending} {formula : Cnf}
  {values : Assignment} {notes : Notes σ} {literal : Literal} {next restored : SearchState}

/-- A value whose subtree does not fail ends as the subtree does. -/
theorem exists_tryByValue_kept
    (below : Simulated policy numVars related frames depth
      (run.entered literal.choice depth next) ending after)
    (mirrors : Mirrors numVars run.state formula values) (agrees : Agrees related run notes)
    (made : Makes literal run.state next) (registered : literal.var ≤ numVars)
    (kept : ending ≠ .exhausted) :
    ∃ last, tryByValue (byValue policy frames depth) formula values literal.choice notes =
        (Solver.answerOf none after ending, last) ∧
      Agrees related after last ∧ after.state.assignment.room = run.state.assignment.room := by
  obtain ⟨reduced, applied, mirrorsNext⟩ := mirrors.of_makes made registered
  obtain ⟨last, ended, agreesLast, room⟩ :=
    below mirrorsNext (agrees.entered literal.choice depth next)
  exact ⟨last, tryByValue_kept applied ended (answerOf_ne_none kept), agreesLast,
    room.trans (mirrors.room_of_makes made registered)⟩

/-- A value whose subtree fails is taken back, and the node is as it was. -/
theorem exists_tryByValue_back
    (below : Simulated policy numVars related frames depth
      (run.entered literal.choice depth next) .exhausted after)
    (mirrors : Mirrors numVars run.state formula values) (agrees : Agrees related run notes)
    (made : Makes literal run.state next) (registered : literal.var ≤ numVars)
    (undone : restored.Restores run.state after.state) :
    ∃ last, tryByValue (byValue policy frames depth) formula values literal.choice notes =
        (.ok none, last) ∧
      Agrees related (after.leftAgain literal.choice depth restored) last ∧
      Mirrors numVars restored formula values := by
  obtain ⟨reduced, applied, mirrorsNext⟩ := mirrors.of_makes made registered
  obtain ⟨last, ended, agreesLast, room⟩ :=
    below mirrorsNext (agrees.entered literal.choice depth next)
  have sameRoom := room.trans (mirrors.room_of_makes made registered)
  exact ⟨_, tryByValue_back applied ended, agreesLast.leftAgain literal.choice depth restored,
    mirrors.of_restores undone sameRoom⟩

/-- Where a unit is forced, the search by value goes below the same literal. -/
theorem exists_byValue_forced (forces : Forces .never run literal)
    (mirrors : Mirrors numVars run.state formula values) (agrees : Agrees related run notes)
    (made : Makes literal run.state next) (impact : Impact) :
    ∃ reduced noted, byValue policy (frames + 1) depth formula values notes =
        byValue policy frames depth reduced (values.assign literal.var literal.polarity) noted ∧
      Mirrors numVars next reduced (values.assign literal.var literal.polarity) ∧
      Agrees related (run.noteLook.notePropagation literal depth next impact) noted ∧
      next.assignment.room = run.state.assignment.room := by
  obtain ⟨unsolved, nonempty⟩ := mirrors.goesOn forces.toGoesOn
  have unit := mirrors.firstUnit_eq.trans forces.unit
  have registered := mirrors.isOver.le_of_mem_vars forces.occurs
  obtain ⟨reduced, applied, mirrorsNext⟩ := mirrors.of_makes made registered
  exact ⟨reduced, _, byValue_forced unsolved nonempty unit applied, mirrorsNext,
    agrees.propagated literal depth next impact, mirrors.room_of_makes made registered⟩

/-- Where the policy decides, it is asked the same and decides the same by value. -/
theorem exists_byValue_decided (tracks : actual.Tracks policy numVars related) {own : τ}
    (decides : Decides actual .never run literal own)
    (mirrors : Mirrors numVars run.state formula values) (agrees : Agrees related run notes) :
    literal.var ≤ numVars ∧ ∃ noted,
      byValue policy (frames + 1) depth formula values notes =
        branchByValue (byValue policy frames (depth + 1)) formula values literal.choice noted ∧
      Agrees related (run.noteLook.noteProposal own (depth + 1)) noted := by
  obtain ⟨unsolved, nonempty⟩ := mirrors.goesOn decides.toGoesOn
  have noUnit := mirrors.firstUnit_eq.trans decides.noUnit
  obtain ⟨later, told, memories⟩ :=
    tracks.answering mirrors.isOver agrees.memories decides.proposed
  rw [mirrors.remaining_eq] at told memories
  exact ⟨(tracks.registered mirrors.isOver agrees.memories decides.proposed).2, _,
    byValue_decided unsolved nonempty noUnit told, agrees.proposed memories (depth + 1)⟩

/-- A search on a working state ends as the search by value does. -/
theorem Explores.simulated (tracks : actual.Tracks policy numVars related)
    (explores : Explores actual .never frames depth run ending after) :
    Simulated policy numVars related frames depth run ending after := by
  induction explores with
  | nestingLimit =>
      intro formula values notes mirrors agrees
      exact ⟨notes, rfl, agrees, rfl⟩
  | deadline timeUp => cases timeUp
  | satisfied _ solved =>
      intro formula values notes mirrors agrees
      refine ⟨notes, ?_, ⟨agrees.memories, agrees.stats_eq⟩, rfl⟩
      rw [byValue, if_pos (mirrors.isEmpty_iff.mpr solved), ← mirrors.assignment_eq]
      rfl
  | conflict _ empty =>
      intro formula values notes mirrors agrees
      have unsolved : ¬ formula.clauses.isEmpty = true := fun solved =>
        List.not_mem_nil (mirrors.isEmpty_iff.mp solved ▸ empty)
      refine ⟨notes.count fun stats => { stats with conflicts := stats.conflicts + 1 }, ?_,
        ⟨agrees.memories, ?_⟩, rfl⟩
      · rw [byValue, if_neg unsolved, if_pos (mirrors.hasEmptyClause_iff.mpr empty)]
        rfl
      · exact congrArg (fun stats : Stats => { stats with conflicts := stats.conflicts + 1 })
          agrees.stats_eq
  | @forced _ _ _ _ _ _ impact _ forces made _ _ ih =>
      intro formula values notes mirrors agrees
      obtain ⟨reduced, noted, descends, mirrorsNext, agreesNext, sameRoom⟩ :=
        exists_byValue_forced forces mirrors agrees made impact
      obtain ⟨last, ended, agreesLast, room⟩ := ih mirrorsNext agreesNext
      exact ⟨last, descends.trans ended, agreesLast, room.trans sameRoom⟩
  | @forcedBack _ _ _ _ _ _ _ impact forces made _ undone ih =>
      intro formula values notes mirrors agrees
      obtain ⟨reduced, noted, descends, mirrorsNext, agreesNext, sameRoom⟩ :=
        exists_byValue_forced forces mirrors agrees made impact
      obtain ⟨last, ended, agreesLast, room⟩ := ih mirrorsNext agreesNext
      exact ⟨last, descends.trans ended, ⟨agreesLast.memories, agreesLast.stats_eq⟩,
        undone.room_eq.trans (room.trans sameRoom)⟩
  | policyFault asks failed =>
      intro formula values notes mirrors agrees
      obtain ⟨unsolved, nonempty⟩ := mirrors.goesOn asks.toGoesOn
      have noUnit := mirrors.firstUnit_eq.trans asks.noUnit
      have told := tracks.failing mirrors.isOver agrees.memories failed
      rw [mirrors.remaining_eq] at told
      exact ⟨notes, byValue_fault unsolved nonempty noUnit told,
        ⟨agrees.memories, agrees.stats_eq⟩, rfl⟩
  | noCandidate asks silent =>
      intro formula values notes mirrors agrees
      obtain ⟨unsolved, nonempty⟩ := mirrors.goesOn asks.toGoesOn
      have noUnit := mirrors.firstUnit_eq.trans asks.noUnit
      obtain ⟨later, told, memories⟩ :=
        tracks.answering mirrors.isOver agrees.memories silent
      rw [mirrors.remaining_eq] at told memories
      exact ⟨_, byValue_silent unsolved nonempty noUnit told, ⟨memories, agrees.stats_eq⟩, rfl⟩
  | notAVariable asks proposed outside =>
      intro formula values notes mirrors agrees
      obtain ⟨positive, le⟩ := tracks.registered mirrors.isOver agrees.memories proposed
      exact absurd ⟨positive, le.trans mirrors.inRange⟩ outside
  | decided decides made _ kept ih =>
      intro formula values notes mirrors agrees
      obtain ⟨registered, noted, branches, agreesNoted⟩ :=
        exists_byValue_decided tracks decides mirrors agrees
      obtain ⟨last, tried, agreesLast, room⟩ :=
        exists_tryByValue_kept ih mirrors agreesNoted made registered kept
      refine ⟨last, branches.trans ?_, agreesLast, room⟩
      exact branchByValue_kept tried (answerOf_ne_none kept)
  | decidedSecond decides made _ undone madeOpposite _ kept firstIh secondIh =>
      intro formula values notes mirrors agrees
      obtain ⟨registered, noted, branches, agreesNoted⟩ :=
        exists_byValue_decided tracks decides mirrors agrees
      obtain ⟨between, failed, agreesBetween, mirrorsAgain⟩ :=
        exists_tryByValue_back firstIh mirrors agreesNoted made registered undone
      obtain ⟨last, tried, agreesLast, room⟩ :=
        exists_tryByValue_kept secondIh mirrorsAgain agreesBetween madeOpposite
          registered kept
      have sameRoom := mirrorsAgain.room_eq.trans mirrors.room_eq.symm
      refine ⟨last, branches.trans ?_, agreesLast, room.trans sameRoom⟩
      exact (branchByValue_back failed).trans tried
  | bothBack decides made _ undone madeOpposite _ undoneAgain firstIh secondIh =>
      intro formula values notes mirrors agrees
      obtain ⟨registered, noted, branches, agreesNoted⟩ :=
        exists_byValue_decided tracks decides mirrors agrees
      obtain ⟨between, failed, agreesBetween, mirrorsAgain⟩ :=
        exists_tryByValue_back firstIh mirrors agreesNoted made registered undone
      obtain ⟨last, failedAgain, agreesLast, mirrorsLast⟩ :=
        exists_tryByValue_back secondIh mirrorsAgain agreesBetween madeOpposite
          registered undoneAgain
      have sameRoom := mirrorsLast.room_eq.trans mirrors.room_eq.symm
      refine ⟨last, branches.trans ?_, agreesLast, sameRoom⟩
      exact (branchByValue_back failed).trans failedAgain

end Subtree

end Search

/-! ## Solvers -/

/-- A solver does on a formula what was done by value, by whatever clock: it gives the answer
with the counters and is left with the memory, and so is the solver that in addition
remembers its queries, which are those that were asked. -/
structure Solver.SearchesAs (solver : Solver σ) (formula : Cnf)
    (reference : Except Failure (Option Assignment) × Search.Notes σ) : Prop where
  answer_eq : ∀ clock, (solver.solve clock formula).1.answer = reference.1
  stats_eq : ∀ clock, (solver.solve clock formula).1.stats = reference.2.stats
  memory_eq : ∀ clock, (solver.solve clock formula).2.memory = reference.2.memory
  recorded_answer_eq : ∀ clock, (solver.recorded.solve clock formula).1.answer = reference.1
  recorded_stats_eq : ∀ clock, (solver.recorded.solve clock formula).1.stats = reference.2.stats
  recorded_memory_eq : ∀ clock, (solver.recorded.solve clock formula).2.memory =
    (reference.2.memory, reference.2.asked)

namespace Solver

variable {formula : Cnf} {policy : Policy σ} {valid : σ → Prop} {memory : σ} {frames : Nat}

theorem answerOf_eq_nestingLimit {run : Search.Run σ} {ending : Search.Ending} :
    answerOf none run ending = .error (.fault .nestingLimit) ↔ ending = .tooDeep := by
  constructor
  · intro limit
    cases ending with
    | satisfied | exhausted => cases limit
    | stopped cause =>
        cases cause with
        | deadline | noCandidate => cases limit
        | fault fault =>
            cases limit
            rfl
  · rintro rfl
    rfl

/-- A policy that tracks another one searches as the other one does by value. -/
theorem searchByValue_of_tracks {actual : Policy τ} {related : τ → σ → List Query → Prop}
    (obtained : Obtainable formula) (tracks : actual.Tracks policy formula.numVars related)
    {own : τ} (begins : related own memory []) (frames : Nat) :
    let ended := Search.explore actual .never frames 0 (.start formula own)
    let reference := formula.searchByValue policy memory frames
    answerOf none ended.2 ended.1 = reference.1 ∧ Search.Agrees related ended.2 reference.2 := by
  intro ended reference
  have explored := Search.explored_explore actual .never frames 0 (.start formula own)
    (SearchState.coherent_ofFormula formula)
  have agreesFirst : Search.Agrees related (.start formula own) ⟨memory, .zero, []⟩ :=
    ⟨begins, rfl⟩
  obtain ⟨last, same, agrees, _⟩ :=
    explored.explores.simulated tracks (Search.mirrors_ofFormula obtained) agreesFirst
  have reference_eq : reference = (answerOf none ended.2 ended.1, last) := same
  rw [reference_eq]
  exact ⟨rfl, agrees⟩

/-- More nesting changes nothing once a search by value ends. -/
theorem searchByValue_of_le (obtained : Obtainable formula)
    (registers : policy.ProposesRegistered formula.numVars valid) (starts : valid memory)
    {more : Nat}
    (inside : (formula.searchByValue policy memory frames).1 ≠ .error (.fault .nestingLimit))
    (le : frames ≤ more) :
    formula.searchByValue policy memory more = formula.searchByValue policy memory frames := by
  have searched := searchByValue_of_tracks obtained registers.tracks_recorded ⟨rfl, starts⟩
  obtain ⟨answer, memories, stats⟩ := searched frames
  obtain ⟨answerMore, memoriesMore, statsMore⟩ := searched more
  rw [← answer, ne_eq, answerOf_eq_nestingLimit] at inside
  rw [Search.explore_of_le inside le] at answerMore memoriesMore statsMore
  obtain ⟨sameMemory, sameAsked⟩ := Prod.mk.inj (memoriesMore.1.symm.trans memories.1)
  exact Prod.ext (answerMore.symm.trans answer)
    (Search.Notes.ext sameMemory (statsMore.symm.trans stats) sameAsked)

/-- Two searches by value that end are the same, whatever the nesting. -/
theorem searchByValue_eq_of_ended (obtained : Obtainable formula)
    (registers : policy.ProposesRegistered formula.numVars valid) (starts : valid memory)
    {other : Nat}
    (inside : (formula.searchByValue policy memory frames).1 ≠ .error (.fault .nestingLimit))
    (insideOther :
      (formula.searchByValue policy memory other).1 ≠ .error (.fault .nestingLimit)) :
    formula.searchByValue policy memory frames = formula.searchByValue policy memory other := by
  have wider := searchByValue_of_le obtained registers starts inside (Nat.le_max_left frames other)
  have widerOther :=
    searchByValue_of_le obtained registers starts insideOther (Nat.le_max_right frames other)
  exact wider.symm.trans widerOther

/-- A solver searches as is done by value with the nesting that the solver allows. -/
theorem searchesAs_searchByValue (obtained : Obtainable formula)
    (registers : policy.ProposesRegistered formula.numVars valid) (starts : valid memory)
    (idleProposals : Nat) :
    let solver : Solver σ := ⟨policy, memory, none, idleProposals⟩
    solver.SearchesAs formula (formula.searchByValue policy memory (solver.frames formula)) := by
  intro solver
  obtain ⟨answer, memories, stats⟩ :=
    searchByValue_of_tracks obtained registers.tracks ⟨rfl, starts⟩ (solver.frames formula)
  obtain ⟨recordedAnswer, recordedMemories, recordedStats⟩ :=
    searchByValue_of_tracks obtained registers.tracks_recorded ⟨rfl, starts⟩
      (solver.frames formula)
  have solved (clock : Clock) : solver.solve clock formula = _ := solve_eq rfl
  have recordedSolved (clock : Clock) : solver.recorded.solve clock formula = _ := solve_eq rfl
  constructor <;> intro clock
  · rw [solved]
    exact answer
  · rw [solved]
    exact stats
  · rw [solved]
    exact memories.1
  · rw [recordedSolved]
    exact recordedAnswer
  · rw [recordedSolved]
    exact recordedStats
  · rw [recordedSolved]
    exact recordedMemories.1

/-- Started at a formula with every registered variable true, the search by value is
what solvers do that have no budget of time and a policy that proposes registered
variables only. With the same nesting allowed the two end alike, also where the
nesting is not enough. There is a nesting that is enough for one of them if and only
if there is one that is enough for the other; whatever the two are, the answers, the
counters, the queries, and the memory that is left are the same. -/
theorem solve_eq_searchByValue (obtained : Obtainable formula)
    (registers : policy.ProposesRegistered formula.numVars valid) (starts : valid memory) :
    let solver (idleProposals : Nat) : Solver σ := ⟨policy, memory, none, idleProposals⟩
    let limit : Except Failure (Option Assignment) := .error (.fault .nestingLimit)
    (∀ idleProposals, (solver idleProposals).SearchesAs formula
        (formula.searchByValue policy memory ((solver idleProposals).frames formula))) ∧
      (∀ clock, (∃ idleProposals, ((solver idleProposals).solve clock formula).1.answer ≠ limit) ↔
        ∃ frames, (formula.searchByValue policy memory frames).1 ≠ limit) ∧
      ∀ clock idleProposals frames,
        ((solver idleProposals).solve clock formula).1.answer ≠ limit →
          (formula.searchByValue policy memory frames).1 ≠ limit →
            (solver idleProposals).SearchesAs formula
              (formula.searchByValue policy memory frames) := by
  intro solver limit
  have alike (idleProposals : Nat) :=
    searchesAs_searchByValue obtained registers starts idleProposals
  refine ⟨alike, fun clock => ⟨?_, ?_⟩, ?_⟩
  · rintro ⟨idleProposals, ends⟩
    rw [(alike idleProposals).answer_eq] at ends
    exact ⟨_, ends⟩
  · rintro ⟨frames, ends⟩
    have enough : frames ≤ (solver frames).frames formula :=
      Nat.le_succ_of_le (Nat.le_add_left frames formula.numVars)
    refine ⟨frames, ?_⟩
    rw [(alike frames).answer_eq, searchByValue_of_le obtained registers starts ends enough]
    exact ends
  · intro clock idleProposals frames ends endsByValue
    rw [(alike idleProposals).answer_eq] at ends
    rw [searchByValue_eq_of_ended obtained registers starts endsByValue ends]
    exact alike idleProposals

/-- The policy decides twice on a variable that occurs in no clause. -/
theorem solve_eq_searchByValue_oneClause :
    let script : List Choice := [⟨3, false⟩, ⟨3, true⟩, ⟨1, true⟩]
    let model : Assignment := ⟨[none, some true, some true, some true]⟩
    let solver : Solver (List Choice) := ⟨.scripted, script, none, 3⟩
    (solver.solve .still oneClause).1.answer = .ok (some model) ∧
      (oneClause.searchByValue .scripted script 5).1 = .ok (some model) ∧
      (solver.solve .still oneClause).1.stats =
        (oneClause.searchByValue .scripted script 5).2.stats ∧
      (solver.recorded.solve .still oneClause).2.memory =
        ([], (oneClause.searchByValue .scripted script 5).2.asked) := by
  intro script model solver
  have named : ∀ choice ∈ script, 0 < choice.var ∧ choice.var ≤ 3 := by decide
  have answered : (solver.solve .still oneClause).1.answer = .ok (some model) := rfl
  have answeredByValue :
      (oneClause.searchByValue .scripted script 5).1 = .ok (some model) := rfl
  obtain ⟨_, _, alike⟩ := solve_eq_searchByValue obtainable_oneClause
    (Policy.scripted_proposesRegistered 3) named
  have same := alike .still 3 5 (by rw [answered]; nofun) (by rw [answeredByValue]; nofun)
  exact ⟨answered, answeredByValue, same.stats_eq .still, same.recorded_memory_eq .still⟩

end Solver

end ChronoSat
