/-
# Checking a model without a decision

A formula to which a clause of one literal was added for every literal that a model makes
true can be searched in one way only. As long as no clause has lost its last literal, every
variable without a value still has the clause that was added for it, so there is a unit, and
the policy is not asked. The first unit may come from the formula and oppose the model. Then
it is made true all the same, and the clause that was added for its variable loses its only
literal: the next node has a conflict, and the search is undone from there.

So the values given so far are always the model's, and they are told by the variables that
are left. The search ends with the model if the model makes the formula true. Otherwise it
ends with its first conflict.
-/

import ChronoSat.Proofs.Assignment.Naming
import ChronoSat.Proofs.Formula.Reduction
import ChronoSat.Proofs.Search.Answer
import Mathlib.Order.Interval.Finset.Nat

namespace ChronoSat

namespace Assignment.Covers

variable {model : Assignment} {numVars var : Nat}

theorem inside (covers : model.Covers numVars) {value : Bool}
    (given : model.value? var = some value) : 0 < var ∧ var ≤ numVars :=
  (covers var).mp (Option.isSome_iff_exists.mpr ⟨value, given⟩)

theorem exists_value?_eq (covers : model.Covers numVars) (registered : var ∈ Finset.Icc 1 numVars) :
    ∃ value, model.value? var = some value :=
  Option.isSome_iff_exists.mp ((covers var).mpr (Finset.mem_Icc.mp registered))

theorem value?_eq_none (covers : model.Covers numVars) (unregistered : var ∉ Finset.Icc 1 numVars) :
    model.value? var = none := by
  rw [← Option.not_isSome_iff_eq_none, covers]
  exact fun inside => unregistered (Finset.mem_Icc.mpr inside)

end Assignment.Covers

/-! ## Clauses of one literal -/

/-- A formula with a clause of its own for each of some literals, behind its clauses. -/
def Formula.pushUnits (formula : Cnf) (literals : List Literal) : Except Error Cnf :=
  literals.foldlM (fun longer literal => longer.pushClause ⟨.disj, [literal]⟩) formula

theorem Formula.exists_pushUnits {formula : Cnf} {literals : List Literal}
    (registered : ∀ literal ∈ literals, literal.var ≤ formula.numVars) :
    ∃ longer, formula.pushUnits literals = .ok longer ∧ longer.registry = formula.registry ∧
      longer.clauses.map Clause.literals =
        formula.clauses.map Clause.literals ++ literals.map fun literal => [literal] := by
  refine Outcomes.exists_foldlM_eq_ok
    (fun (passed : List Literal) (longer : Cnf) => longer.registry = formula.registry ∧
      longer.clauses.map Clause.literals =
        formula.clauses.map Clause.literals ++ passed.map fun literal => [literal]) ?_
    ⟨rfl, by simp⟩
  rintro passed literal member before ⟨registry, clauses⟩
  have known : before.registry.contains literal.var = true := by
    rw [registry, Registry.contains_iff]
    exact ⟨literal.var_pos, registered literal member⟩
  have encoded : (⟨.disj, [literal]⟩ : Clause).encode before.registry = .ok [literal.toInt] :=
    Outcomes.mapM_eq_ok (g := Literal.toInt) fun other inside => by
      rw [List.mem_singleton.mp inside, Registry.encode, if_pos known]
  refine ⟨_, Outcomes.bind_eq_ok.mpr ⟨_, encoded, rfl⟩, registry, ?_⟩
  simp [clauses]

namespace Search

open SearchState

/-- Clauses over so many variables, among them one for each literal that the model makes
true. -/
structure Pins (model : Assignment) (numVars : Nat) (clauses : List (List Literal)) : Prop where
  covers : model.Covers numVars
  registered : ∀ clause ∈ clauses, ∀ literal ∈ clause, literal.var ≤ numVars
  unit_mem : ∀ literal : Literal, model.value? literal.var = some literal.polarity →
    [literal] ∈ clauses

/-- The values of a model but for those of the variables that are left. -/
def known (model : Assignment) (left : Finset Nat) (var : Nat) : Option Bool :=
  if var ∈ left then none else model.value? var

variable {model : Assignment} {numVars : Nat} {clauses : List (List Literal)} {left : Finset Nat}
  {state next : SearchState} {literal : Literal}

theorem value?_of_known {var : Nat} {value : Bool} (given : known model left var = some value) :
    model.value? var = some value := by
  unfold known at given
  split at given
  · cases given
  · exact given

/-- A state in which the model's values were given to all variables but those that are
left. -/
structure OnTrack (model : Assignment) (numVars : Nat) (clauses : List (List Literal))
    (left : Finset Nat) (state : SearchState) : Prop where
  left_subset : left ⊆ Finset.Icc 1 numVars
  liveClauses_eq : state.liveClauses = Clauses.reducedUnder (known model left) clauses
  value?_eq : state.assignment.value? =
    fun var => if var ∈ left then some true else model.value? var
  room_eq : state.assignment.room = numVars + 1

/-! ## One node -/

theorem Pins.exists_literal (pins : Pins model numVars clauses) {var : Nat}
    (registered : var ∈ Finset.Icc 1 numVars) :
    ∃ literal : Literal, literal.var = var ∧
      model.value? literal.var = some literal.polarity := by
  obtain ⟨value, given⟩ := pins.covers.exists_value?_eq registered
  exact ⟨⟨var, value, (pins.covers.inside given).1⟩, rfl, given⟩

/-- The clause that was added for a variable stays as long as the variable is left. -/
theorem OnTrack.unit_mem (onTrack : OnTrack model numVars clauses left state)
    (pins : Pins model numVars clauses) (isLeft : literal.var ∈ left)
    (given : model.value? literal.var = some literal.polarity) :
    [literal] ∈ state.liveClauses := by
  have unknown : known model left literal.var = none := if_pos isLeft
  rw [onTrack.liveClauses_eq]
  refine Clauses.mem_reducedUnder.mpr ⟨[literal], pins.unit_mem literal given, ?_, ?_⟩ <;>
    simp [unknown]

/-- A literal that stands in an open clause is over a variable that is left. -/
theorem OnTrack.var_mem (onTrack : OnTrack model numVars clauses left state)
    (pins : Pins model numVars clauses) {clause : List Literal}
    (member : clause ∈ state.liveClauses) (inside : literal ∈ clause) : literal.var ∈ left := by
  rw [onTrack.liveClauses_eq] at member
  have unknown := Clauses.eq_none_of_mem_reducedUnder member inside
  obtain ⟨whole, there, _, rfl⟩ := Clauses.mem_reducedUnder.mp member
  have registered := pins.registered whole there literal (List.mem_of_mem_filter inside)
  have given := (pins.covers literal.var).mpr ⟨literal.var_pos, registered⟩
  by_contra isKnown
  rw [known, if_neg isKnown] at unknown
  rw [unknown] at given
  cases given

/-- The model makes the open clauses hold exactly if it makes all clauses hold. -/
theorem OnTrack.hold_iff (onTrack : OnTrack model numVars clauses left state) :
    Clauses.Hold model.value? state.liveClauses ↔ Clauses.Hold model.value? clauses := by
  rw [onTrack.liveClauses_eq]
  exact Clauses.hold_reducedUnder_iff fun _ _ => value?_of_known

/-- Nothing is left once no clause is open. -/
theorem OnTrack.left_eq_empty (onTrack : OnTrack model numVars clauses left state)
    (pins : Pins model numVars clauses) (solved : state.liveClauses = []) : left = ∅ := by
  rw [Finset.eq_empty_iff_forall_notMem]
  intro var isLeft
  obtain ⟨literal, rfl, given⟩ := pins.exists_literal (onTrack.left_subset isLeft)
  have unit := onTrack.unit_mem pins isLeft given
  rw [solved] at unit
  exact List.not_mem_nil unit

/-- A node that goes on has a unit, so the policy is not asked. -/
theorem OnTrack.firstUnit_ne_none (onTrack : OnTrack model numVars clauses left state)
    (pins : Pins model numVars clauses) (unsolved : state.liveClauses ≠ [])
    (nonempty : [] ∉ state.liveClauses) : state.firstUnit ≠ none := by
  obtain ⟨clause, member⟩ := List.exists_mem_of_ne_nil _ unsolved
  obtain ⟨other, inside⟩ := List.exists_mem_of_ne_nil clause fun empty => nonempty (empty ▸ member)
  have isLeft := onTrack.var_mem pins member inside
  obtain ⟨literal, same, given⟩ := pins.exists_literal (onTrack.left_subset isLeft)
  have unit := onTrack.unit_mem pins (same ▸ isLeft) given
  rw [firstUnit_eq_findSome?, ne_eq, List.findSome?_eq_none_iff]
  intro noUnit
  cases noUnit [literal] unit

/-- A search begins with every variable left. -/
theorem onTrack_ofFormula {formula : Cnf} (covers : model.Covers formula.numVars) :
    OnTrack model formula.numVars (formula.clauses.map Clause.literals)
      (Finset.Icc 1 formula.numVars) (ofFormula formula) where
  left_subset := Finset.Subset.refl _
  liveClauses_eq := by
    have nothing : known model (Finset.Icc 1 formula.numVars) = fun _ => none := by
      funext var
      unfold known
      split
      · rfl
      · next unregistered => exact covers.value?_eq_none unregistered
    rw [nothing, Clauses.reducedUnder_none, liveClauses_ofFormula]
  value?_eq := by
    funext var
    refine (Assignment.value?_uniform _ _ _).trans ?_
    by_cases registered : var ∈ Finset.Icc 1 formula.numVars
    · rw [if_pos registered]
      exact if_pos (Finset.mem_Icc.mp registered)
    · rw [if_neg registered, covers.value?_eq_none registered]
      exact if_neg fun inside => registered (Finset.mem_Icc.mpr inside)
  room_eq := Assignment.room_uniform _ _

/-- A unit that the model makes true brings the search one variable further. -/
theorem OnTrack.of_makes (onTrack : OnTrack model numVars clauses left state)
    (isLeft : literal.var ∈ left) (given : model.value? literal.var = some literal.polarity)
    (made : Makes literal state next) :
    OnTrack model numVars clauses (left.erase literal.var) next where
  left_subset := (Finset.erase_subset _ _).trans onTrack.left_subset
  liveClauses_eq := by
    rw [made.liveClauses_eq, onTrack.liveClauses_eq, Clauses.reduced_reducedUnder]
    congr 1
    funext var
    by_cases same : var = literal.var
    · subst same
      simp [Clauses.orElse, known, isLeft, given]
    · simp [Clauses.orElse, known, same]
  value?_eq := by
    rw [made.value?_eq, onTrack.value?_eq]
    funext var
    by_cases same : var = literal.var
    · subst same
      simp [given]
    · simp [same]
  room_eq := by
    have registered := (Finset.mem_Icc.mp (onTrack.left_subset isLeft)).2
    rw [made.room_eq, onTrack.room_eq]
    omega

/-- A unit that opposes the model takes the only literal of the clause that was added for its
variable. -/
theorem OnTrack.nil_mem_of_makes (onTrack : OnTrack model numVars clauses left state)
    (pins : Pins model numVars clauses) (isLeft : literal.var ∈ left)
    (opposes : model.value? literal.var ≠ some literal.polarity)
    (made : Makes literal state next) : [] ∈ next.liveClauses := by
  obtain ⟨value, given⟩ := pins.covers.exists_value?_eq (onTrack.left_subset isLeft)
  have opposite : value = literal.negated.polarity := by
    rw [Literal.negated_polarity, Bool.eq_not]
    rintro rfl
    exact opposes given
  have unit : [literal.negated] ∈ state.liveClauses :=
    onTrack.unit_mem pins isLeft (given.trans (congrArg some opposite))
  rw [made.liveClauses_eq]
  refine Clauses.mem_reduced.mpr ⟨_, unit, ?_, by simp⟩
  rw [List.mem_singleton]
  intro same
  have polarities := congrArg Literal.polarity same
  simp at polarities

/-! ## Whole searches -/

variable {σ : Type} {policy : Policy σ} {alarm : Alarm} {frames depth : Nat} {run after : Run σ}
  {ending : Ending}

/-- The policy was not asked, and nothing was decided or taken back. -/
structure Quiet (run after : Run σ) : Prop where
  memory_eq : after.memory = run.memory
  decisions_eq : after.stats.decisions = run.stats.decisions
  backtracks_eq : after.stats.backtracks = run.stats.backtracks
  maxDepth_eq : after.stats.maxDepth = run.stats.maxDepth

/-- How a search may end that has so many variables left. -/
inductive Verdict (model : Assignment) (numVars : Nat) (clauses : List (List Literal))
    (alarm : Alarm) (left : Nat) (run after : Run σ) : Ending → Prop
  /-- The model makes the clauses hold, and is found after one propagation for each
  variable. -/
  | confirmed (hold : Clauses.Hold model.value? clauses)
      (value?_eq : after.state.assignment.value? = model.value?)
      (room_eq : after.state.assignment.room = numVars + 1)
      (propagations_eq : after.stats.propagations = run.stats.propagations + left)
      (conflicts_eq : after.stats.conflicts = run.stats.conflicts) :
      Verdict model numVars clauses alarm left run after .satisfied
  /-- The model does not make the clauses hold, and there was a conflict. -/
  | refuted (fails : ¬ Clauses.Hold model.value? clauses)
      (conflicts_eq : after.stats.conflicts = run.stats.conflicts + 1) :
      Verdict model numVars clauses alarm left run after .exhausted
  /-- Time was up before it could be told. -/
  | late (reading : Nat) (timeUp : alarm reading = true) :
      Verdict model numVars clauses alarm left run after (.stopped .deadline)

/-- A search that tells of the model without asking the policy. -/
structure Checks (model : Assignment) (numVars : Nat) (clauses : List (List Literal))
    (alarm : Alarm) (left : Nat) (run after : Run σ) (ending : Ending) : Prop where
  quiet : Quiet run after
  verdict : Verdict model numVars clauses alarm left run after ending

/-- Below a state with an empty clause there is a conflict, unless time is up. -/
theorem Explores.checks_of_nil_mem
    (explores : Explores policy alarm frames depth run ending after)
    (empty : [] ∈ run.state.liveClauses) (enough : 0 < frames)
    (fails : ¬ Clauses.Hold model.value? clauses) (left : Nat) :
    Checks model numVars clauses alarm left run after ending := by
  cases explores with
  | nestingLimit => exact absurd enough (Nat.lt_irrefl 0)
  | deadline timeUp => exact ⟨⟨rfl, rfl, rfl, rfl⟩, .late _ timeUp⟩
  | satisfied _ solved =>
      rw [solved] at empty
      exact absurd empty List.not_mem_nil
  | conflict => exact ⟨⟨rfl, rfl, rfl, rfl⟩, .refuted fails rfl⟩
  | forced forces | forcedBack forces => exact absurd empty forces.nonempty
  | policyFault asks | noCandidate asks | notAVariable asks => exact absurd empty asks.nonempty
  | decided decides | decidedSecond decides | bothBack decides =>
      exact absurd empty decides.nonempty

/-- A propagation asks nobody and is counted. -/
theorem Checks.of_propagation {depth count : Nat} {literal : Literal} {impact : Impact}
    (checks : Checks model numVars clauses alarm count
      (run.noteLook.notePropagation literal depth next impact) after ending) :
    Checks model numVars clauses alarm (count + 1) run after ending where
  quiet := by
    obtain ⟨memory, decisions, backtracks, maxDepth⟩ := checks.quiet
    exact ⟨memory, decisions, backtracks, maxDepth⟩
  verdict := by
    cases checks.verdict with
    | confirmed hold values room propagations conflicts =>
        refine .confirmed hold values room ?_ conflicts
        rw [propagations]
        exact Nat.add_right_comm _ 1 count
    | refuted fails conflicts => exact .refuted fails conflicts
    | late reading timeUp => exact .late reading timeUp

/-- A node with a unit ends as the search below it does, whether the model agrees with the
unit or not. -/
theorem OnTrack.checks_of_makes {impact : Impact}
    (onTrack : OnTrack model numVars clauses left run.state)
    (pins : Pins model numVars clauses) (enough : left.card < frames + 1)
    (unit : [literal] ∈ run.state.liveClauses) (made : Makes literal run.state next)
    (below : Explores policy alarm frames depth
      (run.noteLook.notePropagation literal depth next impact) ending after)
    (ih : ∀ {fewer : Finset Nat}, OnTrack model numVars clauses fewer next → fewer.card < frames →
      Checks model numVars clauses alarm fewer.card
        (run.noteLook.notePropagation literal depth next impact) after ending) :
    Checks model numVars clauses alarm left.card run after ending := by
  have isLeft := onTrack.var_mem pins unit (List.mem_singleton_self literal)
  have fewer := Finset.card_erase_add_one isLeft
  rw [← fewer]
  apply Checks.of_propagation
  by_cases given : model.value? literal.var = some literal.polarity
  · exact ih (onTrack.of_makes isLeft given made) (by omega)
  · have empty := onTrack.nil_mem_of_makes pins isLeft given made
    have positive : 0 < left.card := Finset.card_pos.mpr ⟨_, isLeft⟩
    refine below.checks_of_nil_mem empty (by omega) (fun hold => given ?_) _
    exact (onTrack.hold_iff.mpr hold).unit unit

/-- A search that is on track never asks the policy, and ends as the model makes the clauses
hold or not. -/
theorem Explores.checks (pins : Pins model numVars clauses)
    (explores : Explores policy alarm frames depth run ending after)
    (onTrack : OnTrack model numVars clauses left run.state) (enough : left.card < frames) :
    Checks model numVars clauses alarm left.card run after ending := by
  induction explores generalizing left with
  | nestingLimit => exact absurd enough (Nat.not_lt_zero _)
  | deadline timeUp => exact ⟨⟨rfl, rfl, rfl, rfl⟩, .late _ timeUp⟩
  | satisfied _ solved =>
      obtain rfl := onTrack.left_eq_empty pins solved
      refine ⟨⟨rfl, rfl, rfl, rfl⟩, .confirmed ?_ ?_ onTrack.room_eq rfl rfl⟩
      · rw [← onTrack.hold_iff, solved]
        exact Clauses.hold_nil
      · exact onTrack.value?_eq.trans (by simp)
  | conflict _ empty =>
      refine ⟨⟨rfl, rfl, rfl, rfl⟩, .refuted ?_ rfl⟩
      rw [← onTrack.hold_iff]
      exact Clauses.not_hold_of_nil_mem empty
  | forced forces made below _ ih =>
      exact onTrack.checks_of_makes pins enough (mem_of_firstUnit forces.unit) made below ih
  | forcedBack forces made below _ ih =>
      obtain ⟨⟨memory, decisions, backtracks, maxDepth⟩, verdict⟩ :=
        onTrack.checks_of_makes pins enough (mem_of_firstUnit forces.unit) made below ih
      cases verdict with
      | refuted fails conflicts =>
          exact ⟨⟨memory, decisions, backtracks, maxDepth⟩, .refuted fails conflicts⟩
  | policyFault asks | noCandidate asks | notAVariable asks =>
      exact absurd asks.noUnit (onTrack.firstUnit_ne_none pins asks.unsolved asks.nonempty)
  | decided decides | decidedSecond decides | bothBack decides =>
      exact absurd decides.noUnit
        (onTrack.firstUnit_ne_none pins decides.unsolved decides.nonempty)

end Search

namespace Formula

variable {formula checked : Cnf} {model : Assignment} {literals : List Literal}

/-- What is pushed pins the model. -/
theorem pins_pushUnits (wellFormed : formula.WellFormed) (covers : model.Covers formula.numVars)
    (read : model.toLiterals = .ok literals)
    (clauses : checked.clauses.map Clause.literals =
      formula.clauses.map Clause.literals ++ literals.map fun literal => [literal]) :
    Search.Pins model formula.numVars (checked.clauses.map Clause.literals) where
  covers := covers
  registered := by
    rw [clauses]
    refine List.forall_mem_append.mpr ⟨List.forall_mem_map.mpr wellFormed.var_le, ?_⟩
    refine List.forall_mem_map.mpr fun literal member => List.forall_mem_singleton.mpr ?_
    exact (covers.inside ((Assignment.mem_toLiterals read).mp member)).2
  unit_mem := by
    intro literal given
    rw [clauses]
    refine List.mem_append_right _ (List.mem_map_of_mem ?_)
    exact (Assignment.mem_toLiterals read).mpr given

/-- What is pushed holds in the model, so it makes no difference. -/
theorem hold_pushUnits_iff (wellFormed : formula.WellFormed)
    (read : model.toLiterals = .ok literals)
    (clauses : checked.clauses.map Clause.literals =
      formula.clauses.map Clause.literals ++ literals.map fun literal => [literal]) :
    Clauses.Hold model.value? (checked.clauses.map Clause.literals) ↔
      formula.evaluate model = true := by
  rw [evaluate_iff_hold wellFormed, clauses, Clauses.Hold, List.forall_mem_append]
  refine and_iff_left (List.forall_mem_map.mpr fun literal member => ?_)
  exact ⟨literal, List.mem_singleton_self literal, (Assignment.mem_toLiterals read).mp member⟩

end Formula

namespace Solver

variable {σ : Type} {solver : Solver σ} {clock : Clock} {checked : Cnf}
  {model : Assignment} {numVars left : Nat} {clauses : List (List Literal)}

/-- A search tells of a model that the clauses pin. Every variable is left at its beginning. -/
theorem checks_of_pins (solver : Solver σ) (clock : Clock)
    (pins : Search.Pins model checked.numVars (checked.clauses.map Clause.literals)) :
    Search.Checks model checked.numVars (checked.clauses.map Clause.literals)
      (clock.alarm solver.timeout) checked.numVars (.start checked solver.memory)
      (solver.search clock checked).2 (solver.search clock checked).1 := by
  have all : (Finset.Icc 1 checked.numVars).card = checked.numVars := Nat.card_Icc 1 _
  have enough : (Finset.Icc 1 checked.numVars).card < solver.frames checked := by
    rw [all, frames]
    omega
  have checks := (explored_search solver clock checked).explores.checks pins
    (Search.onTrack_ofFormula pins.covers) enough
  rwa [all] at checks

/-- A solver whose policy is not asked stays as it is. -/
theorem solve_of_quiet
    (quiet : Search.Quiet (.start checked solver.memory) (solver.search clock checked).2) :
    (solver.solve clock checked).2 = solver ∧
      (solver.solve clock checked).1.stats.decisions = 0 ∧
      (solver.solve clock checked).1.stats.backtracks = 0 ∧
      (solver.solve clock checked).1.stats.maxDepth = 0 := by
  obtain ⟨memory, decisions, backtracks, maxDepth⟩ := quiet
  by_cases fits : clock.deadlineFits solver.timeout = true
  · rw [solve_eq fits, memory]
    exact ⟨rfl, decisions, backtracks, maxDepth⟩
  · rw [solve, if_neg fits]
    exact ⟨rfl, rfl, rfl, rfl⟩

/-- What is answered if time is never up and the search tells of a model. -/
theorem solve_of_verdict (fits : clock.deadlineFits solver.timeout = true)
    (verdict : Search.Verdict model numVars clauses .never left (.start checked solver.memory)
      (solver.search clock checked).2 (solver.search clock checked).1) :
    (Clauses.Hold model.value? clauses →
      (∃ found, (solver.solve clock checked).1.answer = .ok (some found) ∧
        found.value? = model.value? ∧ (model.room = numVars + 1 → found = model)) ∧
      (solver.solve clock checked).1.stats.propagations = left ∧
      (solver.solve clock checked).1.stats.conflicts = 0) ∧
    (¬ Clauses.Hold model.value? clauses →
      (solver.solve clock checked).1.answer = .ok none ∧
      (solver.solve clock checked).1.stats.conflicts = 1) := by
  rw [solve_eq fits]
  dsimp only
  generalize solver.search clock checked = ended at verdict ⊢
  obtain ⟨ending, after⟩ := ended
  dsimp only at verdict ⊢
  cases verdict with
  | confirmed hold values room propagations conflicts =>
      refine ⟨fun _ => ⟨⟨_, rfl, values, fun sameRoom => ?_⟩, ?_, conflicts⟩, absurd hold⟩
      · exact Assignment.eq_of_value?_eq (room.trans sameRoom.symm) values
      · exact propagations.trans (Nat.zero_add left)
  | refuted fails conflicts =>
      exact ⟨fun hold => absurd hold fails, fun _ => ⟨rfl, conflicts⟩⟩
  | late reading timeUp => cases timeUp

end Solver

/-- Unit propagation alone checks a model. To a formula that can be obtained, a clause of one
literal is pushed for every literal that a model of its variables makes true. Then a solver
never asks its policy: nothing is decided or taken back, and the solver is afterwards as it
was, whatever the policy and whenever time is up. If time is never up and the model makes the
formula true, the model is found after one propagation for each variable and without a
conflict. If the model does not make the formula true, there is no model, which is known
after one conflict. -/
theorem Solver.solve_pushUnits {formula : Cnf} (obtained : Obtainable formula)
    {model : Assignment} (covers : model.Covers formula.numVars) :
    ∃ literals checked, model.toLiterals = .ok literals ∧
      formula.pushUnits literals = .ok checked ∧
      ∀ {σ : Type} (solver : Solver σ),
        ∀ clock : Clock, ((solver.solve clock checked).2 = solver ∧
          (solver.solve clock checked).1.stats.decisions = 0 ∧
          (solver.solve clock checked).1.stats.backtracks = 0 ∧
          (solver.solve clock checked).1.stats.maxDepth = 0) ∧
        (clock.deadlineFits solver.timeout = true → clock.alarm solver.timeout = .never →
          (formula.evaluate model = true →
            (∃ found, (solver.solve clock checked).1.answer = .ok (some found) ∧
              found.value? = model.value? ∧
              (model.room = formula.numVars + 1 → found = model)) ∧
            (solver.solve clock checked).1.stats.propagations = formula.numVars ∧
            (solver.solve clock checked).1.stats.conflicts = 0) ∧
          (formula.evaluate model = false →
            (solver.solve clock checked).1.answer = .ok none ∧
            (solver.solve clock checked).1.stats.conflicts = 1)) := by
  have wellFormed := obtained.wellFormed
  obtain ⟨literals, read⟩ := model.exists_toLiterals fun var value given =>
    ⟨(covers.inside given).1, (covers.inside given).2.trans obtained.numVars_le⟩
  have registered (literal : Literal) (member : literal ∈ literals) :
      literal.var ≤ formula.numVars :=
    (covers.inside ((Assignment.mem_toLiterals read).mp member)).2
  obtain ⟨checked, pushed, registry, clauses⟩ := Formula.exists_pushUnits registered
  have numVars : checked.numVars = formula.numVars := congrArg Registry.size registry
  have pins := Formula.pins_pushUnits wellFormed covers read clauses
  have holds := Formula.hold_pushUnits_iff wellFormed read clauses
  rw [← numVars] at pins
  refine ⟨literals, checked, read, pushed, fun {σ} solver clock => ?_⟩
  have checks := Solver.checks_of_pins solver clock pins
  refine ⟨Solver.solve_of_quiet checks.quiet, fun fits inTime => ?_⟩
  rw [inTime] at checks
  have told := Solver.solve_of_verdict fits checks.verdict
  rwa [holds, Bool.not_eq_true, numVars] at told

/-- One variable implies another. -/
def implication : Cnf := .ofNamed [[("a", false), ("b", true)]]

theorem obtainable_implication : Obtainable implication :=
  .addClauses [["¬a", "b"]] .empty rfl

theorem covers_pair (first second : Bool) :
    (⟨[none, some first, some second]⟩ : Assignment).Covers 2 := by
  intro var
  match var with
  | 0 | 1 | 2 => simp [Assignment.value?]
  | var + 3 => simp [Assignment.value?]

/-- A policy that fails as soon as it is asked does no harm. -/
theorem solve_pushUnits_implication :
    let solver : Solver Unit := ⟨⟨fun _ _ => .error .nestingLimit⟩, (), none, 0⟩
    let model : Assignment := ⟨[none, some false, some true]⟩
    let other : Assignment := ⟨[none, some true, some false]⟩
    implication.evaluate model = true ∧ implication.evaluate other = false ∧
      (∃ literals checked, model.toLiterals = .ok literals ∧
        implication.pushUnits literals = .ok checked ∧
        (solver.solve .still checked).1.answer = .ok (some model) ∧
        (solver.solve .still checked).1.stats.propagations = 2) ∧
      ∃ literals checked, other.toLiterals = .ok literals ∧
        implication.pushUnits literals = .ok checked ∧
        (solver.solve .still checked).1.answer = .ok none ∧
        (solver.solve .still checked).1.stats.conflicts = 1 := by
  intro solver model other
  have holds : implication.evaluate model = true := rfl
  have fails : implication.evaluate other = false := rfl
  obtain ⟨literals, checked, read, pushed, checks⟩ :=
    Solver.solve_pushUnits obtainable_implication (covers_pair false true)
  obtain ⟨⟨found, answered, _, same⟩, propagations, _⟩ := ((checks solver .still).2 rfl rfl).1 holds
  cases same rfl
  obtain ⟨otherLiterals, otherChecked, otherRead, otherPushed, otherChecks⟩ :=
    Solver.solve_pushUnits obtainable_implication (covers_pair true false)
  obtain ⟨refuted, conflicts⟩ := ((otherChecks solver .still).2 rfl rfl).2 fails
  exact ⟨holds, fails, ⟨literals, checked, read, pushed, answered, propagations⟩,
    otherLiterals, otherChecked, otherRead, otherPushed, refuted, conflicts⟩

end ChronoSat
