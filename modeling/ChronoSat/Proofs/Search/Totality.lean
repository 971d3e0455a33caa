/-
# The built-in policies decide every formula

With a policy of the library and no budget of time, a search ends with an answer:
it never runs out of nesting, is never told nothing, and meets no fault. The measure
is the number of variables in open clauses. A node below another has fewer of them,
because the literal that was made true had a variable that occurred, as units have
and the proposals of the policies do; and where the policy is asked an open clause
has a literal, so there is something to propose.

The bound on the nesting is one more than the number of variables that occur, which
may be far fewer than are registered.
-/

import ChronoSat.Proofs.Search.Refutation
import ChronoSat.Proofs.Search.Soundness
import Mathlib.Order.Interval.Finset.Nat

namespace ChronoSat

namespace SearchState

/-- How many variables the open clauses have. -/
def openVars (state : SearchState) : Nat := (Clauses.vars state.liveClauses).card

theorem Makes.openVars_lt {literal : Literal} {above next : SearchState}
    (made : Makes literal above next) (occurs : literal.var ∈ Clauses.vars above.liveClauses) :
    next.openVars < above.openVars := by
  rw [openVars, made.liveClauses_eq]
  exact Clauses.card_vars_reduced_lt occurs

theorem Restores.openVars_eq {restored above below : SearchState}
    (restores : restored.Restores above below) : restored.openVars = above.openVars := by
  rw [openVars, restores.liveClauses_eq, openVars]

theorem openVars_ofFormula_le {formula : Cnf} (wellFormed : formula.WellFormed) :
    (ofFormula formula).openVars ≤ formula.numVars := by
  have inside : Clauses.vars (ofFormula formula).liveClauses ⊆ Finset.Icc 1 formula.numVars := by
    intro var occurs
    rw [liveClauses_ofFormula] at occurs
    exact Finset.mem_Icc.mpr (wellFormed.of_mem_vars occurs)
  exact (Finset.card_le_card inside).trans_eq (Nat.card_Icc 1 formula.numVars)

end SearchState

namespace Search

open SearchState

/-- A state from which so many nodes may be nested: more than there are variables in
open clauses, all of which have names that a literal can be made of. -/
structure Fits (frames : Nat) (state : SearchState) : Prop where
  registered : state.remaining.Registered
  inRange : state.numVars ≤ Literal.maxVar
  enough : state.openVars < frames

theorem Fits.of_makes {frames : Nat} {literal : Literal} {above next : SearchState}
    (fits : Fits (frames + 1) above) (made : Makes literal above next)
    (occurs : literal.var ∈ Clauses.vars above.liveClauses) : Fits frames next where
  registered := made.registered fits.registered
  inRange := made.descends.1.trans_le fits.inRange
  enough := Nat.lt_of_lt_of_le (made.openVars_lt occurs) (Nat.le_of_lt_succ fits.enough)

theorem Fits.of_restores {frames : Nat} {restored above below : SearchState}
    (fits : Fits frames above) (undone : restored.Restores above below) : Fits frames restored where
  registered := undone.registered fits.registered
  inRange := undone.numVars_eq.trans_le fits.inRange
  enough := undone.openVars_eq.trans_lt fits.enough

/-- A node that asks has something to branch on. -/
theorem Asks.exists_clause {σ : Type} {alarm : Alarm} {run : Run σ} (asks : Asks alarm run) :
    ∃ clause ∈ run.state.liveClauses, clause ≠ [] := by
  obtain ⟨clause, member⟩ := List.exists_mem_of_ne_nil _ asks.unsolved
  exact ⟨clause, member, fun empty => asks.nonempty (empty ▸ member)⟩

section Subtree

variable {γ : Type} [RandomSource γ] {selection : Selection} {frames depth : Nat}
  {run after : Run γ} {ending : Ending}

/-- What a policy decides on is a variable of an open clause. -/
theorem Decides.occurs {alarm : Alarm} {literal : Literal} {memory : γ}
    (decides : Decides selection.policy alarm run literal memory)
    (registered : run.state.remaining.Registered) :
    literal.var ∈ Clauses.vars run.state.liveClauses :=
  selection.honours.occurs registered trivial decides.proposed

/-- With more nesting allowed than variables occur, a search ends with an answer. -/
theorem Explores.satisfied_or_exhausted
    (explores : Explores selection.policy .never frames depth run ending after)
    (fits : Fits frames run.state) : ending = .satisfied ∨ ending = .exhausted := by
  induction explores with
  | nestingLimit => exact absurd fits.enough (Nat.not_lt_zero _)
  | deadline timeUp => cases timeUp
  | satisfied => exact .inl rfl
  | conflict | forcedBack | bothBack => exact .inr rfl
  | policyFault _ failed =>
      obtain ⟨_, _, answered, _⟩ := selection.exists_propose (γ := γ) fits.registered _
      rw [failed] at answered
      cases answered
  | noCandidate asks silent =>
      obtain ⟨_, _, answered, fitting⟩ := selection.exists_propose (γ := γ) fits.registered _
      rw [silent] at answered
      cases answered
      obtain ⟨clause, member, nonempty⟩ := asks.exists_clause
      exact absurd (fitting.silent rfl clause member) nonempty
  | notAVariable _ proposed outside =>
      have occurs := selection.honours.occurs fits.registered trivial proposed
      obtain ⟨_, _, literal, _, same⟩ := Clauses.mem_vars.mp occurs
      have inRange := (fits.registered _ occurs).trans fits.inRange
      exact absurd ⟨same ▸ literal.var_pos, inRange⟩ outside
  | forced forces made _ _ ih =>
      exact ih (fits.of_makes made forces.occurs)
  | decided decides made _ _ ih =>
      exact ih (fits.of_makes made (decides.occurs fits.registered))
  | decidedSecond decides made _ undone madeOpposite _ _ _ ih =>
      have occurs := decides.occurs fits.registered
      rw [← undone.liveClauses_eq] at occurs
      exact ih ((fits.of_restores undone).of_makes madeOpposite occurs)

/-- Below a node no more decisions are opened than there are variables in its open
clauses. -/
theorem Explores.maxDepth_le
    (explores : Explores selection.policy .never frames depth run ending after)
    (registered : run.state.remaining.Registered) :
    after.stats.maxDepth ≤ max run.stats.maxDepth (depth + run.state.openVars) := by
  induction explores with
  | nestingLimit | deadline | satisfied | conflict | policyFault | noCandidate =>
      exact Nat.le_max_left ..
  | @notAVariable _ depth run choice _ _ proposed =>
      have occurs := selection.honours.occurs registered trivial proposed
      have some : 0 < run.state.openVars := Finset.card_pos.mpr ⟨choice.var, occurs⟩
      have asked : max run.stats.maxDepth (depth + 1) ≤
          max run.stats.maxDepth (depth + run.state.openVars) := by omega
      exact asked
  | @forced _ depth run after literal next _ _ forces made _ _ ih
  | @forcedBack _ depth run after literal next _ _ forces made _ _ ih =>
      have fewer := made.openVars_lt forces.occurs
      have below : after.stats.maxDepth ≤ max run.stats.maxDepth (depth + next.openVars) :=
        ih (made.registered registered)
      exact below.trans (by omega)
  | @decided _ depth run after literal _ next _ decides made _ _ ih =>
      have fewer := made.openVars_lt (decides.occurs registered)
      have below : after.stats.maxDepth ≤
          max (max run.stats.maxDepth (depth + 1)) (depth + 1 + next.openVars) :=
        ih (made.registered registered)
      exact below.trans (by omega)
  | @decidedSecond _ depth run middle after literal _ next restored other _ decides made _ undone
      madeOpposite _ _ firstIh secondIh
  | @bothBack _ depth run middle after literal _ next restored other _ decides made _ undone
      madeOpposite _ _ firstIh secondIh =>
      have occurs := decides.occurs registered
      have fewer := made.openVars_lt occurs
      have fewerAgain := madeOpposite.openVars_lt (undone.liveClauses_eq ▸ occurs)
      have same := undone.openVars_eq
      have first : middle.stats.maxDepth ≤
          max (max run.stats.maxDepth (depth + 1)) (depth + 1 + next.openVars) :=
        firstIh (made.registered registered)
      have second : after.stats.maxDepth ≤
          max middle.stats.maxDepth (depth + 1 + other.openVars) :=
        secondIh (madeOpposite.registered (undone.registered registered))
      have asked : after.stats.maxDepth ≤
          max run.stats.maxDepth (depth + run.state.openVars) := by omega
      exact asked

end Subtree

theorem fits_ofFormula {formula : Cnf} (obtained : Obtainable formula) {frames : Nat}
    (enough : (ofFormula formula).openVars < frames) : Fits frames (ofFormula formula) :=
  ⟨registered_ofFormula obtained.wellFormed, obtained.numVars_le, enough⟩

/-- Any nesting beyond the number of variables that occur gives the same search. -/
theorem explore_eq_of_openVars_lt {formula : Cnf} (obtained : Obtainable formula)
    {γ : Type} [RandomSource γ] (selection : Selection) (source : γ) {frames : Nat}
    (enough : (ofFormula formula).openVars < frames) :
    explore selection.policy .never frames 0 (.start formula source) =
      explore selection.policy .never ((ofFormula formula).openVars + 1) 0
        (.start formula source) := by
  refine explore_of_le ?_ enough
  have explored := explored_explore selection.policy .never ((ofFormula formula).openVars + 1) 0
    (.start formula source) (coherent_ofFormula formula)
  have ends := explored.explores.satisfied_or_exhausted
    (fits_ofFormula obtained (Nat.lt_succ_self _))
  rcases ends with satisfied | exhausted
  · rw [satisfied]
    nofun
  · rw [exhausted]
    nofun

end Search

namespace Solver

/-- A solver that branches as a policy of the library does, with no budget of time. -/
def builtIn {γ : Type} [RandomSource γ] (selection : Selection) (source : γ)
    (idleProposals : Nat) : Solver γ :=
  ⟨selection.policy, source, none, idleProposals⟩

variable {γ : Type} [RandomSource γ] {formula : Cnf}

/-- The search of a built-in policy ends satisfied if there is a model, and exhausted
if there is none. -/
theorem search_builtIn (obtained : Obtainable formula) (selection : Selection) (source : γ)
    (idleProposals : Nat) (clock : Clock) :
    ((builtIn selection source idleProposals).search clock formula).1 = .satisfied ∧
        formula.Satisfiable ∨
      ((builtIn selection source idleProposals).search clock formula).1 = .exhausted ∧
        ¬ formula.Satisfiable := by
  have wellFormed := obtained.wellFormed
  have explored := explored_search (builtIn selection source idleProposals) clock formula
  have enough : (SearchState.ofFormula formula).openVars <
      (builtIn selection source idleProposals).frames formula := by
    have := SearchState.openVars_ofFormula_le wellFormed
    unfold frames
    omega
  rcases explored.explores.satisfied_or_exhausted (Search.fits_ofFormula obtained enough) with
    satisfied | exhausted
  · have descent := descent_of_satisfied wellFormed selection.honours trivial satisfied
    exact .inl ⟨satisfied, _, descent.evaluate wellFormed⟩
  · refine .inr ⟨exhausted, ?_⟩
    rintro ⟨assignment, holds⟩
    rw [Search.evaluate_eq_false_of_exhausted wellFormed exhausted assignment] at holds
    cases holds

/-- Whether a formula has a model is what every solver with a built-in policy and no
budget of time finds out, whatever is drawn and whatever the clock shows: it always answers,
with a model if there is one and with none otherwise. No more decisions are open at once than
variables occur, and a search in which no more nodes may be nested than one for each
of these variables and one more is the same search. -/
theorem builtIn_decides (obtained : Obtainable formula) :
    ∃ verdict : Bool, (verdict = true ↔ ∃ assignment, formula.evaluate assignment = true) ∧
      ∀ {γ : Type} [RandomSource γ] (selection : Selection) (source : γ) (idleProposals : Nat)
        (clock : Clock),
        let solver := builtIn selection source idleProposals
        let occurring := (Clauses.vars (formula.clauses.map Clause.literals)).card
        (∃ outcome, (solver.solve clock formula).1.answer = .ok outcome ∧
            outcome.isSome = verdict) ∧
          (solver.solve clock formula).1.stats.maxDepth ≤ occurring ∧
          ∀ frames, occurring < frames →
            Search.explore selection.policy .never frames 0 (.start formula source) =
              solver.search clock formula := by
  obtain ⟨verdict, decides⟩ : ∃ verdict : Bool, verdict = true ↔ formula.Satisfiable := by
    by_cases satisfiable : formula.Satisfiable
    · exact ⟨true, fun _ => satisfiable, fun _ => rfl⟩
    · exact ⟨false, nofun, fun holds => absurd holds satisfiable⟩
  refine ⟨verdict, decides, fun {γ} _ selection source idleProposals clock => ?_⟩
  intro solver occurring
  have openVars : (SearchState.ofFormula formula).openVars = occurring := by
    rw [SearchState.openVars, SearchState.liveClauses_ofFormula]
  have enough : occurring < solver.frames formula := by
    have := SearchState.openVars_ofFormula_le obtained.wellFormed
    unfold frames
    omega
  refine ⟨?_, ?_, ?_⟩
  · rcases search_builtIn obtained selection source idleProposals clock with
      ⟨satisfied, satisfiable⟩ | ⟨exhausted, unsatisfiable⟩
    · exact ⟨_, answer_of_satisfied rfl satisfied, (decides.mpr satisfiable).symm⟩
    · have refuted : verdict = false :=
        Bool.eq_false_iff.mpr fun holds => unsatisfiable (decides.mp holds)
      exact ⟨_, answer_of_exhausted rfl exhausted, refuted.symm⟩
  · have bound := (explored_search solver clock formula).explores.maxDepth_le
      (SearchState.registered_ofFormula obtained.wellFormed)
    rw [solve_eq rfl, ← openVars]
    exact bound.trans_eq (by rw [Search.Run.start]; simp [Search.Stats.zero])
  · intro frames more
    rw [Search.explore_eq_of_openVars_lt obtained selection source (openVars.trans_lt more)]
    exact (Search.explore_eq_of_openVars_lt obtained selection source
      (openVars.trans_lt enough)).symm

theorem builtIn_decides_contradiction :
    Obtainable Search.contradiction ∧
      (¬ ∃ assignment, Search.contradiction.evaluate assignment = true) ∧
      ((builtIn .twoClause (⟨7⟩ : Generator) 0).solve .still
        Search.contradiction).1.stats.maxDepth ≤ 2 := by
  obtain ⟨verdict, decides, each⟩ := builtIn_decides Search.obtainable_contradiction
  have answered : ((builtIn .naive (⟨0⟩ : Generator) 0).solve .still
      Search.contradiction).1.answer = .ok none := rfl
  have occurring :
      (Clauses.vars (Search.contradiction.clauses.map Clause.literals)).card = 2 := rfl
  obtain ⟨⟨outcome, same, isVerdict⟩, _⟩ := each .naive (⟨0⟩ : Generator) 0 .still
  obtain ⟨_, depth, _⟩ := each .twoClause (⟨7⟩ : Generator) 0 .still
  cases answered.symm.trans same
  refine ⟨Search.obtainable_contradiction, ?_, depth.trans_eq occurring⟩
  rw [← decides, ← isVerdict]
  nofun

end Solver

end ChronoSat
