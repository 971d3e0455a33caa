/-
# Satisfied searches give models

A search that ends satisfied has gone down from its first state to one without open
clauses, and its account has this way left standing. Subtrees that failed on the way
are undone, so the assignment at the end is the one at the beginning overwritten
along the way and nowhere else. What was made true on the way stays true: a literal
that is made true leaves no open clause with its variable, so nothing that keeps to
what remains overwrites it, and the clauses dropped for it hold in the end.

This is where the policy's promise comes in. A policy that proposes variables of no
open clause can overwrite the value that a clause was dropped for.
-/

import ChronoSat.Proofs.Assignment.Naming
import ChronoSat.Proofs.Branching.BuiltIn
import ChronoSat.Proofs.Formula.Evaluation
import ChronoSat.Proofs.Search.Account
import ChronoSat.Proofs.Search.Answer

namespace ChronoSat

/-- The choices that were standing when the search ended, the latest first. -/
def Report.path (report : Report) : List Choice :=
  (Search.standing report.events.reverse).map Prod.fst

namespace Search

open SearchState

variable {σ : Type} {values : Nat → Option Bool}

/-! ## Ways down -/

/-- A way from a state to one without open clauses, with the choices made on it, the
latest first. At every step a literal over a variable that occurs is made true; a
state that was found again after a failure stands for the state itself. -/
inductive Descent : SearchState → List (Choice × Nat) → SearchState → Prop
  | arrived {state : SearchState} (solved : state.liveClauses = []) : Descent state [] state
  | down {above next last : SearchState} {literal : Literal} {path : List (Choice × Nat)}
      (depth : Nat) (occurs : literal.var ∈ Clauses.vars above.liveClauses)
      (made : Makes literal above next) (rest : Descent next path last) :
      Descent above (path ++ [(literal.choice, depth)]) last
  | again {above restored below last : SearchState} {path : List (Choice × Nat)}
      (undone : restored.Restores above below) (rest : Descent restored path last) :
      Descent above path last

/-- Values that satisfy the open clauses of a state, and are the state's wherever no
open clause has a variable. -/
structure Completes (values : Nat → Option Bool) (state : SearchState) : Prop where
  hold : Clauses.Hold values state.liveClauses
  elsewhere : ∀ var, var ∉ Clauses.vars state.liveClauses →
    values var = state.assignment.value? var

/-- A literal made true stays true, since no open clause has its variable. -/
theorem Completes.value?_of_makes {literal : Literal} {above next : SearchState}
    (made : Makes literal above next) (completes : Completes values next) :
    values literal.var = some literal.polarity := by
  have gone : literal.var ∉ Clauses.vars next.liveClauses := by
    rw [made.liveClauses_eq]
    exact Clauses.var_not_mem_vars_reduced literal _
  rw [completes.elsewhere literal.var gone, made.value?_eq, Function.update_self]

/-- Completing a state with a literal made true completes the state, if the
literal's variable occurred. -/
theorem Completes.of_makes {literal : Literal} {above next : SearchState}
    (made : Makes literal above next) (occurs : literal.var ∈ Clauses.vars above.liveClauses)
    (completes : Completes values next) : Completes values above := by
  have kept := completes.value?_of_makes made
  obtain ⟨hold, elsewhere⟩ := completes
  rw [made.liveClauses_eq] at hold elsewhere
  rw [made.value?_eq] at elsewhere
  refine ⟨hold.of_reduced kept, fun var absent => ?_⟩
  have other : var ≠ literal.var := fun same => absent (same ▸ occurs)
  rw [elsewhere var fun left => absent (Clauses.mem_vars_of_mem_reduced left),
    Function.update_of_ne other]

theorem Completes.of_restores {restored above below : SearchState}
    (restores : restored.Restores above below) (completes : Completes values restored) :
    Completes values above := by
  obtain ⟨hold, elsewhere⟩ := completes
  rw [restores.liveClauses_eq] at hold elsewhere
  rw [restores.value?_eq] at elsewhere
  exact ⟨hold, elsewhere⟩

/-- Values overwritten by choices, the latest first. -/
def overwritten (choices : List Choice) (values : Nat → Option Bool) : Nat → Option Bool :=
  choices.foldr (fun choice earlier => Function.update earlier choice.var (some choice.value))
    values

theorem overwritten_of_not_mem {choices : List Choice} {var : Nat}
    (untouched : var ∉ choices.map Choice.var) (values : Nat → Option Bool) :
    overwritten choices values var = values var := by
  induction choices with
  | nil => rfl
  | cons choice rest ih =>
      rw [List.map_cons, List.mem_cons, not_or] at untouched
      have earlier := ih untouched.2
      rw [overwritten, List.foldr_cons, Function.update_of_ne untouched.1]
      exact earlier

/-- Overwriting takes no value away. -/
theorem isSome_overwritten {var : Nat} (given : (values var).isSome = true)
    (choices : List Choice) : (overwritten choices values var).isSome = true := by
  induction choices with
  | nil => exact given
  | cons choice rest ih =>
      rw [overwritten, List.foldr_cons]
      by_cases same : var = choice.var
      · rw [same, Function.update_self]
        rfl
      · rw [Function.update_of_ne same]
        exact ih

namespace Descent

variable {above last : SearchState} {path : List (Choice × Nat)}

/-- The assignment at the end completes every state on the way. -/
theorem completes (descent : Descent above path last) :
    Completes last.assignment.value? above := by
  induction descent with
  | arrived solved =>
      refine ⟨?_, fun _ _ => rfl⟩
      rw [solved]
      exact Clauses.hold_nil
  | down _ occurs made _ ih => exact ih.of_makes made occurs
  | again undone _ ih => exact ih.of_restores undone

/-- The assignment at the end is the one at the beginning, overwritten on the way. -/
theorem value?_eq (descent : Descent above path last) :
    last.assignment.value? = overwritten (path.map Prod.fst) above.assignment.value? := by
  induction descent with
  | arrived => rfl
  | @down _ next _ literal _ depth _ made _ ih =>
      rw [ih, made.value?_eq, List.map_append, overwritten, overwritten, List.foldr_append]
      rfl
  | again undone _ ih => rw [ih, undone.value?_eq]

/-- The choices on the way hold at the end. -/
theorem holds (descent : Descent above path last) :
    ∀ entry ∈ path, last.assignment.value? entry.1.var = some entry.1.value := by
  induction descent with
  | arrived => exact nofun
  | down _ _ made rest ih =>
      have kept := rest.completes.value?_of_makes made
      exact List.forall_mem_append.mpr ⟨ih, List.forall_mem_singleton.mpr kept⟩
  | again _ _ ih => exact ih

/-- A way down from the state that a search begins in leads to a model. -/
theorem evaluate {formula : Cnf} (wellFormed : formula.WellFormed)
    (descent : Descent (ofFormula formula) path last) :
    formula.evaluate last.assignment = true := by
  rw [Formula.evaluate_iff_hold wellFormed, ← liveClauses_ofFormula]
  exact descent.completes.hold

/-- A way down from the state that a search begins in gives values to exactly the
registered variables. -/
theorem covers {formula : Cnf} (wellFormed : formula.WellFormed)
    (descent : Descent (ofFormula formula) path last) :
    last.assignment.Covers formula.numVars := by
  intro var
  have initially : (ofFormula formula).assignment.value? var = _ :=
    Assignment.value?_uniform formula.numVars true var
  constructor
  · intro given
    by_contra unregistered
    have absent : var ∉ Clauses.vars (ofFormula formula).liveClauses := by
      rw [liveClauses_ofFormula]
      exact fun occurs => unregistered (wellFormed.of_mem_vars occurs)
    rw [descent.completes.elsewhere var absent, initially, if_neg unregistered] at given
    cases given
  · intro registered
    rw [if_pos registered] at initially
    rw [descent.value?_eq]
    exact isSome_overwritten (Option.isSome_iff_exists.mpr ⟨true, initially⟩) _

end Descent

/-! ## Searches -/

section Subtree

variable {policy : Policy σ} {valid : σ → Prop} {alarm : Alarm} {frames depth : Nat}
  {run after : Run σ} {ending : Ending}

/-- A search never leaves the valid memories. -/
theorem Explores.valid_memory {numVars : Nat} (registers : policy.ProposesRegistered numVars valid)
    (explores : Explores policy alarm frames depth run ending after)
    (isOver : run.state.remaining.Over numVars) (starts : valid run.memory) :
    valid after.memory := by
  induction explores with
  | nestingLimit | deadline | satisfied | conflict | policyFault => exact starts
  | forced _ made _ _ ih | forcedBack _ made _ _ ih => exact ih (made.over isOver) starts
  | noCandidate _ silent => exact registers.keeps isOver starts silent
  | notAVariable _ proposed => exact registers.keeps isOver starts proposed
  | decided decides made _ _ ih =>
      exact ih (made.over isOver) (registers.keeps isOver starts decides.proposed)
  | decidedSecond decides made _ undone madeOpposite _ _ firstIh secondIh
  | bothBack decides made _ undone madeOpposite _ _ firstIh secondIh =>
      have failed := firstIh (made.over isOver) (registers.keeps isOver starts decides.proposed)
      exact secondIh (madeOpposite.over (undone.over isOver)) failed

/-- What a satisfied search adds to what stands is a way down. -/
theorem Explores.exists_descent (honours : policy.Honours valid)
    (explores : Explores policy alarm frames depth run ending after)
    (satisfied : ending = .satisfied) (registered : run.state.remaining.Registered)
    (starts : valid run.memory) (shallow : Shallow depth (standing run.latestFirst)) :
    ∃ path, standing after.latestFirst = path ++ standing run.latestFirst ∧
      Descent run.state path after.state := by
  induction explores with
  | nestingLimit | deadline | conflict | forcedBack | policyFault | noCandidate
  | notAVariable | bothBack => cases satisfied
  | satisfied _ solved => exact ⟨[], rfl, .arrived solved⟩
  | @forced _ depth _ _ literal _ _ _ forces made _ _ ih =>
      obtain ⟨path, stands, rest⟩ :=
        ih satisfied (made.registered registered) starts (shallow.cons literal.choice)
      refine ⟨path ++ [(literal.choice, depth)], ?_, .down depth forces.occurs made rest⟩
      rw [List.append_assoc]
      exact stands
  | @decided _ depth _ _ literal _ _ _ decides made _ _ ih =>
      have proposed := honours.keeps registered starts decides.proposed
      obtain ⟨path, stands, rest⟩ :=
        ih satisfied (made.registered registered) proposed (shallow.deeper.cons literal.choice)
      have occurs := honours.occurs registered starts decides.proposed
      refine ⟨path ++ [(literal.choice, depth + 1)], ?_, .down (depth + 1) occurs made rest⟩
      rw [List.append_assoc]
      exact stands
  | @decidedSecond _ depth run middle _ literal _ _ restored _ _ decides firstMade first undone made
      _ _ _ ih =>
      obtain ⟨forced, stood, deep⟩ :=
        first.exists_forced rfl (shallow.deeper.cons literal.choice)
      have between : standing (middle.leftAgain literal.choice (depth + 1) restored).latestFirst =
          standing run.latestFirst :=
        standing_leftAgain stood deep shallow literal.choice restored
      have shallowBetween := between.symm ▸ shallow
      have registeredAgain := undone.registered registered
      have failed := first.valid_memory (honours.proposesRegistered _)
        ⟨rfl, firstMade.registered registered⟩ (honours.keeps registered starts decides.proposed)
      obtain ⟨path, stands, rest⟩ :=
        ih satisfied (made.registered registeredAgain) failed
          (shallowBetween.deeper.cons literal.negated.choice)
      have occurs : literal.var ∈ Clauses.vars restored.liveClauses := by
        rw [undone.liveClauses_eq]
        exact honours.occurs registered starts decides.proposed
      refine ⟨path ++ [(literal.negated.choice, depth + 1)], ?_,
        .again undone (.down (depth + 1) occurs made rest)⟩
      rw [List.append_assoc, ← between]
      exact stands

end Subtree

end Search

/-- What stands at the end of a satisfied search is a way down from the formula. -/
theorem Solver.descent_of_satisfied {σ : Type} {solver : Solver σ} {clock : Clock} {formula : Cnf}
    {valid : σ → Prop} (wellFormed : formula.WellFormed) (honours : solver.policy.Honours valid)
    (starts : valid solver.memory) (satisfied : (solver.search clock formula).1 = .satisfied) :
    Search.Descent (.ofFormula formula)
      (Search.standing (solver.search clock formula).2.latestFirst)
      (solver.search clock formula).2.state := by
  have explores := (explored_search solver clock formula).explores
  have registered := SearchState.registered_ofFormula wellFormed
  obtain ⟨path, stands, descent⟩ :=
    explores.exists_descent honours satisfied registered starts nofun
  rw [stands, Search.Run.start, Search.standing, List.append_nil]
  exact descent

/-- If a solver whose policy keeps to what remains gives a model, the model makes the
formula true, says something about the registered variables and no others, and can
be read by name. What was decided or propagated on the path of the search holds in
it, and any other variable, such as one that occurs in no clause, is true. -/
theorem Solver.solve_sound {σ : Type} {formula : Cnf} (obtained : Obtainable formula)
    (solver : Solver σ) (valid : σ → Prop) (honours : solver.policy.Honours valid)
    (starts : valid solver.memory) (clock : Clock) {model : Assignment}
    (answered : (solver.solve clock formula).1.answer = .ok (some model)) :
    formula.evaluate model = true ∧
      model.Covers formula.numVars ∧
      (∃ named, model.toNamed formula.registry = .ok named ∧
        (named.map Prod.fst).Perm formula.registry.names) ∧
      (∀ choice ∈ (solver.solve clock formula).1.path,
        model.value? choice.var = some choice.value) ∧
      (∀ var, 0 < var → var ≤ formula.numVars →
        var ∉ (solver.solve clock formula).1.path.map Choice.var →
          model.value? var = some true) ∧
      (∀ var, 0 < var → var ≤ formula.numVars →
        (∀ clause ∈ formula.clauses, ∀ literal ∈ clause.literals, literal.var ≠ var) →
          model.value? var = some true) := by
  obtain ⟨satisfied, rfl⟩ := search_of_some answered
  have descent := descent_of_satisfied obtained.wellFormed honours starts satisfied
  have path_eq : (solver.solve clock formula).1.path =
      (Search.standing (solver.search clock formula).2.latestFirst).map Prod.fst := by
    rw [Report.path, solve_eq (deadlineFits_of_answer answered), Search.Run.events,
      List.reverse_reverse]
  have covers := descent.covers obtained.wellFormed
  have initially (var : Nat) (positive : 0 < var) (registered : var ≤ formula.numVars) :
      (SearchState.ofFormula formula).assignment.value? var = some true :=
    (Assignment.value?_uniform _ _ _).trans (if_pos ⟨positive, registered⟩)
  rw [path_eq]
  refine ⟨descent.evaluate obtained.wellFormed, covers, ?_, List.forall_mem_map.mpr descent.holds,
    ?_, ?_⟩
  · obtain ⟨named, read, names, _⟩ := Assignment.exists_toNamed_eq_ok covers
    exact ⟨named, read, names⟩
  · intro var positive registered untouched
    rw [descent.value?_eq, Search.overwritten_of_not_mem untouched]
    exact initially var positive registered
  · intro var positive registered nowhere
    rw [descent.completes.elsewhere var ?_]
    · exact initially var positive registered
    · rw [SearchState.liveClauses_ofFormula, Clauses.mem_vars]
      rintro ⟨_, member, literal, inside, same⟩
      obtain ⟨clause, there, rfl⟩ := List.mem_map.mp member
      exact nowhere clause there literal inside same

/-- A clause over two of three variables. -/
def oneClause : Cnf :=
  ⟨[⟨.disj, [⟨1, false, by decide⟩, ⟨2, true, by decide⟩]⟩], ⟨["a", "b", "c"]⟩⟩

theorem obtainable_oneClause : Obtainable oneClause := by
  have whole : Obtainable (.ofNamed [[("a", false), ("b", true)], [("c", true)]] : Cnf) :=
    .addClauses [["¬a", "b"], ["c"]] .empty rfl
  exact @Obtainable.reduce _ _ (Assignment.empty.assign 3 true) whole rfl

theorem solve_sound_oneClause :
    let solver : Solver Generator := ⟨Selection.naive.policy, ⟨0⟩, none, 0⟩
    let model : Assignment := ⟨[none, some false, some true, some true]⟩
    (solver.solve .still oneClause).1.answer = .ok (some model) ∧
      oneClause.evaluate model = true ∧ model.Covers 3 ∧ model.value? 3 = some true := by
  intro solver model
  have answered : (solver.solve .still oneClause).1.answer = .ok (some model) := rfl
  obtain ⟨holds, covers, _, _, _, elsewhere⟩ := Solver.solve_sound obtainable_oneClause solver
    (fun _ => True) Selection.naive.honours trivial .still answered
  have nowhere : ∀ clause ∈ oneClause.clauses, ∀ literal ∈ clause.literals, literal.var ≠ 3 := by
    decide
  exact ⟨answered, holds, covers, elsewhere 3 (by decide) (by decide) nowhere⟩

end ChronoSat
