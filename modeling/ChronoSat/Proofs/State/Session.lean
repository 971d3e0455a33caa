/-
# Working states as reduced formulas

In orderly use, checkpoints are gone back to as they were nested: going back to one ends
those taken after it, which are not gone back to any more. A session is a working state in
such use, together with the literals that still stand and the checkpoints that are still
in force.

The open clauses of a session are the clauses of the formula reduced by an assignment, in
their order and with their literals in order. The assignment gives every variable the
value that it was given first, of what stands. Giving it another value later changes
what the state says of the variable and no clause, because no open clause has the variable
any more.

Going back takes away what was made true since, also when nothing else in the state tells
the two situations apart, so what stands is kept along with each checkpoint.
-/

import ChronoSat.Proofs.Search.ByValue
import ChronoSat.Proofs.State.Reachable

namespace ChronoSat

/-- A working state in use. -/
structure Session where
  state : SearchState
  /-- The literals that were made true and not taken back, in the order in which they
  were made true. -/
  standing : List Literal
  /-- The checkpoints that are in force, the latest first, with what stood when they were
  taken. -/
  inForce : List (Checkpoint × List Literal)

/-- The value that a row of literals gives a variable first. -/
def firstGiven (literals : List Literal) (var : Nat) : Option Bool :=
  (literals.find? fun literal => literal.var = var).map Literal.polarity

theorem firstGiven_cons (literal : Literal) (rest : List Literal) :
    firstGiven (literal :: rest) =
      Function.update (firstGiven rest) literal.var (some literal.polarity) := by
  funext var
  by_cases same : var = literal.var
  · simp [firstGiven, same]
  · simp [firstGiven, Function.update_of_ne same, List.find?_cons_of_neg, Ne.symm same]

theorem firstGiven_concat (literals : List Literal) (literal : Literal) :
    firstGiven (literals ++ [literal]) = Clauses.orElse (firstGiven literals) literal := by
  funext var
  rw [firstGiven, List.find?_append, Clauses.orElse, firstGiven]
  by_cases same : var = literal.var
  · subst same
    cases literals.find? fun other => other.var = literal.var <;> simp
  · cases literals.find? fun other => other.var = var <;> simp [same, Ne.symm same]

theorem exists_mem_of_firstGiven {literals : List Literal} {var : Nat} {value : Bool}
    (given : firstGiven literals var = some value) : ∃ literal ∈ literals, literal.var = var := by
  obtain ⟨literal, found, _⟩ := Option.map_eq_some_iff.mp given
  exact ⟨literal, List.mem_of_find?_eq_some found, by simpa using List.find?_some found⟩

theorem isSome_firstGiven {literals : List Literal} {var : Nat}
    (member : var ∈ literals.map Literal.var) : (firstGiven literals var).isSome = true := by
  obtain ⟨literal, inside, same⟩ := List.mem_map.mp member
  rw [firstGiven, Option.isSome_map, List.find?_isSome]
  exact ⟨literal, inside, decide_eq_true same⟩

/-- Some assignment gives every variable its first value. -/
theorem exists_value?_eq_firstGiven (literals : List Literal) :
    ∃ values : Assignment, values.value? = firstGiven literals := by
  induction literals with
  | nil => exact ⟨.empty, rfl⟩
  | cons literal rest ih =>
      obtain ⟨values, same⟩ := ih
      refine ⟨values.assign literal.var literal.polarity, ?_⟩
      rw [Assignment.value?_assign, same, firstGiven_cons]

namespace Session

open SearchState

/-- The sessions that come about in orderly use: literals that have opposites are made
true, whatever their variables, checkpoints are taken, and those in force are gone back
to. -/
inductive Orderly (formula : Cnf) : Session → Prop
  | start : Orderly formula ⟨.ofFormula formula, [], []⟩
  | assign {session : Session} {literal : Literal} {after : SearchState} {impact : Impact}
      (before : Orderly formula session) (inRange : literal.var ≤ Literal.maxVar)
      (made : session.state.assign literal = .ok (after, impact)) :
      Orderly formula ⟨after, session.standing ++ [literal], session.inForce⟩
  | checkpoint {session : Session} (before : Orderly formula session) :
      Orderly formula
        { session with
          inForce := (session.state.checkpoint, session.standing) :: session.inForce }
  | backtrack {state restored : SearchState} {standing stood : List Literal}
      {mark : Checkpoint} {later earlier : List (Checkpoint × List Literal)}
      (before : Orderly formula ⟨state, standing, later ++ (mark, stood) :: earlier⟩)
      (undone : state.backtrack mark = .ok restored) :
      Orderly formula ⟨restored, stood, (mark, stood) :: earlier⟩

/-! ## What stands determines the clauses -/

/-- The open clauses are what the first values of what stands leave of a formula. -/
structure Reflects (formula : Cnf) (standing : List Literal) (state : SearchState) : Prop where
  liveClauses_eq : state.liveClauses =
    Clauses.reducedUnder (firstGiven standing) (formula.clauses.map Clause.literals)
  inRange : ∀ literal ∈ standing, literal.var ≤ Literal.maxVar

namespace Reflects

variable {formula : Cnf} {standing : List Literal} {state after restored below : SearchState}
  {literal : Literal}

theorem ofFormula (formula : Cnf) : Reflects formula [] (.ofFormula formula) where
  liveClauses_eq := by
    rw [liveClauses_ofFormula]
    exact (Clauses.reducedUnder_none _).symm
  inRange := nofun

theorem of_makes (reflects : Reflects formula standing state) (made : Makes literal state after)
    (inRange : literal.var ≤ Literal.maxVar) :
    Reflects formula (standing ++ [literal]) after where
  liveClauses_eq := by
    rw [made.liveClauses_eq, reflects.liveClauses_eq, firstGiven_concat,
      Clauses.reduced_reducedUnder]
  inRange := by
    rw [List.forall_mem_append, List.forall_mem_singleton]
    exact ⟨reflects.inRange, inRange⟩

theorem of_restores (reflects : Reflects formula standing state)
    (restores : restored.Restores state below) : Reflects formula standing restored :=
  ⟨restores.liveClauses_eq.trans reflects.liveClauses_eq, reflects.inRange⟩

/-- Giving a value to a variable that was given one leaves the open clauses alone. -/
theorem liveClauses_of_makes (reflects : Reflects formula standing state)
    (made : Makes literal state after) (given : literal.var ∈ standing.map Literal.var) :
    after.liveClauses = state.liveClauses := by
  rw [made.liveClauses_eq, reflects.liveClauses_eq, Clauses.reduced_reducedUnder,
    Clauses.orElse_of_isSome (isSome_firstGiven given)]

/-- The state reads as the formula reduced by any assignment that says what was given
first. -/
theorem exists_reduce (reflects : Reflects formula standing state) {values : Assignment}
    (first : values.value? = firstGiven standing) :
    ∃ reduced, formula.reduce values = .ok reduced ∧
      state.liveClauses = reduced.clauses.map Clause.literals ∧
      state.firstUnit = reduced.firstUnit := by
  have known (var : Nat) (value : Bool) (said : values.value? var = some value) :
      0 < var ∧ var ≤ Literal.maxVar := by
    rw [first] at said
    obtain ⟨literal, member, rfl⟩ := exists_mem_of_firstGiven said
    exact ⟨literal.var_pos, reflects.inRange literal member⟩
  obtain ⟨reduced, applied, _, clauses⟩ := formula.exists_reduce known
  have same : state.liveClauses = reduced.clauses.map Clause.literals := by
    rw [clauses, first, reflects.liveClauses_eq]
  refine ⟨reduced, applied, same, ?_⟩
  rw [firstUnit_eq_findSome?, same, Formula.firstUnit_eq_findSome?]

end Reflects

/-! ## Checkpoints in force -/

/-- Each checkpoint in force was taken in a state from which all later ones were reached,
and that state reflected what stood. -/
inductive Grounded (formula : Cnf) : SearchState → List (Checkpoint × List Literal) → Prop
  | none {state : SearchState} : Grounded formula state []
  | taken {above state : SearchState} {stood : List Literal}
      {earlier : List (Checkpoint × List Literal)} (descends : Descends above state)
      (reflects : Reflects formula stood above) (rest : Grounded formula above earlier) :
      Grounded formula state ((above.checkpoint, stood) :: earlier)

namespace Grounded

variable {formula : Cnf} {above below state : SearchState} {mark : Checkpoint}
  {stood : List Literal} {later earlier : List (Checkpoint × List Literal)}

theorem of_descends (grounded : Grounded formula above earlier) (descends : Descends above below) :
    Grounded formula below earlier := by
  cases grounded with
  | none => exact .none
  | taken fromFirst reflects rest => exact .taken (fromFirst.trans descends) reflects rest

/-- The state in which a checkpoint in force was taken. -/
theorem exists_above (grounded : Grounded formula state (later ++ (mark, stood) :: earlier)) :
    ∃ above, mark = above.checkpoint ∧ Descends above state ∧ Reflects formula stood above ∧
      Grounded formula above earlier := by
  induction later generalizing state with
  | nil =>
      cases grounded with
      | taken descends reflects rest => exact ⟨_, rfl, descends, reflects, rest⟩
  | cons _ _ ih =>
      cases grounded with
      | taken descends _ rest =>
          obtain ⟨above, same, fromAbove, reflects, others⟩ := ih rest
          exact ⟨above, same, fromAbove.trans descends, reflects, others⟩

end Grounded

/-! ## Orderly use -/

/-- What orderly use keeps. -/
structure Sound (formula : Cnf) (session : Session) : Prop where
  coherent : session.state.Coherent
  reflects : Reflects formula session.standing session.state
  grounded : Grounded formula session.state session.inForce

/-- Going back to a checkpoint in force finds the state again in which it was taken. -/
theorem Sound.exists_backtrack {formula : Cnf} {state : SearchState} {standing stood : List Literal}
    {mark : Checkpoint} {later earlier : List (Checkpoint × List Literal)}
    (sound : Sound formula ⟨state, standing, later ++ (mark, stood) :: earlier⟩) :
    ∃ restored, state.backtrack mark = .ok restored ∧
      Sound formula ⟨restored, stood, (mark, stood) :: earlier⟩ := by
  obtain ⟨above, same, descends, reflects, rest⟩ := sound.grounded.exists_above
  obtain ⟨restored, undone, restores⟩ := descends.exists_backtrack sound.coherent
  subst same
  exact ⟨restored, undone, restores.coherent, reflects.of_restores restores,
    .taken restores.descends reflects rest⟩

theorem Orderly.sound {formula : Cnf} {session : Session} (orderly : Orderly formula session) :
    Sound formula session := by
  induction orderly with
  | start => exact ⟨coherent_ofFormula formula, .ofFormula formula, .none⟩
  | assign _ inRange made ih =>
      have makes := makes_of_assign _ ih.coherent made
      exact ⟨makes.coherent, ih.reflects.of_makes makes inRange,
        ih.grounded.of_descends makes.descends⟩
  | checkpoint _ ih => exact ⟨ih.coherent, ih.reflects, .taken (.refl _) ih.reflects ih.grounded⟩
  | backtrack _ undone ih =>
      obtain ⟨next, ran, sound⟩ := ih.exists_backtrack
      cases undone.symm.trans ran
      exact sound

/-- In orderly use a working state is its formula, reduced by the first values of what
stands: the open clauses are the reduced clauses, and the first unit is the first reduced
one. Making a literal true does not fail. It reports how many of the open clauses it
drops and how many literals it strikes from the others, the trail becomes longer by that
many steps and one, and the variable has the new value; if the variable had been given one
before, no clause changes. Every checkpoint in force can be gone back to. -/
theorem liveClauses_eq_reduce {formula : Cnf} {session : Session}
    (orderly : Orderly formula session) :
    (∃ values : Assignment, values.value? = firstGiven session.standing) ∧
      (∀ values : Assignment, values.value? = firstGiven session.standing →
        ∃ reduced, formula.reduce values = .ok reduced ∧
          session.state.liveClauses = reduced.clauses.map Clause.literals ∧
          session.state.firstUnit = reduced.firstUnit) ∧
      (∀ literal : Literal, ∃ after impact,
        session.state.assign literal = .ok (after, impact) ∧
          impact = Clauses.impact literal session.state.liveClauses ∧
          after.liveClauses = Clauses.reduced literal session.state.liveClauses ∧
          after.trail.size = session.state.trail.size + 1 + impact.satisfied + impact.struck ∧
          after.assignment.value? = Function.update session.state.assignment.value? literal.var
            (some literal.polarity) ∧
          (literal.var ∈ session.standing.map Literal.var →
            after.liveClauses = session.state.liveClauses)) ∧
      ∀ entry ∈ session.inForce, ∃ restored,
        session.state.backtrack entry.1 = .ok restored := by
  obtain ⟨coherent, reflects, grounded⟩ := orderly.sound
  refine ⟨exists_value?_eq_firstGiven _, fun _ first => reflects.exists_reduce first, ?_, ?_⟩
  · intro literal
    obtain ⟨after, impact, assigned, makes⟩ := exists_assign literal coherent
    obtain ⟨reported, recorded⟩ := impact_of_assign literal assigned
    exact ⟨after, impact, assigned, reported, makes.liveClauses_eq, recorded, makes.value?_eq,
      reflects.liveClauses_of_makes makes⟩
  · rintro ⟨mark, stood⟩ member
    obtain ⟨later, earlier, split⟩ := List.append_of_mem member
    rw [split] at grounded
    obtain ⟨above, same, descends, _⟩ := grounded.exists_above
    obtain ⟨restored, undone, _⟩ := descends.exists_backtrack coherent
    exact ⟨restored, same ▸ undone⟩

/-- A clause with opposite literals, one with a literal twice, and a unit. -/
def tautologous : Cnf :=
  .ofNamed [[("a", true), ("b", true), ("a", false)],
    [("b", true), ("a", false), ("b", true), ("c", false)], [("c", true)]]

/-- Of the two values that the first variable was given the clauses go by the first one,
and the state says the other one. The last literal is over a variable without a name. -/
theorem liveClauses_eq_reduce_tautologous :
    let values : Assignment := (Assignment.empty.assign 9 false).assign 1 true
    ∃ session reduced, Orderly tautologous session ∧
      session.standing = [⟨1, true, by decide⟩, ⟨1, false, by decide⟩, ⟨9, false, by decide⟩] ∧
      session.state.assignment.value? 1 = some false ∧
      tautologous.reduce values = .ok reduced ∧
      session.state.liveClauses = reduced.clauses.map Clause.literals ∧
      reduced.firstUnit = some ⟨3, true, by decide⟩ := by
  intro values
  have given := @Orderly.assign tautologous _ ⟨1, true, by decide⟩ _ _ .start (by decide) rfl
  have tried := @Orderly.assign _ _ ⟨2, false, by decide⟩ _ _ given.checkpoint (by decide) rfl
  have takenBack := @Orderly.backtrack _ _ _ _ _ _ [] [] tried rfl
  have again := @Orderly.assign _ _ ⟨1, false, by decide⟩ _ _ takenBack (by decide) rfl
  have nameless := @Orderly.assign _ _ ⟨9, false, by decide⟩ _ _ again (by decide) rfl
  have first : values.value? = firstGiven
      [⟨1, true, by decide⟩, ⟨1, false, by decide⟩, ⟨9, false, by decide⟩] := by
    rw [Assignment.value?_assign, Assignment.value?_assign, firstGiven_cons, firstGiven_cons,
      firstGiven_cons, Function.update_idem]
    rfl
  obtain ⟨_, reads, _⟩ := liveClauses_eq_reduce nameless
  obtain ⟨reduced, applied, clauses, unit⟩ := reads values first
  exact ⟨_, reduced, nameless, rfl, rfl, applied, clauses, unit.symm⟩

end Session

end ChronoSat
