/-
# What a branching policy promises

A policy that keeps to what remains proposes variables of clauses that are open.
Which value it tries first is its own affair, and so is what it remembers, so the
promise is made for the memories of a set that no proposal leaves; a policy that
keeps its promise whatever it remembers makes it for the set of all memories. It is
asked only about clauses over registered variables, and promises nothing for others.

The weaker promise is to propose registered variables, whether they occur in an open clause
or not. It is what keeps the assignment of a search as long as it was.
-/

import ChronoSat.Branching
import ChronoSat.Proofs.Formula.Evaluation
import ChronoSat.Proofs.State.Reachable

namespace ChronoSat

variable {σ : Type}

/-- The variables that remain have names. -/
def Remaining.Registered (remaining : Remaining) : Prop :=
  ∀ var ∈ Clauses.vars remaining.clauses, var ≤ remaining.numVars

theorem Remaining.Registered.var_le {remaining : Remaining} (registered : remaining.Registered)
    {clause : List Literal} {literal : Literal} (there : clause ∈ remaining.clauses)
    (inside : literal ∈ clause) : literal.var ≤ remaining.numVars :=
  registered literal.var (Clauses.mem_vars.mpr ⟨clause, there, literal, inside, rfl⟩)

instance (remaining : Remaining) : Decidable remaining.Registered :=
  inferInstanceAs (Decidable (∀ var ∈ Clauses.vars remaining.clauses, var ≤ remaining.numVars))

/-- Starting from a valid memory, a policy proposes only variables of remaining
clauses. -/
structure Policy.Honours (policy : Policy σ) (valid : σ → Prop) : Prop where
  occurs : ∀ {remaining : Remaining} {memory later : σ} {choice : Choice},
    remaining.Registered → valid memory →
      policy.propose remaining memory = .ok (some choice, later) →
        choice.var ∈ Clauses.vars remaining.clauses
  keeps : ∀ {remaining : Remaining} {memory later : σ} {answer : Option Choice},
    remaining.Registered → valid memory →
      policy.propose remaining memory = .ok (answer, later) → valid later

/-- What remains is over so many variables, all of them with names. -/
structure Remaining.Over (remaining : Remaining) (numVars : Nat) : Prop where
  numVars_eq : remaining.numVars = numVars
  registered : remaining.Registered

theorem Remaining.Over.le_of_mem_vars {remaining : Remaining} {numVars var : Nat}
    (isOver : remaining.Over numVars) (occurs : var ∈ Clauses.vars remaining.clauses) :
    var ≤ numVars :=
  (isOver.registered var occurs).trans_eq isOver.numVars_eq

/-- Starting from a valid memory, a policy proposes only registered variables when so
many are registered. -/
structure Policy.ProposesRegistered (policy : Policy σ) (numVars : Nat) (valid : σ → Prop) :
    Prop where
  registered : ∀ {remaining : Remaining} {memory later : σ} {choice : Choice},
    remaining.Over numVars → valid memory →
      policy.propose remaining memory = .ok (some choice, later) →
        0 < choice.var ∧ choice.var ≤ numVars
  keeps : ∀ {remaining : Remaining} {memory later : σ} {answer : Option Choice},
    remaining.Over numVars → valid memory →
      policy.propose remaining memory = .ok (answer, later) → valid later

/-- A script proposes registered variables if it has no others. -/
theorem Policy.scripted_proposesRegistered (numVars : Nat) :
    Policy.scripted.ProposesRegistered numVars fun script =>
      ∀ choice ∈ script, 0 < choice.var ∧ choice.var ≤ numVars where
  registered := by
    rintro remaining script later choice _ named proposed
    cases script with
    | nil => cases proposed
    | cons first rest =>
        cases proposed
        exact named choice (List.mem_cons_self ..)
  keeps := by
    rintro remaining script later answer _ named answered
    cases answered
    exact fun choice member => named choice (List.mem_of_mem_tail member)

/-- A policy that keeps to what remains proposes registered variables. -/
theorem Policy.Honours.proposesRegistered {policy : Policy σ} {valid : σ → Prop}
    (honours : policy.Honours valid) (numVars : Nat) : policy.ProposesRegistered numVars valid where
  registered := by
    intro remaining memory later choice isOver isValid proposed
    have occurs := honours.occurs isOver.registered isValid proposed
    obtain ⟨_, _, literal, _, same⟩ := Clauses.mem_vars.mp occurs
    exact ⟨same ▸ literal.var_pos, isOver.le_of_mem_vars occurs⟩
  keeps := by
    intro remaining memory later answer isOver isValid answered
    exact honours.keeps isOver.registered isValid answered

/-! ## What a search asks about -/

namespace SearchState

variable {above next : SearchState}

theorem registered_ofFormula {formula : Cnf} (wellFormed : formula.WellFormed) :
    (ofFormula formula).remaining.Registered := by
  intro var occurs
  rw [remaining, liveClauses_ofFormula] at occurs
  exact (wellFormed.of_mem_vars occurs).2

theorem mentions_of_mem_liveClauses {state : SearchState} {clause : List Literal}
    {literal : Literal} (member : clause ∈ state.liveClauses) (inside : literal ∈ clause) :
    state.contents.Mentions literal := by
  obtain ⟨working, kept, rfl⟩ := List.mem_map.mp member
  exact ⟨working, List.mem_of_mem_filter kept, inside⟩

theorem mentions_ofFormula {formula : Cnf} {literal : Literal} :
    (ofFormula formula).contents.Mentions literal ↔
      ∃ clause ∈ formula.clauses, literal ∈ clause.literals := by
  simp [contents, ofFormula, Contents.Mentions]

/-- Whatever was done, the literals that are left stand in the formula. -/
theorem Reachable.registered {formula : Cnf} {state : SearchState}
    (wellFormed : formula.WellFormed) (reachable : Reachable formula state) :
    state.remaining.Registered := by
  obtain ⟨_, numVars_eq, _, _, history⟩ := reachable.coherent_and_descends
  intro var occurs
  obtain ⟨left, member, literal, inside, rfl⟩ := Clauses.mem_vars.mp occurs
  obtain ⟨clause, there, inClause⟩ :=
    mentions_ofFormula.mp (history.mentions (mentions_of_mem_liveClauses member inside))
  exact (wellFormed.var_le clause there literal inClause).trans_eq numVars_eq.symm

theorem Makes.registered {literal : Literal} (made : Makes literal above next)
    (registered : above.remaining.Registered) : next.remaining.Registered := by
  intro var occurs
  rw [remaining, made.liveClauses_eq] at occurs
  exact le_of_le_of_eq (registered var (Clauses.mem_vars_of_mem_reduced occurs))
    made.descends.1.symm

theorem Restores.registered {restored below : SearchState}
    (restores : restored.Restores above below) (registered : above.remaining.Registered) :
    restored.remaining.Registered := by
  intro var occurs
  rw [remaining, restores.liveClauses_eq] at occurs
  exact le_of_le_of_eq (registered var occurs) restores.numVars_eq.symm

theorem Makes.over {literal : Literal} {numVars : Nat} (made : Makes literal above next)
    (isOver : above.remaining.Over numVars) : next.remaining.Over numVars :=
  ⟨made.descends.1.trans isOver.numVars_eq, made.registered isOver.registered⟩

theorem Restores.over {restored below : SearchState} {numVars : Nat}
    (restores : restored.Restores above below) (isOver : above.remaining.Over numVars) :
    restored.remaining.Over numVars :=
  ⟨restores.numVars_eq.trans isOver.numVars_eq, restores.registered isOver.registered⟩

end SearchState

end ChronoSat
