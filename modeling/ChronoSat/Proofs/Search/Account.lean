/-
# What an account leaves standing

The account of a search lists what was tried, in order. A value that was taken back
takes with it whatever was made true at its depth or deeper, and what is left
standing is the way from the root to where the search is. This is read off the
events alone: a subtree that failed leaves nothing standing once the value it was
explored below is taken back.
-/

import ChronoSat.Proofs.Search.Exploration

namespace ChronoSat.Search

variable {σ : Type}

/-- What a row of events, the latest first, leaves standing: the choices with the
depths they were made at. -/
def standing : List Event → List (Choice × Nat)
  | [] => []
  | .conflict _ :: earlier => standing earlier
  | .propagate literal depth _ :: earlier => (literal.choice, depth) :: standing earlier
  | .decide choice depth _ :: earlier => (choice, depth) :: standing earlier
  | .backtrack _ depth :: earlier => (standing earlier).filter fun entry => entry.2 < depth

/-- Nothing standing is deeper than the node. -/
def Shallow (depth : Nat) (entries : List (Choice × Nat)) : Prop :=
  ∀ entry ∈ entries, entry.2 ≤ depth

theorem Shallow.cons {depth : Nat} {entries : List (Choice × Nat)} (choice : Choice)
    (shallow : Shallow depth entries) : Shallow depth ((choice, depth) :: entries) :=
  List.forall_mem_cons.mpr ⟨Nat.le_refl depth, shallow⟩

theorem Shallow.deeper {depth : Nat} {entries : List (Choice × Nat)}
    (shallow : Shallow depth entries) : Shallow (depth + 1) entries :=
  fun entry member => Nat.le_succ_of_le (shallow entry member)

/-- Taking a value back leaves what stood before it was tried. -/
theorem standing_leftAgain {run : Run σ} {depth : Nat} {entries forced : List (Choice × Nat)}
    {tried : Choice} (stands : standing run.latestFirst = forced ++ (tried, depth + 1) :: entries)
    (deep : ∀ entry ∈ forced, depth + 1 ≤ entry.2) (shallow : Shallow depth entries)
    (choice : Choice) (restored : SearchState) :
    standing (run.leftAgain choice (depth + 1) restored).latestFirst = entries := by
  have dropped : forced.filter (fun entry => entry.2 < depth + 1) = [] := by
    rw [List.filter_eq_nil_iff]
    intro entry member
    simpa using deep entry member
  have kept : entries.filter (fun entry => entry.2 < depth + 1) = entries := by
    rw [List.filter_eq_self]
    intro entry member
    exact decide_eq_true (Nat.lt_succ_of_le (shallow entry member))
  rw [Run.leftAgain, Run.noteBacktrack, standing, stands, List.filter_append, dropped,
    List.filter_cons_of_neg (by simp), kept, List.nil_append]

section Subtree

variable {policy : Policy σ} {alarm : Alarm} {frames depth : Nat} {run after : Run σ}
  {ending : Ending}

/-- A subtree that holds no model leaves standing only what it was forced to at its
own depth or deeper. -/
theorem Explores.exists_forced (explores : Explores policy alarm frames depth run ending after)
    (exhausted : ending = .exhausted) (shallow : Shallow depth (standing run.latestFirst)) :
    ∃ forced, standing after.latestFirst = forced ++ standing run.latestFirst ∧
      ∀ entry ∈ forced, depth ≤ entry.2 := by
  induction explores with
  | nestingLimit | deadline | satisfied | policyFault | noCandidate | notAVariable =>
      cases exhausted
  | forced _ _ _ kept | decided _ _ _ kept | decidedSecond _ _ _ _ _ _ kept =>
      exact absurd exhausted kept
  | conflict => exact ⟨[], rfl, nofun⟩
  | @forcedBack _ depth run _ literal _ _ _ _ _ _ _ ih =>
      obtain ⟨forced, stands, deep⟩ := ih rfl (shallow.cons literal.choice)
      refine ⟨forced ++ [(literal.choice, depth)], ?_, ?_⟩
      · rw [List.append_assoc]
        exact stands
      · rw [List.forall_mem_append, List.forall_mem_singleton]
        exact ⟨deep, Nat.le_refl depth⟩
  | @bothBack _ depth run middle after literal _ _ restored _ last _ _ _ _ _ _ _ firstIh secondIh =>
      obtain ⟨forced, stands, deep⟩ := firstIh rfl (shallow.deeper.cons literal.choice)
      have between := standing_leftAgain stands deep shallow literal.choice restored
      have shallowBetween := between.symm ▸ shallow
      obtain ⟨forcedAgain, standsAgain, deepAgain⟩ :=
        secondIh rfl (shallowBetween.deeper.cons literal.negated.choice)
      have leaves := standing_leftAgain standsAgain deepAgain shallowBetween
        literal.negated.choice last
      exact ⟨[], leaves.trans between, nofun⟩

end Subtree

end ChronoSat.Search
