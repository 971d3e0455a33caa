/-
# Making a literal true in a row of clauses

At every node a search looks at a row of clauses, each a row of literals. Making
a literal true drops the clauses that contain it and strikes its opposite from
the others. What matters about this step is said here for plain rows: it loses no
way of satisfying the clauses that makes the literal true, whatever satisfies the
rest satisfies all together with the literal, and the literal's variable is gone
afterwards.

Several values can also be applied at once, of which making a literal true is the
case of one value. Applying values and then others is applying them together, and
what is left has no variable with a value and asks for what the values leave open.

Values may be partial throughout: a clause holds if one of its literals has a
value that makes it true, and a number without a value makes no literal true.
-/

import ChronoSat.SearchState
import Mathlib.Data.Finset.Card
import Mathlib.Logic.Function.Basic

namespace ChronoSat.Clauses

/-- What making a literal true leaves of a row of clauses. -/
def reduced (literal : Literal) (clauses : List (List Literal)) : List (List Literal) :=
  (clauses.filter fun clause => literal ∉ clause).map fun clause =>
    clause.filter fun other => other ≠ literal.negated

/-- How much making a literal true changes in a row of clauses: how many it drops, and how
many occurrences of the opposite literal it strikes from those it keeps. -/
def impact (literal : Literal) (clauses : List (List Literal)) : Impact where
  satisfied := clauses.countP fun clause => literal ∈ clause
  struck := (clauses.filter fun clause => literal ∉ clause).flatten.count literal.negated

/-- Every clause has a literal that the values make true. -/
def Hold (values : Nat → Option Bool) (clauses : List (List Literal)) : Prop :=
  ∀ clause ∈ clauses, ∃ literal ∈ clause, values literal.var = some literal.polarity

/-- No values, partial or not, make every clause hold. -/
def Unsatisfiable (clauses : List (List Literal)) : Prop :=
  ∀ values, ¬ Hold values clauses

/-- The variables that occur in a row of clauses. -/
def vars (clauses : List (List Literal)) : Finset Nat :=
  (clauses.flatten.map Literal.var).toFinset

variable {values total : Nat → Option Bool} {literal : Literal} {clauses : List (List Literal)}

theorem mem_reduced {clause : List Literal} :
    clause ∈ reduced literal clauses ↔
      ∃ whole ∈ clauses, literal ∉ whole ∧
        whole.filter (fun other => other ≠ literal.negated) = clause := by
  simp only [reduced, List.mem_map, List.mem_filter, decide_eq_true_eq, and_assoc]

theorem reduced_append (literal : Literal) (front back : List (List Literal)) :
    reduced literal (front ++ back) = reduced literal front ++ reduced literal back := by
  simp only [reduced, List.filter_append, List.map_append]

theorem impact_append (literal : Literal) (front back : List (List Literal)) :
    impact literal (front ++ back) =
      ⟨(impact literal front).satisfied + (impact literal back).satisfied,
        (impact literal front).struck + (impact literal back).struck⟩ := by
  simp [impact]

theorem mem_vars {var : Nat} :
    var ∈ vars clauses ↔ ∃ clause ∈ clauses, ∃ literal ∈ clause, literal.var = var := by
  simp only [vars, List.mem_toFinset, List.mem_map, List.mem_flatten]
  constructor
  · rintro ⟨literal, ⟨clause, member, inside⟩, same⟩
    exact ⟨clause, member, literal, inside, same⟩
  · rintro ⟨clause, member, literal, inside, same⟩
    exact ⟨literal, ⟨clause, member, inside⟩, same⟩

/-- A literal over the variable of another one is that literal or its opposite. -/
theorem eq_or_eq_negated {other : Literal} (same : other.var = literal.var) :
    other = literal ∨ other = literal.negated := by
  obtain ⟨var, polarity, positive⟩ := literal
  obtain ⟨otherVar, otherPolarity, otherPositive⟩ := other
  cases same
  cases polarity <;> cases otherPolarity <;> simp [Literal.negated]

/-! ## Values that satisfy the clauses -/

theorem Hold.of_reduced (made : values literal.var = some literal.polarity)
    (rest : Hold values (reduced literal clauses)) : Hold values clauses := by
  intro clause member
  by_cases inside : literal ∈ clause
  · exact ⟨literal, inside, made⟩
  · obtain ⟨other, kept, holds⟩ := rest _ (mem_reduced.mpr ⟨clause, member, inside, rfl⟩)
    exact ⟨other, List.mem_of_mem_filter kept, holds⟩

theorem Hold.reduced (made : values literal.var = some literal.polarity)
    (all : Hold values clauses) : Hold values (reduced literal clauses) := by
  intro clause member
  obtain ⟨whole, there, absent, same⟩ := mem_reduced.mp member
  obtain ⟨other, inside, holds⟩ := all whole there
  refine ⟨other, ?_, holds⟩
  rw [← same, List.mem_filter]
  refine ⟨inside, decide_eq_true ?_⟩
  intro opposite
  rw [opposite, Literal.negated_var, made, Literal.negated_polarity] at holds
  cases polarity : literal.polarity <;> simp [polarity] at holds

/-- Giving a value to a number that has none keeps the clauses true. -/
theorem Hold.update {var : Nat} (free : values var = none) (value : Bool)
    (all : Hold values clauses) :
    Hold (Function.update values var (some value)) clauses := by
  intro clause member
  obtain ⟨literal, inside, holds⟩ := all clause member
  refine ⟨literal, inside, ?_⟩
  have other : literal.var ≠ var := by
    rintro rfl
    rw [free] at holds
    cases holds
  rw [Function.update_of_ne other, holds]

theorem not_hold_of_nil_mem (empty : [] ∈ clauses) : ¬ Hold values clauses := by
  intro all
  obtain ⟨_, inside, _⟩ := all [] empty
  exact List.not_mem_nil inside

theorem hold_nil : Hold values [] :=
  nofun

/-- A unit clause is satisfied in one way only. -/
theorem Hold.unit (all : Hold values clauses) (unit : [literal] ∈ clauses) :
    values literal.var = some literal.polarity := by
  obtain ⟨other, inside, holds⟩ := all [literal] unit
  rwa [List.mem_singleton.mp inside] at holds

/-! ## Clauses that cannot be satisfied -/

theorem unsatisfiable_of_nil_mem (empty : [] ∈ clauses) : Unsatisfiable clauses :=
  fun _ => not_hold_of_nil_mem empty

theorem unsatisfiable_of_unit (unit : [literal] ∈ clauses)
    (rest : Unsatisfiable (reduced literal clauses)) : Unsatisfiable clauses :=
  fun values all => rest values (all.reduced (all.unit unit))

/-- The two values of a variable are all there is, whether or not it occurs. -/
theorem unsatisfiable_of_both (first : Unsatisfiable (reduced literal clauses))
    (second : Unsatisfiable (reduced literal.negated clauses)) : Unsatisfiable clauses := by
  intro values all
  cases given : values literal.var with
  | none =>
      apply first (Function.update values literal.var (some literal.polarity))
      exact (all.update given literal.polarity).reduced (Function.update_self ..)
  | some value =>
      by_cases agrees : value = literal.polarity
      · exact first values (all.reduced (agrees ▸ given))
      · apply second values
        apply all.reduced
        rw [Literal.negated_var, given, Literal.negated_polarity, Bool.eq_not.mpr agrees]

/-! ## Variables that are left -/

theorem var_mem_vars_of_unit (unit : [literal] ∈ clauses) : literal.var ∈ vars clauses :=
  mem_vars.mpr ⟨[literal], unit, literal, List.mem_singleton_self literal, rfl⟩

theorem vars_reduced_subset (literal : Literal) (clauses : List (List Literal)) :
    vars (reduced literal clauses) ⊆ (vars clauses).erase literal.var := by
  intro var member
  obtain ⟨clause, left, other, inside, same⟩ := mem_vars.mp member
  obtain ⟨whole, there, absent, rfl⟩ := mem_reduced.mp left
  obtain ⟨inWhole, kept⟩ := List.mem_filter.mp inside
  refine Finset.mem_erase.mpr ⟨?_, mem_vars.mpr ⟨whole, there, other, inWhole, same⟩⟩
  rintro rfl
  rcases eq_or_eq_negated same with equal | opposite
  · exact absent (equal ▸ inWhole)
  · exact of_decide_eq_true kept opposite

theorem var_not_mem_vars_reduced (literal : Literal) (clauses : List (List Literal)) :
    literal.var ∉ vars (reduced literal clauses) := fun member =>
  (Finset.mem_erase.mp (vars_reduced_subset literal clauses member)).1 rfl

theorem mem_vars_of_mem_reduced {var : Nat} (member : var ∈ vars (reduced literal clauses)) :
    var ∈ vars clauses :=
  Finset.mem_of_mem_erase (vars_reduced_subset literal clauses member)

/-- Making a literal true whose variable occurs leaves fewer variables. -/
theorem card_vars_reduced_lt (occurs : literal.var ∈ vars clauses) :
    (vars (reduced literal clauses)).card < (vars clauses).card :=
  Nat.lt_of_le_of_lt (Finset.card_le_card (vars_reduced_subset literal clauses))
    (Finset.card_erase_lt_of_mem occurs)

/-! ## Several values at once -/

/-- What values leave of a row of clauses: a clause with a literal that they make true is
dropped, and the literals that they make false are struck from the others. -/
def reducedUnder (values : Nat → Option Bool) (clauses : List (List Literal)) :
    List (List Literal) :=
  (clauses.filter fun clause => ∀ other ∈ clause, values other.var ≠ some other.polarity).map
    fun clause => clause.filter fun other => values other.var ≠ some (!other.polarity)

/-- Values, and where there are none those that make a literal true. -/
def orElse (values : Nat → Option Bool) (literal : Literal) (var : Nat) : Option Bool :=
  (values var).or (if var = literal.var then some literal.polarity else none)

theorem reducedUnder_none (clauses : List (List Literal)) :
    reducedUnder (fun _ => none) clauses = clauses := by
  simp [reducedUnder]

theorem reducedUnder_cons (clause : List Literal) (rest : List (List Literal)) :
    reducedUnder values (clause :: rest) =
      if ∀ other ∈ clause, values other.var ≠ some other.polarity then
        clause.filter (fun other => values other.var ≠ some (!other.polarity)) ::
          reducedUnder values rest
      else reducedUnder values rest := by
  rw [reducedUnder, List.filter_cons]
  split <;> simp_all [reducedUnder]

theorem orElse_eq_some_iff {var : Nat} {value : Bool} :
    orElse values literal var = some value ↔
      values var = some value ∨
        values var = none ∧ var = literal.var ∧ literal.polarity = value := by
  unfold orElse
  cases values var with
  | some given => simp
  | none => simp

/-- A value that there is stays. -/
theorem orElse_of_isSome (given : (values literal.var).isSome = true) :
    orElse values literal = values := by
  funext var
  by_cases same : var = literal.var
  · rw [orElse, same, Option.or_of_isSome given]
  · rw [orElse, if_neg same, Option.or_none]

/-- A literal that is not true in a clause without true literals has no value, unless it
is false. -/
theorem eq_none_of_not_given {other : Literal} (notTrue : values other.var ≠ some other.polarity)
    (notFalse : values other.var ≠ some (!other.polarity)) : values other.var = none := by
  cases given : values other.var with
  | none => rfl
  | some value =>
      rw [given] at notTrue notFalse
      cases value <;> cases polarity : other.polarity <;> simp_all

/-- Where values do not make a literal true, others behind them do so only if the literal is
not false already. -/
theorem or_eq_polarity_iff {given later : Option Bool} {polarity : Bool}
    (notTrue : given ≠ some polarity) :
    given.or later = some polarity ↔ given ≠ some (!polarity) ∧ later = some polarity := by
  cases given with
  | none => simp
  | some value =>
      have opposite : value = !polarity := Bool.eq_not.mpr fun same => notTrue (congrArg some same)
      simp [opposite]

theorem or_eq_not_polarity_iff {given later : Option Bool} {polarity : Bool}
    (notTrue : given ≠ some polarity) :
    given.or later = some (!polarity) ↔
      given = some (!polarity) ∨ later = some (!polarity) := by
  cases given with
  | none => simp
  | some value =>
      have opposite : value = !polarity := Bool.eq_not.mpr fun same => notTrue (congrArg some same)
      simp [opposite]

/-- Applying values and then others is applying them at once: the others count where the first
say nothing. -/
theorem reducedUnder_reducedUnder (first second : Nat → Option Bool)
    (clauses : List (List Literal)) :
    reducedUnder second (reducedUnder first clauses) =
      reducedUnder (fun var => (first var).or (second var)) clauses := by
  induction clauses with
  | nil => rfl
  | cons clause rest ih =>
      rw [reducedUnder_cons, reducedUnder_cons]
      by_cases stays : ∀ other ∈ clause, first other.var ≠ some other.polarity
      · have dropped : (∀ other ∈ clause.filter fun other =>
              first other.var ≠ some (!other.polarity), second other.var ≠ some other.polarity) ↔
            ∀ other ∈ clause, (first other.var).or (second other.var) ≠ some other.polarity := by
          simp only [List.mem_filter, decide_eq_true_eq, and_imp]
          refine forall₂_congr fun other inside => ?_
          rw [ne_eq (Option.or ..), or_eq_polarity_iff (stays other inside), not_and]
        have struck : (clause.filter fun other =>
              first other.var ≠ some (!other.polarity)).filter
                (fun other => second other.var ≠ some (!other.polarity)) =
            clause.filter fun other =>
              (first other.var).or (second other.var) ≠ some (!other.polarity) := by
          rw [List.filter_filter]
          refine List.filter_congr fun other inside => ?_
          rw [← Bool.decide_and, decide_eq_decide, ne_eq (Option.or ..),
            or_eq_not_polarity_iff (stays other inside), not_or, and_comm]
        rw [if_pos stays, reducedUnder_cons, ih, struck]
        exact if_congr dropped rfl rfl
      · simp only [ne_eq, not_forall, not_not] at stays
        obtain ⟨other, inside, made⟩ := stays
        have gone : (first other.var).or (second other.var) = some other.polarity := by
          rw [made, Option.some_or]
        rw [if_neg fun stays => stays other inside made, ih,
          if_neg fun stays => stays other inside gone]

/-- Of all literals, a literal makes itself true. -/
theorem orElse_none_eq_polarity_iff {other : Literal} :
    orElse (fun _ => none) literal other.var = some other.polarity ↔ other = literal := by
  rw [orElse_eq_some_iff]
  constructor
  · rintro (nowhere | ⟨_, sameVar, samePolarity⟩)
    · cases nowhere
    · rcases eq_or_eq_negated sameVar with same | opposite
      · exact same
      · rw [opposite, Literal.negated_polarity] at samePolarity
        exact absurd samePolarity (by simp)
  · rintro rfl
    exact .inr ⟨rfl, rfl, rfl⟩

/-- Of all literals, a literal makes its opposite false. -/
theorem orElse_none_eq_not_polarity_iff {other : Literal} :
    orElse (fun _ => none) literal other.var = some (!other.polarity) ↔
      other = literal.negated := by
  have opposite : orElse (fun _ => none) literal other.negated.var = some other.negated.polarity ↔
      other.negated = literal := orElse_none_eq_polarity_iff
  rw [Literal.negated_var, Literal.negated_polarity] at opposite
  rw [opposite]
  constructor
  · rintro rfl
    exact other.negated_negated.symm
  · rintro rfl
    exact literal.negated_negated

/-- Making a literal true is applying the values that say so and nothing else. -/
theorem reduced_eq_reducedUnder (literal : Literal) (clauses : List (List Literal)) :
    reduced literal clauses = reducedUnder (orElse (fun _ => none) literal) clauses := by
  have kept (clause : List Literal) :
      (∀ other ∈ clause, other ≠ literal) ↔ literal ∉ clause :=
    ⟨fun apart inside => apart literal inside rfl,
      fun absent other inside same => absent (same ▸ inside)⟩
  simp only [reduced, reducedUnder, ne_eq, orElse_none_eq_polarity_iff,
    orElse_none_eq_not_polarity_iff]
  simp only [← ne_eq, kept]

/-- Making a literal true after values were applied is applying the values and, where
there are none, those that make the literal true. -/
theorem reduced_reducedUnder (values : Nat → Option Bool) (literal : Literal)
    (clauses : List (List Literal)) :
    reduced literal (reducedUnder values clauses) =
      reducedUnder (orElse values literal) clauses := by
  rw [reduced_eq_reducedUnder, reducedUnder_reducedUnder]
  rfl

/-! ## What values leave -/

theorem mem_reducedUnder {clause : List Literal} :
    clause ∈ reducedUnder values clauses ↔
      ∃ whole ∈ clauses, (∀ other ∈ whole, values other.var ≠ some other.polarity) ∧
        whole.filter (fun other => values other.var ≠ some (!other.polarity)) = clause := by
  simp only [reducedUnder, List.mem_map, List.mem_filter, decide_eq_true_eq, and_assoc]

/-- No literal is left over a variable that has a value. -/
theorem eq_none_of_mem_reducedUnder {clause : List Literal}
    (left : clause ∈ reducedUnder values clauses) (inside : literal ∈ clause) :
    values literal.var = none := by
  obtain ⟨whole, _, noneTrue, rfl⟩ := mem_reducedUnder.mp left
  obtain ⟨inWhole, notFalse⟩ := List.mem_filter.mp inside
  exact eq_none_of_not_given (noneTrue literal inWhole) (of_decide_eq_true notFalse)

/-- Values that say the same as those applied, and perhaps more, satisfy what is left exactly
if they satisfy all. -/
theorem hold_reducedUnder_iff
    (agrees : ∀ var value, values var = some value → total var = some value) :
    Hold total (reducedUnder values clauses) ↔ Hold total clauses := by
  constructor
  · intro rest clause member
    by_cases stays : ∀ other ∈ clause, values other.var ≠ some other.polarity
    · obtain ⟨literal, left, made⟩ := rest _ (mem_reducedUnder.mpr ⟨clause, member, stays, rfl⟩)
      exact ⟨literal, List.mem_of_mem_filter left, made⟩
    · simp only [ne_eq, not_forall, not_not] at stays
      obtain ⟨literal, inside, given⟩ := stays
      exact ⟨literal, inside, agrees _ _ given⟩
  · intro all clause left
    obtain ⟨whole, member, _, rfl⟩ := mem_reducedUnder.mp left
    obtain ⟨literal, inside, made⟩ := all whole member
    refine ⟨literal, List.mem_filter.mpr ⟨inside, decide_eq_true fun struck => ?_⟩, made⟩
    have opposite := (agrees _ _ struck).symm.trans made
    simp at opposite

/-- Nothing is left exactly if the values satisfy all clauses. -/
theorem reducedUnder_eq_nil_iff : reducedUnder values clauses = [] ↔ Hold values clauses := by
  rw [reducedUnder, List.map_eq_nil_iff, List.filter_eq_nil_iff, Hold]
  refine forall₂_congr fun clause _ => ?_
  simp

/-- An empty clause is left exactly if the values make every literal of a clause false. -/
theorem nil_mem_reducedUnder_iff :
    [] ∈ reducedUnder values clauses ↔
      ∃ clause ∈ clauses, ∀ literal ∈ clause, values literal.var = some (!literal.polarity) := by
  rw [mem_reducedUnder]
  refine exists_congr fun clause => and_congr_right fun _ => ?_
  simp only [List.filter_eq_nil_iff, decide_eq_true_eq, ne_eq, not_not]
  refine ⟨And.right, fun allFalse => ⟨fun literal inside made => ?_, allFalse⟩⟩
  have opposite := (allFalse literal inside).symm.trans made
  simp at opposite

/-! ## Units -/

theorem mem_of_findSome?_unitOf (found : clauses.findSome? SearchState.unitOf = some literal) :
    [literal] ∈ clauses := by
  obtain ⟨clause, member, unit⟩ := List.exists_of_findSome?_eq_some found
  unfold SearchState.unitOf at unit
  split at unit
  · cases unit
    exact member
  · cases unit

end ChronoSat.Clauses
