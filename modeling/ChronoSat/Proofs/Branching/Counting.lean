/-
# What the counting policies count

Two policies count in tables before they propose, and what they propose is said here
without the tables. The modal policy proposes the variable that stands most often among the
literals that remain, whatever its polarities. Of several with that many places it is the
one that gets to its last place first, going through the clauses in order. The two-clause
policy proposes the smallest variable whose longest clause has two literals.

The tables are exact: once some literals have been counted, the row of every registered
variable has the number that belongs to those literals. The leader of the census changes
while the counts grow, so the invariant says of every prefix of the literals that the
leader leads in it. It goes on to the next literal because only the variable of that
literal gets nearer to the lead. Whoever leads at the end led the whole row first, and the
polarity is read off the tables only then.
-/

import ChronoSat.Proofs.Branching.Contract
import ChronoSat.Proofs.Outcomes
import Mathlib.Data.Finset.Lattice.Fold
import Mathlib.Logic.Function.Basic
import Mathlib.Order.Lattice.Nat

namespace ChronoSat.Branching

variable {numVars var : Nat} {content : Nat → Nat} {table : Array Nat}

/-! ## Tables -/

/-- A table that has for every variable up to `numVars` the number that belongs to it. -/
structure Tabulates (numVars : Nat) (content : Nat → Nat) (table : Array Nat) : Prop where
  size_eq : table.size = numVars + 1
  row_eq : ∀ var ≤ numVars, table[var]? = some (content var)

theorem tabulates_zeroTable (numVars : Nat) :
    Tabulates numVars (fun _ => 0) (zeroTable numVars) where
  size_eq := by simp [zeroTable]
  row_eq := by
    intro var registered
    rw [zeroTable, Array.getElem?_replicate, if_pos (Nat.lt_succ_of_le registered)]

theorem Tabulates.readRow_eq (tabulates : Tabulates numVars content table)
    (registered : var ≤ numVars) : readRow table var = .ok (content var) := by
  rw [readRow, tabulates.row_eq var registered]

/-- Changing a row changes the number of its variable and no other. -/
theorem Tabulates.exists_updateRow (tabulates : Tabulates numVars content table)
    (registered : var ≤ numVars) (change : Nat → Nat) :
    ∃ after, updateRow table var change = .ok after ∧
      Tabulates numVars (Function.update content var (change (content var))) after := by
  have inside : var < table.size := by
    rw [tabulates.size_eq]
    exact Nat.lt_succ_of_le registered
  have row : table[var] = content var := by
    have found := tabulates.row_eq var registered
    rw [Array.getElem?_eq_getElem inside] at found
    exact Option.some.inj found
  refine ⟨_, dif_pos inside, ?_, ?_⟩
  · rw [Array.size_set, tabulates.size_eq]
  · intro other otherRegistered
    rw [Array.getElem?_set, row]
    by_cases same : var = other
    · subst same
      rw [if_pos rfl, Function.update_self]
    · rw [if_neg same, Function.update_of_ne (Ne.symm same)]
      exact tabulates.row_eq other otherRegistered

/-! ## The longest clauses -/

/-- The length of the longest clause that a variable stands in, and 0 if there is none. -/
def longestWith (clauses : List (List Literal)) (var : Nat) : Nat :=
  (clauses.filter fun clause => var ∈ clause.map Literal.var).toFinset.sup List.length

/-- What a table holds after the rows of a clause's variables were raised. -/
def raised (content : Nat → Nat) (length : Nat) (vars : List Nat) (var : Nat) : Nat :=
  if var ∈ vars then max (content var) length else content var

theorem longestWith_concat (clauses : List (List Literal)) (clause : List Literal) :
    longestWith (clauses ++ [clause]) =
      raised (longestWith clauses) clause.length (clause.map Literal.var) := by
  funext var
  simp only [longestWith, raised, List.filter_append, List.toFinset_append, Finset.sup_union]
  by_cases inside : var ∈ clause.map Literal.var
  · simp only [List.filter_cons, decide_eq_true inside, if_pos inside]
    simp
  · simp only [List.filter_cons, decide_eq_false inside, if_neg inside]
    simp

theorem longestWith_eq_iff {clauses : List (List Literal)} {length : Nat} (positive : 0 < length) :
    longestWith clauses var = length ↔
      (∃ clause ∈ clauses, var ∈ clause.map Literal.var ∧ clause.length = length) ∧
        ∀ clause ∈ clauses, var ∈ clause.map Literal.var → clause.length ≤ length := by
  have candidate (clause : List Literal) :
      clause ∈ (clauses.filter fun clause => var ∈ clause.map Literal.var).toFinset ↔
        clause ∈ clauses ∧ var ∈ clause.map Literal.var := by
    rw [List.mem_toFinset, List.mem_filter, decide_eq_true_iff]
  constructor
  · rintro rfl
    have someCandidate : (clauses.filter fun clause =>
        var ∈ clause.map Literal.var).toFinset.Nonempty := by
      rw [Finset.nonempty_iff_ne_empty]
      rintro none
      rw [longestWith, none, Finset.sup_empty] at positive
      exact Nat.lt_irrefl 0 positive
    obtain ⟨clause, isCandidate, attained⟩ :=
      Finset.exists_mem_eq_sup _ someCandidate List.length
    obtain ⟨there, inside⟩ := (candidate clause).mp isCandidate
    exact ⟨⟨clause, there, inside, attained.symm⟩, fun other otherThere otherInside =>
      Finset.le_sup ((candidate other).mpr ⟨otherThere, otherInside⟩)⟩
  · rintro ⟨⟨clause, there, inside, rfl⟩, longest⟩
    apply le_antisymm
    · refine Finset.sup_le fun other isCandidate => ?_
      obtain ⟨otherThere, otherInside⟩ := (candidate other).mp isCandidate
      exact longest other otherThere otherInside
    · exact Finset.le_sup ((candidate clause).mpr ⟨there, inside⟩)

/-- A row that is raised twice to one length might as well have been raised once. -/
theorem raised_concat (content : Nat → Nat) (length : Nat) (vars : List Nat) (last : Nat) :
    raised content length (vars ++ [last]) =
      Function.update (raised content length vars) last
        (max (raised content length vars last) length) := by
  funext var
  simp only [raised, List.mem_append, List.mem_singleton]
  by_cases same : var = last
  · subst same
    rw [if_pos (.inr rfl), Function.update_self]
    split <;> simp
  · rw [Function.update_of_ne same]
    simp only [raised, same, or_false]

theorem Tabulates.exists_raiseRows (tabulates : Tabulates numVars content table)
    {clause : List Literal} (registered : ∀ literal ∈ clause, literal.var ≤ numVars) :
    ∃ after, raiseRows table clause = .ok after ∧
      Tabulates numVars (raised content clause.length (clause.map Literal.var)) after := by
  refine Outcomes.exists_foldlM_eq_ok
    (fun passed => Tabulates numVars (raised content clause.length (passed.map Literal.var))) ?_
    tabulates
  intro passed literal inside before holds
  obtain ⟨after, updated, holdsAfter⟩ :=
    holds.exists_updateRow (registered literal inside) (max · clause.length)
  rw [← raised_concat, ← List.map_singleton (f := Literal.var), ← List.map_append] at holdsAfter
  exact ⟨after, updated, holdsAfter⟩

variable {remaining : Remaining}

theorem exists_longestClauses (registered : remaining.Registered) :
    ∃ table, longestClauses remaining = .ok table ∧
      Tabulates remaining.numVars (longestWith remaining.clauses) table := by
  refine Outcomes.exists_foldlM_eq_ok
    (fun passed => Tabulates remaining.numVars (longestWith passed)) ?_ (tabulates_zeroTable _)
  intro passed clause there before holds
  rw [longestWith_concat]
  exact holds.exists_raiseRows fun literal inside => registered.var_le there inside

/-- A variable that stands in a clause has a row. -/
theorem pos_and_le_of_longestWith (registered : remaining.Registered)
    (two : longestWith remaining.clauses var = 2) :
    0 < var ∧ var ≤ remaining.numVars := by
  obtain ⟨⟨clause, there, inside, -⟩, -⟩ := (longestWith_eq_iff Nat.zero_lt_two).mp two
  obtain ⟨literal, member, rfl⟩ := List.mem_map.mp inside
  exact ⟨literal.var_pos, registered.var_le there member⟩

/-- The smallest variable whose longest clause has two literals, if there is one. -/
theorem exists_twoClauseVariable (registered : remaining.Registered) :
    ∃ answer, twoClauseVariable remaining = .ok answer ∧
      (∀ var, answer = some var ↔ longestWith remaining.clauses var = 2 ∧
        ∀ smaller < var, longestWith remaining.clauses smaller ≠ 2) ∧
      (answer = none ↔ ∀ var, longestWith remaining.clauses var ≠ 2) := by
  obtain ⟨table, built, tabulates⟩ := exists_longestClauses registered
  have two_iff {var : Nat} (inside : var < 1 + remaining.numVars) :
      (table[var]? == some 2) = true ↔ longestWith remaining.clauses var = 2 := by
    rw [tabulates.row_eq var (by omega), beq_iff_eq, Option.some.injEq]
  have inside {var : Nat} (two : longestWith remaining.clauses var = 2) :
      1 ≤ var ∧ var < 1 + remaining.numVars := by
    obtain ⟨positive, registered⟩ := pos_and_le_of_longestWith registered two
    omega
  have isSmallest (var : Nat) :
      ((List.range' 1 remaining.numVars).find? fun var => table[var]? == some 2) = some var ↔
        longestWith remaining.clauses var = 2 ∧
          ∀ smaller < var, longestWith remaining.clauses smaller ≠ 2 := by
    rw [List.find?_range'_eq_some, List.mem_range'_1]
    simp only [Bool.not_eq_true', Bool.eq_false_iff, ne_eq]
    constructor
    · rintro ⟨two, ⟨_, below⟩, smallest⟩
      refine ⟨(two_iff below).mp two, fun smaller less isTwo => ?_⟩
      exact smallest smaller (inside isTwo).1 less ((two_iff (inside isTwo).2).mpr isTwo)
    · rintro ⟨two, smallest⟩
      refine ⟨(two_iff (inside two).2).mpr two, inside two, fun smaller _ less isTwo => ?_⟩
      exact smallest smaller less ((two_iff (less.trans (inside two).2)).mp isTwo)
  refine ⟨_, Outcomes.bind_eq_ok.mpr ⟨table, built, rfl⟩, isSmallest, fun none var two => ?_,
    fun nowhere => ?_⟩
  · -- among the variables with such a clause there is a smallest one
    have some : ∃ var, longestWith remaining.clauses var = 2 := ⟨var, two⟩
    have found := (isSmallest (Nat.find some)).mpr ⟨Nat.find_spec some, fun _ => Nat.find_min some⟩
    rw [none] at found
    cases found
  · rw [Option.eq_none_iff_forall_ne_some]
    exact fun var found => nowhere var ((isSmallest var).mp found).1

/-! ## Leading a row -/

/-- How often the literal of a choice stands in a row. -/
def timesOf (choice : Choice) (literals : List Literal) : Nat :=
  (literals.map Literal.choice).count choice

/-- At this place of a row a variable stands for the given time, counted from 1. -/
structure Reaches (row : List Nat) (var times place : Nat) : Prop where
  here : row[place]? = some var
  times_eq : (row.take (place + 1)).count var = times

/-- No variable stands more often in a row, and none that stands as often gets to its last
place earlier. -/
structure Leads (row : List Nat) (var : Nat) : Prop where
  most : ∀ other, row.count other ≤ row.count var
  first : ∃ place, Reaches row var (row.count var) place ∧
    ∀ other later, Reaches row other (row.count var) later → place ≤ later

/-- The choice of the variable that leads, true if it stands more often as itself than
negated. -/
structure IsModal (literals : List Literal) (choice : Choice) : Prop where
  leads : Leads (literals.map Literal.var) choice.var
  value_eq : choice.value =
    decide (timesOf ⟨choice.var, false⟩ literals < timesOf ⟨choice.var, true⟩ literals)

variable {row : List Nat} {other : Nat}

theorem Leads.unique (leads : Leads row var) (otherLeads : Leads row other) : var = other := by
  have same : row.count var = row.count other :=
    le_antisymm (otherLeads.most var) (leads.most other)
  obtain ⟨place, reaches, earliest⟩ := leads.first
  obtain ⟨otherPlace, otherReaches, otherEarliest⟩ := otherLeads.first
  have places : place = otherPlace :=
    le_antisymm (earliest other otherPlace (same ▸ otherReaches))
      (otherEarliest var place (same ▸ reaches))
  have here := reaches.here
  rw [places, otherReaches.here] at here
  exact (Option.some.inj here).symm

theorem IsModal.unique {literals : List Literal} {choice otherChoice : Choice}
    (isModal : IsModal literals choice) (otherIsModal : IsModal literals otherChoice) :
    choice = otherChoice := by
  obtain ⟨var, value⟩ := choice
  obtain ⟨otherVar, otherValue⟩ := otherChoice
  obtain rfl : var = otherVar := isModal.leads.unique otherIsModal.leads
  rw [Choice.mk.injEq]
  exact ⟨rfl, isModal.value_eq.trans otherIsModal.value_eq.symm⟩

/-- Who leads a row, and with how many places. -/
inductive Lead (row : List Nat) : Option Nat → Nat → Prop
  | nobody (empty : row = []) : Lead row none 0
  | ahead {var : Nat} (leads : Leads row var) : Lead row (some var) (row.count var)

theorem Lead.le {leader : Option Nat} {highest : Nat} (lead : Lead row leader highest)
    (other : Nat) : row.count other ≤ highest := by
  cases lead with
  | nobody empty => simp [empty]
  | ahead leads => exact leads.most other

theorem count_concat (row : List Nat) (var other : Nat) :
    (row ++ [var]).count other = row.count other + if var = other then 1 else 0 := by
  rw [List.count_append, List.count_singleton]
  simp only [beq_iff_eq]

/-- Before the last place of a row, a variable stands where it did. -/
theorem reaches_concat_of_lt {times place : Nat} (before : place < row.length) (last : Nat) :
    Reaches (row ++ [last]) var times place ↔ Reaches row var times place := by
  constructor
  · rintro ⟨here, times_eq⟩
    rw [List.getElem?_append_left before] at here
    rw [List.take_append_of_le_length before] at times_eq
    exact ⟨here, times_eq⟩
  · rintro ⟨here, times_eq⟩
    refine ⟨?_, ?_⟩
    · rw [List.getElem?_append_left before, here]
    · rw [List.take_append_of_le_length before, times_eq]

/-- A variable that passes everyone leads, since nobody stood so often before. -/
theorem Lead.overtaken {leader : Option Nat} {highest : Nat} (lead : Lead row leader highest)
    (passes : highest < row.count var + 1) : Leads (row ++ [var]) var := by
  have total : (row ++ [var]).count var = row.count var + 1 := by
    rw [count_concat, if_pos rfl]
  refine ⟨fun other => ?_, row.length, ⟨?_, ?_⟩, fun other later reaches => ?_⟩
  · rw [total, count_concat]
    have others := lead.le other
    split
    · next same => omega
    · omega
  · simp
  · rw [List.take_of_length_le (by simp)]
  · by_contra! earlier
    rw [total, reaches_concat_of_lt earlier] at reaches
    have atMost := (List.take_sublist (later + 1) row).count_le other
    have others := lead.le other
    have := reaches.times_eq
    omega

/-- A leader that is not passed goes on leading. -/
theorem Leads.concat (leads : Leads row var) {last : Nat}
    (behind : row.count last < row.count var) : Leads (row ++ [last]) var := by
  have total : (row ++ [last]).count var = row.count var := by
    rw [count_concat, if_neg (fun same => behind.ne (congrArg row.count same)), Nat.add_zero]
  obtain ⟨place, reaches, earliest⟩ := leads.first
  have inside : place < row.length := (List.getElem?_eq_some_iff.mp reaches.here).1
  rw [← total] at reaches earliest
  refine ⟨fun other => ?_, place, (reaches_concat_of_lt inside last).mpr reaches,
    fun other later laterReaches => ?_⟩
  · rw [total, count_concat]
    split
    · next same => exact same ▸ behind
    · exact leads.most other
  · rcases Nat.lt_or_ge later row.length with before | after
    · exact earliest other later ((reaches_concat_of_lt before last).mp laterReaches)
    · exact inside.le.trans after

theorem Lead.concat {leader : Option Nat} {highest last : Nat} (lead : Lead row leader highest)
    (behind : row.count last + 1 ≤ highest) : Lead (row ++ [last]) leader highest := by
  cases lead with
  | nobody empty => exact absurd behind (Nat.not_succ_le_zero _)
  | ahead leads =>
      next var =>
      have others : ¬last = var := fun same => Nat.lt_irrefl _ (same ▸ behind)
      convert Lead.ahead (leads.concat behind) using 1
      rw [count_concat, if_neg others, Nat.add_zero]

/-! ## The census -/

theorem timesOf_concat (choice : Choice) (literals : List Literal) (last : Literal) :
    timesOf choice (literals ++ [last]) =
      timesOf choice literals + if last.choice = choice then 1 else 0 := by
  rw [timesOf, List.map_append, List.count_append, List.map_singleton, List.count_singleton]
  simp only [timesOf, beq_iff_eq]

/-- Every place of a variable has one of the two polarities. -/
theorem timesOf_add_timesOf (var : Nat) (literals : List Literal) :
    timesOf ⟨var, true⟩ literals + timesOf ⟨var, false⟩ literals =
      (literals.map Literal.var).count var := by
  induction literals using List.reverseRecOn with
  | nil => rfl
  | append_singleton literals last ih =>
      rw [timesOf_concat, timesOf_concat, List.map_append, List.map_singleton, count_concat, ← ih]
      obtain ⟨lastVar, polarity, _⟩ := last
      cases polarity <;> simp [Literal.choice] <;> omega

/-- What a census knows once some literals have been counted. -/
structure Tallies (numVars : Nat) (literals : List Literal) (census : Census) : Prop where
  positive : Tabulates numVars (fun var => timesOf ⟨var, true⟩ literals) census.positive
  negative : Tabulates numVars (fun var => timesOf ⟨var, false⟩ literals) census.negative
  lead : Lead (literals.map Literal.var) census.leader census.highest

theorem tallies_start (numVars : Nat) : Tallies numVars [] (.start numVars) where
  positive := tabulates_zeroTable numVars
  negative := tabulates_zeroTable numVars
  lead := .nobody rfl

/-- One row changes when a literal is counted, by one, and only if it is of that polarity. -/
theorem Tabulates.exists_countIn {literals : List Literal} {literal : Literal} (polarity : Bool)
    (tabulates : Tabulates numVars (fun var => timesOf ⟨var, polarity⟩ literals) table)
    (registered : literal.var ≤ numVars) (change : Nat → Nat)
    (changes : ∀ times, change times = times + if literal.polarity = polarity then 1 else 0) :
    ∃ after, updateRow table literal.var change = .ok after ∧
      Tabulates numVars (fun var => timesOf ⟨var, polarity⟩ (literals ++ [literal])) after := by
  obtain ⟨after, updated, holds⟩ := tabulates.exists_updateRow registered change
  refine ⟨after, updated, ?_⟩
  convert holds using 1
  funext var
  rw [timesOf_concat, changes]
  by_cases same : var = literal.var
  · subst same
    rw [Function.update_self]
    simp [Literal.choice]
  · rw [Function.update_of_ne same, if_neg, Nat.add_zero]
    exact fun equal => same (congrArg Choice.var equal).symm

theorem Tallies.exists_count {literals : List Literal} {census : Census}
    (tallies : Tallies numVars literals census) {literal : Literal}
    (registered : literal.var ≤ numVars) :
    ∃ after, census.count literal = .ok after ∧
      Tallies numVars (literals ++ [literal]) after := by
  obtain ⟨positive, raisedPositive, holdsPositive⟩ :=
    tallies.positive.exists_countIn true registered
      (fun seen => if literal.polarity then seen + 1 else seen)
      (fun times => by cases literal.polarity <;> rfl)
  obtain ⟨negative, raisedNegative, holdsNegative⟩ :=
    tallies.negative.exists_countIn false registered
      (fun seen => if literal.polarity then seen else seen + 1)
      (fun times => by cases literal.polarity <;> rfl)
  have total : timesOf ⟨literal.var, true⟩ (literals ++ [literal]) +
      timesOf ⟨literal.var, false⟩ (literals ++ [literal]) =
        (literals.map Literal.var).count literal.var + 1 := by
    rw [timesOf_add_timesOf, List.map_append, List.map_singleton, count_concat, if_pos rfl]
  have counts (after : Census)
      (ends : (if census.highest < (literals.map Literal.var).count literal.var + 1 then
          pure ⟨positive, negative, some literal.var,
            (literals.map Literal.var).count literal.var + 1⟩
        else pure { census with positive, negative } : Except Fault Census) = .ok after) :
      census.count literal = .ok after := by
    rw [← total] at ends
    exact Outcomes.bind_eq_ok.mpr ⟨positive, raisedPositive,
      Outcomes.bind_eq_ok.mpr ⟨negative, raisedNegative,
        Outcomes.bind_eq_ok.mpr ⟨_, holdsPositive.readRow_eq registered,
          Outcomes.bind_eq_ok.mpr ⟨_, holdsNegative.readRow_eq registered, ends⟩⟩⟩⟩
  have row : (literals ++ [literal]).map Literal.var =
      literals.map Literal.var ++ [literal.var] := by
    rw [List.map_append, List.map_singleton]
  by_cases passes : census.highest < (literals.map Literal.var).count literal.var + 1
  · refine ⟨_, counts _ (if_pos passes), holdsPositive, holdsNegative, ?_⟩
    have leads := tallies.lead.overtaken passes
    rw [row]
    convert Lead.ahead leads using 1
    rw [count_concat, if_pos rfl]
  · refine ⟨_, counts _ (if_neg passes), holdsPositive, holdsNegative, ?_⟩
    rw [row]
    exact tallies.lead.concat (Nat.le_of_not_lt passes)

theorem exists_census {literals : List Literal}
    (registered : ∀ literal ∈ literals, literal.var ≤ numVars) :
    ∃ census, literals.foldlM Census.count (.start numVars) = .ok census ∧
      Tallies numVars literals census := by
  refine Outcomes.exists_foldlM_eq_ok (Tallies numVars) ?_ (tallies_start numVars)
  intro passed literal inside before tallies
  exact tallies.exists_count (registered literal inside)

theorem Tallies.choice_eq {census : Census} {literals : List Literal}
    (tallies : Tallies numVars literals census) (leader : census.leader = some var)
    (registered : var ≤ numVars) :
    census.choice = .ok (some ⟨var,
      decide (timesOf ⟨var, false⟩ literals < timesOf ⟨var, true⟩ literals)⟩) := by
  rw [Census.choice, leader]
  exact Outcomes.bind_eq_ok.mpr ⟨_, tallies.positive.readRow_eq registered,
    Outcomes.bind_eq_ok.mpr ⟨_, tallies.negative.readRow_eq registered, rfl⟩⟩

/-- Who leads stands in the row. -/
theorem Leads.mem (leads : Leads row var) : var ∈ row := by
  obtain ⟨place, reaches, _⟩ := leads.first
  exact List.mem_of_getElem? reaches.here

theorem Lead.empty_or_leads {leader : Option Nat} {highest : Nat}
    (lead : Lead row leader highest) :
    (leader = none ∧ row = []) ∨ ∃ var, leader = some var ∧ Leads row var := by
  cases lead with
  | nobody empty => exact .inl ⟨rfl, empty⟩
  | ahead leads => exact .inr ⟨_, rfl, leads⟩

/-- The choice of the variable that leads, if there is a literal at all. -/
theorem exists_modalChoice (registered : remaining.Registered) :
    ∃ answer, modalChoice remaining = .ok answer ∧
      (answer = none ↔ remaining.clauses.flatten = []) ∧
      ∀ choice, answer = some choice ↔ IsModal remaining.clauses.flatten choice := by
  have named (literal : Literal) (member : literal ∈ remaining.clauses.flatten) :
      literal.var ≤ remaining.numVars := by
    obtain ⟨clause, there, inside⟩ := List.mem_flatten.mp member
    exact registered.var_le there inside
  obtain ⟨census, counted, tallies⟩ := exists_census named
  have answers {answer : Option Choice} (chosen : census.choice = .ok answer) :
      modalChoice remaining = .ok answer :=
    Outcomes.bind_eq_ok.mpr ⟨census, counted, chosen⟩
  rcases tallies.lead.empty_or_leads with ⟨nobody, empty⟩ | ⟨var, leader, leads⟩
  · refine ⟨none, answers (by rw [Census.choice, nobody]), ?_, fun choice => ?_⟩
    · exact iff_of_true rfl (List.map_eq_nil_iff.mp empty)
    · refine iff_of_false nofun fun isModal => ?_
      have inside := isModal.leads.mem
      rw [empty] at inside
      exact List.not_mem_nil inside
  · obtain ⟨literal, member, same⟩ := List.mem_map.mp leads.mem
    have inside : var ≤ remaining.numVars := same ▸ named literal member
    refine ⟨_, answers (tallies.choice_eq leader inside), ?_, fun choice => ?_⟩
    · refine iff_of_false nofun fun empty => ?_
      rw [empty] at member
      exact List.not_mem_nil member
    · rw [Option.some.injEq]
      refine ⟨?_, IsModal.unique ⟨leads, rfl⟩⟩
      rintro rfl
      exact ⟨leads, rfl⟩

end ChronoSat.Branching

namespace ChronoSat.Selection

open Branching

/-- The counting policies propose what the counts say. The modal policy proposes the
variable with the most places, and of several the one that comes to its last place first,
with the polarity that it has more often and false if both are as often. The two-clause
policy proposes the smallest variable whose longest clause has two literals, true at first.
Neither draws anything for it. Without such a variable the two-clause policy is the
random one, draws and all. -/
theorem propose_counting {γ : Type} [RandomSource γ] {remaining : Remaining}
    (registered : remaining.Registered) (source : γ) :
    (∃ answer, modal.policy.propose remaining source = .ok (answer, source) ∧
      (answer = none ↔ remaining.clauses.flatten = []) ∧
      ∀ choice, answer = some choice ↔ IsModal remaining.clauses.flatten choice) ∧
    (∀ var, longestWith remaining.clauses var = 2 →
      (∀ smaller < var, longestWith remaining.clauses smaller ≠ 2) →
        twoClause.policy.propose remaining source = .ok (some ⟨var, true⟩, source)) ∧
    ((∀ var, longestWith remaining.clauses var ≠ 2) →
      twoClause.policy.propose remaining source =
        random.policy.propose remaining source) := by
  refine ⟨?_, fun var two smallest => ?_, fun none => ?_⟩
  · obtain ⟨answer, chosen, described⟩ := exists_modalChoice registered
    exact ⟨answer, Outcomes.bind_eq_ok.mpr ⟨answer, chosen, rfl⟩, described⟩
  · obtain ⟨answer, found, isSmallest, _⟩ := exists_twoClauseVariable registered
    rw [(isSmallest var).mpr ⟨two, smallest⟩] at found
    exact Outcomes.bind_eq_ok.mpr ⟨_, found, rfl⟩
  · obtain ⟨answer, found, _, isNone⟩ := exists_twoClauseVariable registered
    rw [isNone.mpr none] at found
    change twoClauseChoice remaining source = randomChoice remaining source
    rw [twoClauseChoice, found]
    rfl

/-- Two clauses over the same two variables, with two places for each of them. The second
one has come to both of its places before the first one has. -/
def crossed : Remaining where
  clauses := [[⟨1, true, Nat.zero_lt_one⟩, ⟨2, false, Nat.zero_lt_two⟩],
    [⟨2, true, Nat.zero_lt_two⟩, ⟨1, false, Nat.zero_lt_one⟩]]
  numVars := 2

theorem propose_counting_crossed :
    let source : Generator := ⟨7⟩
    crossed.Registered ∧
      modal.policy.propose crossed source = .ok (some ⟨2, false⟩, source) ∧
      IsModal crossed.clauses.flatten ⟨2, false⟩ ∧
      twoClause.policy.propose crossed source = .ok (some ⟨1, true⟩, source) := by
  intro source
  have registered : crossed.Registered := by decide
  obtain ⟨⟨answer, proposed, _, described⟩, smallest, _⟩ := propose_counting registered source
  have second : modal.policy.propose crossed source = .ok (some ⟨2, false⟩, source) := rfl
  have chosen : answer = some ⟨2, false⟩ := by
    rw [second] at proposed
    exact (congrArg Prod.fst (Except.ok.inj proposed)).symm
  exact ⟨registered, second, (described _).mp chosen, smallest 1 (by decide) (by decide)⟩

end ChronoSat.Selection
