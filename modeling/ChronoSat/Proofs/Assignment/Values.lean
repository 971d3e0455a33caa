/-
# What an assignment says

An assignment is a row of slots, but all that an evaluation or a policy can learn
from it is which value each number has. This module reads assignments as
functions from numbers to values and says what writing a slot does to that
function. The row is more than the function only in its length, so two
assignments of one length that say the same are equal.
-/

import ChronoSat.Assignment
import ChronoSat.Proofs.Outcomes
import Mathlib.Logic.Function.Basic

namespace ChronoSat.Assignment

/-- How many slots there are. -/
def room (assignment : Assignment) : Nat := assignment.slots.length

/-- Empty slots at the end say nothing. -/
theorem value?_append_replicate (slots : List (Option Bool)) (extra : Nat) :
    (⟨slots ++ List.replicate extra none⟩ : Assignment).value? = value? ⟨slots⟩ := by
  funext var
  unfold value?
  by_cases inside : var < slots.length
  · rw [List.getElem?_append_left inside]
  · rw [List.getElem?_append_right (Nat.le_of_not_lt inside), List.getElem?_replicate,
      List.getElem?_eq_none (Nat.le_of_not_lt inside)]
    split <;> rfl

/-- Reading a number among the padded slots is reading it among the slots. -/
theorem join_getElem?_padded (assignment : Assignment) (var other : Nat) :
    (assignment.padded var)[other]?.join = assignment.value? other :=
  congrFun (value?_append_replicate assignment.slots (var + 1 - assignment.slots.length)) other

theorem lt_length_padded (assignment : Assignment) (var : Nat) :
    var < (assignment.padded var).length := by
  simp only [padded, List.length_append, List.length_replicate]
  omega

/-- Writing a slot changes the value of that number and of no other. -/
theorem value?_setSlot (assignment : Assignment) (var : Nat) (content : Option Bool) :
    (assignment.setSlot var content).value? = Function.update assignment.value? var content := by
  funext other
  by_cases same : other = var
  · subst same
    rw [Function.update_self, value?, setSlot, List.getElem?_set_self (lt_length_padded ..)]
    rfl
  · rw [Function.update_of_ne same, value?, setSlot, List.getElem?_set_ne (Ne.symm same),
      join_getElem?_padded]

theorem value?_assign (assignment : Assignment) (var : Nat) (value : Bool) :
    (assignment.assign var value).value? =
      Function.update assignment.value? var (some value) :=
  value?_setSlot assignment var (some value)

/-- Writing a slot makes room up to that number and takes none away. -/
theorem room_setSlot (assignment : Assignment) (var : Nat) (content : Option Bool) :
    (assignment.setSlot var content).room = max assignment.room (var + 1) := by
  simp only [room, setSlot, padded, List.length_set, List.length_append, List.length_replicate]
  omega

theorem room_setSlot_of_lt {assignment : Assignment} {var : Nat} (content : Option Bool)
    (inside : var < assignment.room) : (assignment.setSlot var content).room = assignment.room := by
  rw [room_setSlot]
  omega

/-- Two assignments with as many slots that give every number the same value are
equal. -/
theorem eq_of_value?_eq {left right : Assignment} (length : left.room = right.room)
    (values : left.value? = right.value?) : left = right := by
  obtain ⟨leftSlots⟩ := left
  obtain ⟨rightSlots⟩ := right
  congr 1
  apply List.ext_getElem length
  intro var insideLeft insideRight
  have agree : leftSlots[var]?.join = rightSlots[var]?.join := congrFun values var
  rw [List.getElem?_eq_getElem insideLeft, List.getElem?_eq_getElem insideRight] at agree
  exact agree

/-- An assignment that says the same with more slots has empty ones at the end. -/
theorem exists_slots_eq_append {longer shorter : Assignment} (le : shorter.room ≤ longer.room)
    (values : longer.value? = shorter.value?) :
    ∃ extra, longer.slots = shorter.slots ++ List.replicate extra none := by
  refine ⟨longer.room - shorter.room, ?_⟩
  have same : longer = ⟨shorter.slots ++ List.replicate (longer.room - shorter.room) none⟩ := by
    apply eq_of_value?_eq
    · simp only [room, List.length_append, List.length_replicate] at le ⊢
      omega
    · rw [values, value?_append_replicate]
  exact congrArg slots same

/-! ## The uniform assignment -/

theorem value?_uniform (numVars : Nat) (value : Bool) (var : Nat) :
    (uniform numVars value).value? var = if 0 < var ∧ var ≤ numVars then some value else none := by
  cases var with
  | zero => rfl
  | succ var =>
      simp only [value?, uniform, List.getElem?_cons_succ, List.getElem?_replicate]
      by_cases inside : var < numVars
      · rw [if_pos inside, if_pos ⟨Nat.succ_pos _, inside⟩]
        rfl
      · rw [if_neg inside, if_neg (by omega)]
        rfl

theorem room_uniform (numVars : Nat) (value : Bool) :
    (uniform numVars value).room = numVars + 1 := by
  simp [room, uniform]

/-! ## The assigned numbers -/

theorem mem_pairs {assignment : Assignment} {var : Nat} {value : Bool} :
    (var, value) ∈ assignment.pairs ↔ assignment.value? var = some value := by
  unfold pairs value?
  rw [List.mem_filterMap]
  constructor
  · rintro ⟨⟨slot, place⟩, member, read⟩
    obtain ⟨content, given, same⟩ := Option.map_eq_some_iff.mp read
    cases same
    rw [List.mem_zipIdx_iff_getElem?] at member
    rw [member, given]
    rfl
  · intro said
    have found := Option.join_eq_some_iff.mp said
    exact ⟨(some value, var), List.mem_zipIdx_iff_getElem?.mpr found, rfl⟩

/-- The assigned numbers stand in ascending order, each once. -/
theorem pairwise_pairs (assignment : Assignment) :
    assignment.pairs.Pairwise fun earlier later => earlier.1 < later.1 := by
  unfold pairs
  rw [List.pairwise_filterMap]
  have ascending : assignment.slots.zipIdx.Pairwise fun earlier later => earlier.2 < later.2 := by
    rw [← List.pairwise_map (f := Prod.snd), List.zipIdx_map_snd]
    exact List.pairwise_lt_range'
  refine ascending.imp ?_
  intro earlier later before left readLeft right readRight
  obtain ⟨_, _, rfl⟩ := Option.map_eq_some_iff.mp readLeft
  obtain ⟨_, _, rfl⟩ := Option.map_eq_some_iff.mp readRight
  exact before

/-! ## The literals made true -/

theorem eq_of_literalOf {pair : Nat × Bool} {literal : Literal}
    (taken : literalOf pair = .ok literal) : (literal.var, literal.polarity) = pair := by
  unfold literalOf Literal.ofVar? at taken
  by_cases inRange : 0 < pair.1 ∧ pair.1 ≤ Literal.maxVar
  · rw [dif_pos inRange] at taken
    cases taken
    rfl
  · rw [dif_neg inRange] at taken
    cases taken

/-- Literals can be made of the assigned numbers if each of them is one that a literal can be
made of. -/
theorem exists_toLiterals {assignment : Assignment}
    (inRange : ∀ var value, assignment.value? var = some value → 0 < var ∧ var ≤ Literal.maxVar) :
    ∃ literals, assignment.toLiterals = .ok literals := by
  apply Outcomes.exists_mapM_eq_ok
  rintro ⟨var, value⟩ member
  have inside := inRange var value (mem_pairs.mp member)
  exact ⟨⟨var, value, inside.1⟩, by rw [literalOf, Literal.ofVar?, dif_pos inside]⟩

variable {assignment : Assignment} {literals : List Literal}

/-- The literals are the assigned numbers with their values, in the same order. -/
theorem map_toLiterals (read : assignment.toLiterals = .ok literals) :
    literals.map (fun literal => (literal.var, literal.polarity)) = assignment.pairs := by
  rw [← List.forall₂_eq_eq_eq, List.forall₂_map_left_iff]
  exact (Outcomes.mapM_eq_ok_iff.mp read).flip.imp fun _ _ taken => eq_of_literalOf taken

theorem mem_toLiterals (read : assignment.toLiterals = .ok literals) {literal : Literal} :
    literal ∈ literals ↔ assignment.value? literal.var = some literal.polarity := by
  rw [← mem_pairs, ← map_toLiterals read, List.mem_map]
  constructor
  · exact fun member => ⟨literal, member, rfl⟩
  · rintro ⟨other, member, same⟩
    cases other
    cases literal
    cases same
    exact member

theorem pairwise_toLiterals (read : assignment.toLiterals = .ok literals) :
    literals.Pairwise fun earlier later => earlier.var < later.var := by
  have ascending := pairwise_pairs assignment
  rwa [← map_toLiterals read, List.pairwise_map] at ascending

end ChronoSat.Assignment
