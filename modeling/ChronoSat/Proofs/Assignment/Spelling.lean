/-
# Models as a line

The line of an assignment to registered numbers spells the literals that it makes true, in the
order of their variables and with spaces between them.

An assignment that gives a value to exactly the registered numbers, and has slots for no
others, is a row of signs. Its line spells every registered name once, in the order of the
numbers, with the sign of its number in front.
-/

import ChronoSat.Cnf.Model
import ChronoSat.Proofs.Assignment.Naming
import Mathlib.Data.List.Zip

namespace ChronoSat

/-- The line of an assignment to registered numbers has the texts of its literals, with spaces
between them. -/
theorem Formula.modelLine_eq_ok {formula : Cnf} {assignment : Assignment} {literals : List Literal}
    (read : assignment.toLiterals = .ok literals) (within : assignment.Within formula.numVars) :
    formula.modelLine assignment =
      .ok (" ".intercalate (literals.map formula.registry.spellingOf)) := by
  have words : literals.mapM (modelWord formula.registry) =
      .ok (literals.map formula.registry.spellingOf) := by
    apply Outcomes.mapM_eq_ok
    intro literal member
    have inside := within _ _ ((Assignment.mem_toLiterals read).mp member)
    rw [modelWord, Registry.render_eq_ok inside.2]
  rw [modelLine, read]
  dsimp only
  rw [words]
  rfl

/-! ## Rows of signs -/

namespace Assignment

variable {assignment : Assignment} {numVars : Nat}

/-- The assignment of a row of signs to the numbers from 1 on. -/
def ofSigns (signs : List Bool) : Assignment := ⟨none :: signs.map some⟩

theorem value?_ofSigns (signs : List Bool) (place : Nat) :
    (ofSigns signs).value? (place + 1) = signs[place]? := by
  rw [ofSigns, value?, List.getElem?_cons_succ, List.getElem?_map]
  cases signs[place]? <;> rfl

/-- What gives a value to exactly the registered numbers is a row of signs. -/
theorem Covers.exists_eq_ofSigns (covers : assignment.Covers numVars)
    (room : assignment.room = numVars + 1) :
    ∃ signs : List Bool, signs.length = numVars ∧ assignment = ofSigns signs := by
  let signs := (List.range numVars).map fun place => (assignment.value? (place + 1)).getD true
  have length : signs.length = numVars := by simp [signs]
  refine ⟨signs, length, eq_of_value?_eq ?_ ?_⟩
  · rw [room]
    simp [ofSigns, Assignment.room, length]
  funext var
  have covered := covers var
  cases var with
  | zero =>
      have nothing : assignment.value? 0 = none := by simpa using covered
      rw [nothing]
      rfl
  | succ place =>
      rw [value?_ofSigns, List.getElem?_map]
      by_cases inside : place < numVars
      · obtain ⟨value, said⟩ := Option.isSome_iff_exists.mp (covered.mpr (by omega))
        simp [List.getElem?_range inside, said]
      · have nothing : assignment.value? (place + 1) = none := by
          rw [← Option.not_isSome_iff_eq_none, covered]
          omega
        rw [nothing, List.getElem?_eq_none (by simpa using Nat.le_of_not_lt inside)]
        rfl

/-- The assigned numbers of a row of signs are those from 1 on. -/
theorem pairs_ofSigns (signs : List Bool) :
    (ofSigns signs).pairs = (List.range' 1 signs.length).zip signs := by
  have numbered : (ofSigns signs).pairs = (signs.zipIdx 1).map Prod.swap := by
    rw [pairs, ofSigns, List.zipIdx_cons, List.filterMap_cons_none rfl, List.zipIdx_map,
      List.filterMap_map, ← List.filterMap_eq_map]
    rfl
  rw [numbered, List.zipIdx_eq_zip_range', List.zip_swap]

theorem within_ofSigns (signs : List Bool) : (ofSigns signs).Within signs.length := by
  intro var value said
  have member := mem_pairs.mpr said
  rw [pairs_ofSigns] at member
  have inside := List.mem_range'_1.mp (List.of_mem_zip member).1
  omega

end Assignment

/-- The line of a row of signs has the signs in front of the names. -/
theorem Formula.modelLine_ofSigns {formula : Cnf} {signs : List Bool}
    (length : signs.length = formula.numVars) (fits : formula.numVars ≤ Literal.maxVar) :
    formula.modelLine (.ofSigns signs) =
      .ok (" ".intercalate (List.zipWith Literal.spell formula.registry.names signs)) := by
  have within : (Assignment.ofSigns signs).Within formula.numVars :=
    length ▸ Assignment.within_ofSigns signs
  obtain ⟨literals, read⟩ := Assignment.exists_toLiterals fun var value said =>
    (within var value said).imp_right fun inside => Nat.le_trans inside fits
  let spelled (pair : Nat × Bool) :=
    Literal.spell (Assignment.nameOf formula.registry pair.1) pair.2
  have inOrder : literals.map formula.registry.spellingOf =
      List.zipWith Literal.spell formula.registry.names signs := by
    calc literals.map formula.registry.spellingOf
      _ = (literals.map fun literal => (literal.var, literal.polarity)).map spelled := by
        rw [List.map_map]
        rfl
      _ = ((List.range' 1 signs.length).zip signs).map spelled := by
        rw [Assignment.map_toLiterals read, Assignment.pairs_ofSigns]
      _ = List.zipWith Literal.spell formula.registry.names signs := by
        rw [List.map_zip_eq_zipWith, length, numVars, ← Assignment.map_nameOf_range',
          List.zipWith_map_left]
        rfl
  rw [modelLine_eq_ok read within, inOrder]

end ChronoSat
