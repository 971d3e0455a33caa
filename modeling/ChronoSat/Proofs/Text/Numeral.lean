/-
# Numerals that are written and read

A number is written in decimal digits, with a minus in front if it is negative, and
the readers give the number back if it lies in their range. What is written has
neither blanks nor line ends in it, so it is one word wherever it stands.
-/

import ChronoSat.Text.Numeral
import ChronoSat.Text.Blank

namespace ChronoSat.Text

theorem isBlank_of_isDigit {character : Char} (digit : character.isDigit = true) :
    isBlank character = false := by
  have bounds : 48 ≤ character.toNat ∧ character.toNat ≤ 57 := by
    rwa [Char.isDigit, Bool.and_eq_true, decide_eq_true_eq, decide_eq_true_eq, ge_iff_le,
      UInt32.le_iff_toNat_le, UInt32.le_iff_toNat_le] at digit
  have apart : ∀ range ∈ blankRanges, range.2 < 48 ∨ 57 < range.1 := by decide
  rw [isBlank, List.any_eq_false]
  intro range member
  have := apart range member
  simp only [Bool.and_eq_true, decide_eq_true_eq]
  omega

/-! ## Digits -/

theorem digitsFrom_eq_ofDigitChars (value : Nat) (digits : List Char) :
    digitsFrom value digits = Nat.ofDigitChars 10 digits value := by
  rw [Nat.ofDigitChars_eq_foldl]
  rfl

theorem isDigit_of_mem_toString {number : Nat} {character : Char}
    (member : character ∈ (toString number).toList) : character.isDigit = true := by
  rw [Nat.toString_eq_repr, Nat.toList_repr] at member
  exact Nat.isDigit_of_mem_toDigits (by decide) (by decide) member

theorem toList_toString_ne_nil (number : Nat) : (toString number).toList ≠ [] := by
  rw [Nat.toString_eq_repr, Nat.toList_repr]
  exact Nat.toDigits_ne_nil

theorem readDigits_toString (number : Nat) :
    readDigits (toString number).toList = some number := by
  have all : (toString number).toList.all Char.isDigit = true :=
    List.all_eq_true.mpr fun _ member => isDigit_of_mem_toString member
  have value : digitsFrom 0 (toString number).toList = number := by
    rw [digitsFrom_eq_ofDigitChars, Nat.toString_eq_repr, Nat.toList_repr,
      Nat.ofDigitChars_ten_toDigits]
  rw [readDigits, all, value]
  simp

/-- A numeral without a sign begins with a digit. -/
theorem exists_toList_toString (number : Nat) :
    ∃ digit rest, (toString number).toList = digit :: rest ∧ digit.isDigit = true := by
  obtain ⟨digit, rest, split⟩ := List.exists_cons_of_ne_nil (toList_toString_ne_nil number)
  exact ⟨digit, rest, split, isDigit_of_mem_toString (split ▸ List.mem_cons_self)⟩

/-! ## Numbers -/

theorem toList_toString_negSucc (number : Nat) :
    (toString (Int.negSucc number)).toList = '-' :: (toString (number + 1)).toList := by
  rw [show toString (Int.negSucc number) = "-" ++ toString (number + 1) from rfl]
  simp

theorem readUnsigned_toString {number : Nat} (fits : number ≤ unsignedLimit) :
    readUnsigned (toString number) = some number := by
  obtain ⟨digit, rest, split, isDigit⟩ := exists_toList_toString number
  have read := readDigits_toString number
  rw [split] at read
  have unsigned : digit ≠ '+' := by rintro rfl; revert isDigit; decide
  rw [readUnsigned, split]
  split
  · next same => exact absurd (List.cons.inj same).1 unsigned
  · simp [read, fits]

theorem readSigned_toString {value : Int} (fits : value.natAbs < signedLimit) :
    readSigned (toString value) = some value := by
  cases value with
  | ofNat number =>
      obtain ⟨digit, rest, split, isDigit⟩ := exists_toList_toString number
      have read := readDigits_toString number
      rw [split] at read
      have notMinus : digit ≠ '-' := by rintro rfl; revert isDigit; decide
      have notPlus : digit ≠ '+' := by rintro rfl; revert isDigit; decide
      rw [readSigned, show toString (Int.ofNat number) = toString number from rfl, split]
      split
      · next same => exact absurd (List.cons.inj same).1 notMinus
      · next same => exact absurd (List.cons.inj same).1 notPlus
      · rw [read, Option.filter_some_pos (by simpa using fits)]
        rfl
  | negSucc number =>
      have read := readDigits_toString (number + 1)
      have inside : number + 1 ≤ signedLimit := by simpa using Nat.le_of_lt fits
      rw [readSigned, toList_toString_negSucc]
      simp only [read]
      simp [Option.filter_some, inside, Int.negSucc_eq]

/-- A numeral is made of digits and, in front, perhaps a minus. -/
theorem mem_toString_int {value : Int} {character : Char}
    (member : character ∈ (toString value).toList) :
    character = '-' ∨ character.isDigit = true := by
  cases value with
  | ofNat number =>
      have inside : character ∈ (toString number).toList := member
      exact .inr (isDigit_of_mem_toString inside)
  | negSucc number =>
      rw [toList_toString_negSucc, List.mem_cons] at member
      exact member.imp_right isDigit_of_mem_toString

/-- Numbers that are written alike are the same. -/
theorem toString_nat_inj {left right : Nat} : toString left = toString right ↔ left = right := by
  refine ⟨fun same => ?_, congrArg toString⟩
  have read := readDigits_toString left
  rw [same, readDigits_toString] at read
  exact (Option.some.inj read).symm

theorem toString_int_inj {left right : Int} : toString left = toString right ↔ left = right := by
  refine ⟨fun same => ?_, congrArg toString⟩
  have unsigned (number negative : Nat) :
      toString (Int.ofNat number) ≠ toString (Int.negSucc negative) := by
    intro same
    obtain ⟨digit, rest, split, isDigit⟩ := exists_toList_toString number
    have starts : digit :: rest = '-' :: _ :=
      split.symm.trans ((congrArg String.toList same).trans (toList_toString_negSucc negative))
    rw [(List.cons.inj starts).1] at isDigit
    revert isDigit
    decide
  cases left with
  | ofNat number =>
      cases right with
      | ofNat other => exact congrArg Int.ofNat (toString_nat_inj.mp same)
      | negSucc other => exact absurd same (unsigned number other)
  | negSucc number =>
      cases right with
      | ofNat other => exact absurd same.symm (unsigned other number)
      | negSucc other =>
          have written := congrArg String.toList same
          rw [toList_toString_negSucc, toList_toString_negSucc] at written
          have digits := String.toList_inj.mp (List.cons.inj written).2
          exact congrArg Int.negSucc (Nat.succ.inj (toString_nat_inj.mp digits))

theorem toList_toString_int_ne_nil (value : Int) : (toString value).toList ≠ [] := by
  cases value with
  | ofNat number => exact toList_toString_ne_nil number
  | negSucc number =>
      rw [toList_toString_negSucc]
      exact List.cons_ne_nil _ _

end ChronoSat.Text
