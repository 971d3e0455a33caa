/-
# Columns

Tables are printed in columns of a least width. A text that is too short for its
column is filled up with spaces on one side; one that is too long is left whole,
so that no table ever hides a digit.
-/

namespace ChronoSat.Text

/-- As many spaces as `count` says. -/
def spaces (count : Nat) : String :=
  String.ofList (List.replicate count ' ')

/-- The text at the left of a column, filled up with spaces to the least width. -/
def alignLeft (width : Nat) (text : String) : String :=
  text ++ spaces (width - text.length)

/-- The text at the right of a column, filled up with spaces to the least width. -/
def alignRight (width : Nat) (text : String) : String :=
  spaces (width - text.length) ++ text

/-- A text that fills its column is left whole. -/
theorem alignRight_of_le {width : Nat} {text : String} (full : width ≤ text.length) :
    alignRight width text = text := by
  simp [alignRight, spaces, Nat.sub_eq_zero_of_le full]

/-- A text that fills its column is left whole. -/
theorem alignLeft_of_le {width : Nat} {text : String} (full : width ≤ text.length) :
    alignLeft width text = text := by
  simp [alignLeft, spaces, Nat.sub_eq_zero_of_le full]

end ChronoSat.Text
