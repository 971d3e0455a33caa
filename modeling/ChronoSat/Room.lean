/-
# Room

Some sequences are given room for all the elements they may come to hold before
the first of them is there. Room is measured in bytes, and there is a limit to
how much of it can be asked for at once. Asking for more is a fault, even if few
of the elements would ever have come. Room that is granted leaves no trace: what
a sequence holds is the same with and without it.
-/

import ChronoSat.Error

namespace ChronoSat.Room

/-- The most bytes that can be asked for at once. -/
def limit : Nat := 0x7FFFFFFFFFFFFFFF

/-- Asks for room for `count` elements of `width` bytes each. -/
def reserve (count width : Nat) : Except Fault Unit :=
  if count * width ≤ limit then .ok () else .error (.noRoom count)

theorem reserve_of_le {count width : Nat} (fits : count * width ≤ limit) :
    reserve count width = .ok () := by
  simp [reserve, fits]

end ChronoSat.Room
