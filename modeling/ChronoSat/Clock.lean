/-
# Clocks

A search with a budget of time notes when it starts, and looks at the clock at every
node. Its time is up as soon as a look shows the time of the start plus the budget, or a
later one. What the looks show is not for the search to decide. A clock is therefore
given by what it shows, and all that is known of it is that it does not go back behind
the start and that there is a last time that it can show. A budget that ends behind this
time is a fault.

To the search itself only one thing matters about a look: whether the time is up.
-/

import ChronoSat.Duration

namespace ChronoSat

/-- Tells at each look, counted from 0, whether the time is up. -/
abbrev Alarm := Nat → Bool

/-- The alarm of one whose time is never up. -/
def Alarm.never : Alarm := fun _ => false

/-- The alarm of one whose time is up at once. -/
def Alarm.atOnce : Alarm := fun _ => true

/-- The first time, in nanoseconds, that no clock can show: seconds are counted by a signed
64-bit number. -/
def Clock.limit : Nat := 0x8000000000000000 * Duration.perSecond

/-- What a clock shows, in nanoseconds, from the start of a search on. -/
structure Clock where
  started : Nat
  /-- The time at each look, counted from 0. -/
  reading : Nat → Nat
  started_le : ∀ look, started ≤ reading look
  reading_lt : ∀ look, reading look < Clock.limit

namespace Clock

theorem started_lt (clock : Clock) : clock.started < limit :=
  Nat.lt_of_le_of_lt (clock.started_le 0) (clock.reading_lt 0)

/-- Whether the clock can show the time at which a budget is used up. -/
def deadlineFits (clock : Clock) (timeout : Option Duration) : Bool :=
  timeout.all fun budget => clock.started + budget.nanoseconds < limit

/-- Compares each look with the time at which a budget is used up. -/
def alarm (clock : Clock) (timeout : Option Duration) : Alarm := fun look =>
  match timeout with
  | none => false
  | some budget => clock.started + budget.nanoseconds ≤ clock.reading look

@[simp]
theorem deadlineFits_none (clock : Clock) : clock.deadlineFits none = true := rfl

@[simp]
theorem alarm_none (clock : Clock) : clock.alarm none = .never := rfl

/-- No time at all ends at a time that the clock can show. -/
@[simp]
theorem deadlineFits_zero (clock : Clock) : clock.deadlineFits (some .zero) = true :=
  decide_eq_true clock.started_lt

/-- No time at all is over at every look. -/
@[simp]
theorem alarm_zero (clock : Clock) : clock.alarm (some .zero) = .atOnce := by
  funext look
  exact decide_eq_true (clock.started_le look)

/-- The clock that shows the time of the start for so many looks and a later time from then on. -/
def jumping (started later looks : Nat) (ordered : started ≤ later) (shown : later < limit) :
    Clock where
  started := started
  reading look := if look < looks then started else later
  started_le look := by split <;> omega
  reading_lt look := by split <;> omega

end Clock

end ChronoSat
