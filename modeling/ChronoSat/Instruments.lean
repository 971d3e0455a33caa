/-
# Measuring a search

What a search finds does not depend on how it is measured, but a report shows
both. The instruments of whoever runs the program are kept in one record of
actions: reading the time, reading the memory in use, a source of draws that nobody
can foresee, and running a search by a clock. A measurement may be missing, and is then
shown as a mark.

`Instruments.none` measures nothing. What it draws from and what its clock shows is
given to it.
-/

import ChronoSat.Double.Arithmetic
import ChronoSat.Double.Writer
import ChronoSat.Solver
import ChronoSat.Text.Columns

namespace ChronoSat

/-- A count of nanoseconds, if it was measured. -/
abbrev Measured := Option Nat

/-- The memory in use, in bytes. -/
structure Memory where
  /-- What the program asked for. -/
  allocated : Nat
  /-- What it occupies. -/
  resident : Nat

/-- The instruments of whoever runs the program, whose draws come from sources of type `γ`. -/
structure Instruments (m : Type → Type) (γ : Type) where
  /-- Nanoseconds since some fixed time. -/
  now : m Measured
  memory : m (Option Memory)
  /-- A source of draws that nobody can foresee. -/
  freshSource : m γ
  /-- Runs a search by a clock. It is told the budget of the search, so that the clock can be
  read for as long as it takes. -/
  timed : {α : Type} → Option Duration → (Clock → Report × α) → m (Report × α)

/-- Instruments that measure nothing. -/
def Instruments.none (m : Type → Type) [Monad m] {γ : Type} (source : γ) (clock : Clock) :
    Instruments m γ where
  now := pure Option.none
  memory := pure Option.none
  freshSource := pure source
  timed _ search := pure (search clock)

namespace Measured

/-- What is shown instead of a measurement that is missing. -/
def missing : String := "*"

/-- The time between two readings. -/
def between (earlier later : Measured) : Measured := do
  return (← later) - (← earlier)

/-- The measured time as a duration. -/
def durationText (elapsed : Measured) : String :=
  match elapsed with
  | none => missing
  | some nanoseconds => (Duration.mk nanoseconds).render

/-- The measured time in units of so many nanoseconds, with three places. -/
def inUnits (unit : Nat) (elapsed : Measured) : String :=
  match elapsed with
  | none => missing
  | some nanoseconds => (Double.ratio nanoseconds unit).renderFixed 3

/-- The measured time in seconds. -/
def secondsText (elapsed : Measured) : String :=
  elapsed.inUnits Duration.perSecond

/-- The measured time in milliseconds. -/
def millisecondsText (elapsed : Measured) : String :=
  elapsed.inUnits Duration.perMillisecond

/-- How often something happened in a second, at the right of a column. -/
def rateText (count : Nat) (elapsed : Measured) : String :=
  match elapsed with
  | none => missing
  | some nanoseconds =>
    Text.alignRight 9 ((Double.ratio (count * Duration.perSecond) nanoseconds).renderFixed 0)

/-- The middle one of some measured times, the later of two in the middle. -/
def median (times : List Measured) : Measured :=
  let sorted := times.mergeSort fun left right => left.getD 0 ≤ right.getD 0
  match sorted[times.length / 2]? with
  | some time => time
  | none => none

end Measured

/-- An amount of memory in units of twenty binary places of bytes, with two places. -/
def memoryText (bytes : Option Nat) : String :=
  match bytes with
  | none => Measured.missing
  | some bytes => (Double.ratio bytes (twoTo 20)).renderFixed 2

end ChronoSat
