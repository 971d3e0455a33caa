/-
# Durations

A length of time, counted in whole nanoseconds. It is written in the largest of
the units second, millisecond, microsecond and nanosecond that it fills at least
once, with as many decimal places as it takes to lose nothing and no trailing
zero.
-/

import ChronoSat.Magnitude

namespace ChronoSat

/-- A length of time in nanoseconds. -/
structure Duration where
  nanoseconds : Nat
deriving DecidableEq, Repr, Inhabited

namespace Duration

/-- How many nanoseconds a second has. -/
def perSecond : Nat := 1000000000

/-- How many nanoseconds a millisecond has. -/
def perMillisecond : Nat := 1000000

/-- How many nanoseconds a microsecond has. -/
def perMicrosecond : Nat := 1000

/-- The durations that can be told apart from each other end before this many
seconds. -/
def secondsLimit : Nat := 0x10000000000000000

/-- The duration of the given seconds and nanoseconds, where the nanoseconds may
make up further whole seconds. There is none of `secondsLimit` seconds or more. -/
def ofParts? (seconds nanos : Nat) : Option Duration :=
  let total := seconds * perSecond + nanos
  if total < secondsLimit * perSecond then some ⟨total⟩ else none

/-- The whole seconds of a duration. -/
def seconds (duration : Duration) : Nat :=
  duration.nanoseconds / perSecond

/-- What a duration has beyond its whole seconds, in nanoseconds. -/
def subsecond (duration : Duration) : Nat :=
  duration.nanoseconds % perSecond

/-- No time at all. -/
def zero : Duration := ⟨0⟩

/-- The decimal digits of `remainder` as a fraction with the given number of
places, without trailing zeros. -/
def fractionDigits (places remainder : Nat) : List Char :=
  let digits := Nat.toDigits 10 remainder
  let padded := List.replicate (places - digits.length) '0' ++ digits
  (padded.reverse.dropWhile (· == '0')).reverse

/-- A count of nanoseconds in a unit that has so many decimal places of them. -/
def inUnit (nanoseconds places : Nat) (unitName : String) : String :=
  let whole := toString (nanoseconds / tenTo places)
  let remainder := nanoseconds % tenTo places
  if remainder = 0 then whole ++ unitName
  else whole ++ "." ++ String.ofList (fractionDigits places remainder) ++ unitName

/-- A duration in the largest unit that it fills at least once. -/
def render (duration : Duration) : String :=
  if perSecond ≤ duration.nanoseconds then inUnit duration.nanoseconds 9 "s"
  else if perMillisecond ≤ duration.nanoseconds then inUnit duration.nanoseconds 6 "ms"
  else if perMicrosecond ≤ duration.nanoseconds then inUnit duration.nanoseconds 3 "µs"
  else inUnit duration.nanoseconds 0 "ns"

end Duration

end ChronoSat
