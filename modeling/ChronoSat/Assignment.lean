/-
# Assignments

An assignment gives some variables a truth value. It is a row of slots indexed
by the number of the variable, so the slot at 0 belongs to no variable. Reading
beyond the last slot finds nothing assigned, and writing there makes the row
longer: how long it is shows only when two assignments are compared.

An assignment has three other views: the assigned numbers with their values, the
literals it makes true, and a map from names to values. The second needs every
assigned number to be a variable's, the third needs it to be registered.
-/

import ChronoSat.Registry
import ChronoSat.Room

namespace ChronoSat

/-- Truth values by the number of the variable. -/
structure Assignment where
  /-- What each number is assigned, from 0 on. -/
  slots : List (Option Bool)
deriving DecidableEq, Repr

namespace Assignment

/-- The assignment that has no slots. -/
def empty : Assignment := ⟨[]⟩

/-- Nothing assigned, with slots for the numbers up to `numVars`. -/
def unassigned (numVars : Nat) : Assignment :=
  ⟨List.replicate (numVars + 1) none⟩

/-- The numbers from 1 to `numVars` all assigned the same value. -/
def uniform (numVars : Nat) (value : Bool) : Assignment :=
  ⟨none :: List.replicate numVars (some value)⟩

/-- How many bytes a slot takes. -/
def slotWidth : Nat := 1

/-- The assignment with the same slot for every number from 1 to `numVars`, which
is any number at all: there has to be room for the slots. -/
def filled (numVars : Nat) (slot : Option Bool) : Except Fault Assignment := do
  Room.reserve (numVars + 1) slotWidth
  return match slot with
    | none => unassigned numVars
    | some value => uniform numVars value

/-- The largest number there is a slot for. -/
def numVars (assignment : Assignment) : Nat :=
  assignment.slots.length - 1

/-- The value of a number, if it is assigned one. -/
def value? (assignment : Assignment) (var : Nat) : Option Bool :=
  assignment.slots[var]?.join

/-- The slots, with empty ones added until there is one for `var`. -/
def padded (assignment : Assignment) (var : Nat) : List (Option Bool) :=
  assignment.slots ++ List.replicate (var + 1 - assignment.slots.length) none

/-- Overwrites the slot of a number, which is made if there is none. -/
def setSlot (assignment : Assignment) (var : Nat) (content : Option Bool) : Assignment :=
  ⟨(assignment.padded var).set var content⟩

/-- Gives a number a value. -/
def assign (assignment : Assignment) (var : Nat) (value : Bool) : Assignment :=
  assignment.setSlot var (some value)

/-- Takes the value of a number away. -/
def unassign (assignment : Assignment) (var : Nat) : Assignment :=
  assignment.setSlot var none

/-- The truth value of a literal, if its variable is assigned. -/
def literalValue? (assignment : Assignment) (literal : Literal) : Option Bool :=
  (assignment.value? literal.var).map literal.isTrueUnder

/-- The assigned numbers with their values, in ascending order. -/
def pairs (assignment : Assignment) : List (Nat × Bool) :=
  assignment.slots.zipIdx.filterMap fun (slot, var) => slot.map fun value => (var, value)

/-- How many numbers are assigned. -/
def numAssigned (assignment : Assignment) : Nat :=
  assignment.slots.countP Option.isSome

/-- The literal that is true when a number has the given value. -/
def literalOf (pair : Nat × Bool) : Except Fault Literal :=
  match Literal.ofVar? pair.1 pair.2 with
  | none => .error (.notAVariable pair.1)
  | some literal => .ok literal

/-- The literals that the assignment makes true, in ascending order of their
variables. -/
def toLiterals (assignment : Assignment) : Except Fault (List Literal) :=
  assignment.pairs.mapM literalOf

/-- An assigned number's name with its value. -/
def namedPair (registry : Registry) (pair : Nat × Bool) : Except Error (String × Bool) :=
  match registry.name? pair.1 with
  | none => .error (.unregisteredId pair.1)
  | some name => .ok (name, pair.2)

/-- The assigned variables by name, in the order of the names. -/
def toNamed (assignment : Assignment) (registry : Registry) :
    Except Error (List (String × Bool)) := do
  let named ← assignment.pairs.mapM (namedPair registry)
  return named.mergeSort fun left right => left.1 ≤ right.1

/-- Assigns a registered name. -/
def assignNamed (registry : Registry) (assignment : Assignment) (entry : String × Bool) :
    Except Error Assignment :=
  match registry.id? entry.1 with
  | none => .error (.unknownVariable entry.1)
  | some var => .ok (assignment.assign var entry.2)

/-- The assignment that gives registered names the values listed for them. Of
two values for one name the later one counts. -/
def ofNamed (registry : Registry) (entries : List (String × Bool)) : Except Error Assignment :=
  entries.foldlM (assignNamed registry) (unassigned registry.size)

end Assignment

end ChronoSat
