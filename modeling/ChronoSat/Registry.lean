/-
# The registry of names

A registry gives each variable name the next free number, starting from 1, when
the name is first seen. It only ever grows, so a number keeps its meaning. The
list of names in the order of their numbers says everything: the number of a
name is its place in the list, and the same place is where a new name goes.

There are only as many numbers as literals can be made of. Once they are all given
out, a name that has none is a fault.
-/

import ChronoSat.Error
import ChronoSat.Literal

namespace ChronoSat

/-- A clause by the names and polarities of its literals. -/
abbrev NamedClause := List (String × Bool)

/-- Variable names in the order of their numbers. -/
structure Registry where
  /-- The name of variable 1 comes first. -/
  names : List String
deriving DecidableEq, Repr

namespace Registry

/-- A registry that has seen no name. -/
def empty : Registry := ⟨[]⟩

/-- How many names are registered, which is also the largest number given out. -/
def size (registry : Registry) : Nat := registry.names.length

/-- Whether no name is registered. -/
def isEmpty (registry : Registry) : Bool := registry.names.isEmpty

/-- The number that registering a name gives: the one it has, or else the next
free one. -/
def idFor (registry : Registry) (name : String) : Nat :=
  registry.names.idxOf name + 1

theorem idFor_pos (registry : Registry) (name : String) : 0 < registry.idFor name :=
  Nat.succ_pos _

/-- Sees a name. A new one is given the next free number, and it is a fault if there
is none left. -/
def register (registry : Registry) (name : String) : Except Fault Registry :=
  if name ∈ registry.names then .ok registry
  else if registry.size < Literal.maxVar then .ok ⟨registry.names ++ [name]⟩
  else .error .registryFull

/-- The number of a registered name. -/
def id? (registry : Registry) (name : String) : Option Nat :=
  if name ∈ registry.names then some (registry.idFor name) else none

/-- The name of a registered number. -/
def name? (registry : Registry) (var : Nat) : Option String :=
  if var = 0 then none else registry.names[var - 1]?

/-- Whether a number is registered. -/
def contains (registry : Registry) (var : Nat) : Bool :=
  0 < var && var ≤ registry.size

/-- The registered numbers in ascending order. -/
def vars (registry : Registry) : List Nat :=
  List.range' 1 registry.size

/-- The literal of a name that is or is about to be registered. -/
def literalFor (registry : Registry) (name : String) (polarity : Bool) : Literal :=
  ⟨registry.idFor name, polarity, registry.idFor_pos name⟩

/-- Reads the text of a literal and registers its name. The registry that comes
back has seen the name. -/
def intern (registry : Registry) (text : String) : Except Failure (Literal × Registry) :=
  match Literal.split? text with
  | none => .error (.error (.invalidLiteral text))
  | some (name, polarity) => do
    let grown ← (registry.register name).mapError .fault
    return (registry.literalFor name polarity, grown)

/-- Reads the text of a literal over names that are registered already. -/
def lookUp (registry : Registry) (text : String) : Except Error Literal :=
  match Literal.split? text with
  | none => .error (.invalidLiteral text)
  | some (name, polarity) =>
    if name ∈ registry.names then .ok (registry.literalFor name polarity)
    else .error (.unknownVariable name)

/-- The text of a literal over a registered variable. -/
def render (registry : Registry) (literal : Literal) : Except Error String :=
  match registry.name? literal.var with
  | none => .error (.unregisteredId literal.toInt)
  | some name => .ok (Literal.spell name literal.polarity)

/-- The signed integer of a literal over a registered variable. -/
def encode (registry : Registry) (literal : Literal) : Except Error Int :=
  if registry.contains literal.var then .ok literal.toInt
  else .error (.unregisteredId literal.toInt)

/-- The literal over a registered variable that a signed integer stands for. -/
def decode (registry : Registry) (value : Int) : Except Error Literal :=
  match Literal.ofInt? value with
  | none => .error (.unregisteredId value)
  | some literal =>
    if registry.contains literal.var then .ok literal else .error (.unregisteredId value)

/-- Registers the names of a row of literals from left to right and returns the
literals with the registry that has seen them all. -/
def registerAll (registry : Registry) : NamedClause → Except Fault (List Literal × Registry)
  | [] => .ok ([], registry)
  | (name, polarity) :: rest => do
    let grown ← registry.register name
    let (literals, grown) ← grown.registerAll rest
    return (registry.literalFor name polarity :: literals, grown)

end Registry

end ChronoSat
