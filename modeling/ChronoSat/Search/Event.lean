/-
# The account of a search

A search leaves an account of what it did: every literal that a unit clause
forced, every conflict, every value decided and every decision taken back. The
account is a row of typed events; how an event reads and how important it is are
functions on it. Next to it stand five counters of the same events.
-/

import ChronoSat.Branching
import ChronoSat.SearchState

namespace ChronoSat.Search

/-- How important a message is. -/
inductive Level where
  | error
  | warn
  | info
  | debug
  | trace
deriving DecidableEq, Repr

/-- The name of a level. -/
def Level.name : Level → String
  | error => "ERROR"
  | warn => "WARN"
  | info => "INFO"
  | debug => "DEBUG"
  | trace => "TRACE"

/-- Something that a search did at a node. Its depth is the number of decisions
that are open there. -/
inductive Event where
  /-- A clause had lost all its literals. -/
  | conflict (depth : Nat)
  /-- The literal of a unit clause was made true. -/
  | propagate (literal : Literal) (depth : Nat) (impact : Impact)
  /-- A variable was given a value to try, with so many clauses open. -/
  | decide (choice : Choice) (depth clausesLeft : Nat)
  /-- A value that was tried was taken back. -/
  | backtrack (choice : Choice) (depth : Nat)
deriving DecidableEq

namespace Event

/-- The wording of a choice and the depth it was made at. -/
def choiceText (choice : Choice) (depth : Nat) : String :=
  toString choice.var ++ " = " ++ toString choice.value ++ " at depth " ++ toString depth

/-- The wording of an event. -/
def message : Event → String
  | conflict depth => "conflict at depth " ++ toString depth
  | propagate literal depth impact =>
    "propagate " ++ toString literal.toInt ++ " at depth " ++ toString depth ++ ": " ++
      toString impact.satisfied ++ " satisfied, " ++ toString impact.struck ++ " struck"
  | decide choice depth clausesLeft =>
    "decide " ++ choiceText choice depth ++ " (" ++ toString clausesLeft ++ " clauses left)"
  | backtrack choice depth => "backtrack " ++ choiceText choice depth

/-- How important an event is. -/
def level : Event → Level
  | conflict _ => .trace
  | propagate _ _ _ => .trace
  | decide _ _ _ => .debug
  | backtrack _ _ => .debug

end Event

/-- What a search counts. -/
structure Stats where
  /-- Values tried, counting both values of a variable. -/
  decisions : Nat
  /-- Literals made true because a unit clause forced them. -/
  propagations : Nat
  /-- Nodes with a clause that had lost all its literals. -/
  conflicts : Nat
  /-- Values taken back. -/
  backtracks : Nat
  /-- The most decisions that were open at once. -/
  maxDepth : Nat
deriving DecidableEq, Repr

/-- Nothing counted. -/
def Stats.zero : Stats := ⟨0, 0, 0, 0, 0⟩

end ChronoSat.Search
