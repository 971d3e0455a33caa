/-
# Branching policies

A policy looks at what remains of a formula and proposes a variable with the
value to try first, or nothing. It may remember something from one proposal to
the next: a source of draws, or the rest of a script.

Four policies come with the library. `naive` takes the first literal there is,
`random` a random literal of a random clause, `twoClause` the first variable
that occurs in clauses of two literals but in no longer one, and `modal` the
variable that occurs most often. All of them propose a variable of a remaining
clause. `scripted` proposes what it was told, whatever the clauses.

The last two of the four count in tables with a row for every registered
variable. A literal over any other variable has no row, which is a fault.
-/

import ChronoSat.Random
import ChronoSat.Remaining

namespace ChronoSat

/-- A variable with the value to try first. -/
structure Choice where
  var : Nat
  value : Bool
deriving DecidableEq, Repr

/-- The same variable with the other value. -/
def Choice.opposite (choice : Choice) : Choice :=
  { choice with value := !choice.value }

/-- The choice that makes a literal true. -/
def Literal.choice (literal : Literal) : Choice :=
  ⟨literal.var, literal.polarity⟩

/-- A rule for what to branch on, with a memory of type `σ`. -/
structure Policy (σ : Type) where
  /-- A proposal for what remains, if there is one, and the memory afterwards. -/
  propose : Remaining → σ → Except Fault (Option Choice × σ)

namespace Branching

/-- The first literal of the first clause that has one. -/
def naiveChoice (remaining : Remaining) : Option Choice :=
  (remaining.clauses.findSome? List.head?).map Literal.choice

section Drawing

variable {γ : Type} [RandomSource γ]

/-- The element of a row at a drawn place. -/
def drawFrom {α : Type} (row : List α) (source : γ) : Except Fault (α × γ) :=
  let drawn := RandomSource.below row.length source
  match row[drawn.1]? with
  | none => .error (.outOfRange drawn.1 row.length)
  | some element => .ok (element, drawn.2)

/-- A random literal of a random clause among those that have one. -/
def randomChoice (remaining : Remaining) (source : γ) : Except Fault (Option Choice × γ) :=
  let candidates := remaining.clauses.filter fun clause => !clause.isEmpty
  if candidates.isEmpty then .ok (none, source)
  else do
    let (clause, source) ← drawFrom candidates source
    let (literal, source) ← drawFrom clause source
    return (some literal.choice, source)

end Drawing

/-- A table with a row for every variable up to the given number. -/
def zeroTable (numVars : Nat) : Array Nat :=
  Array.replicate (numVars + 1) 0

/-- Changes the row of a variable. -/
def updateRow (table : Array Nat) (var : Nat) (change : Nat → Nat) : Except Fault (Array Nat) :=
  if inside : var < table.size then .ok (table.set var (change table[var]))
  else .error (.outOfRange var table.size)

/-- The number in the row of a variable. -/
def readRow (table : Array Nat) (var : Nat) : Except Fault Nat :=
  match table[var]? with
  | none => .error (.outOfRange var table.size)
  | some count => .ok count

/-- Raises the rows of a clause's variables to its length. -/
def raiseRows (table : Array Nat) (clause : List Literal) : Except Fault (Array Nat) :=
  clause.foldlM (fun table literal => updateRow table literal.var (max · clause.length)) table

/-- For every variable the length of the longest clause it occurs in. -/
def longestClauses (remaining : Remaining) : Except Fault (Array Nat) :=
  remaining.clauses.foldlM raiseRows (zeroTable remaining.numVars)

/-- The first variable whose longest clause has two literals. -/
def twoClauseVariable (remaining : Remaining) : Except Fault (Option Nat) := do
  let longest ← longestClauses remaining
  return (List.range' 1 remaining.numVars).find? fun var => longest[var]? == some 2

/-- The first variable whose longest clause has two literals, true at first. If
there is none, a random choice. -/
def twoClauseChoice {γ : Type} [RandomSource γ] (remaining : Remaining) (source : γ) :
    Except Fault (Option Choice × γ) := do
  match ← twoClauseVariable remaining with
  | some var => return (some ⟨var, true⟩, source)
  | none => randomChoice remaining source

/-- Occurrences counted so far. -/
structure Census where
  /-- How often each variable occurs as itself. -/
  positive : Array Nat
  /-- How often each variable occurs negated. -/
  negative : Array Nat
  /-- The variable that reached the highest count first. -/
  leader : Option Nat
  highest : Nat

namespace Census

/-- Nothing counted. -/
def start (numVars : Nat) : Census :=
  ⟨zeroTable numVars, zeroTable numVars, none, 0⟩

/-- Counts one literal. -/
def count (census : Census) (literal : Literal) : Except Fault Census := do
  let positive ← updateRow census.positive literal.var
    fun seen => if literal.polarity then seen + 1 else seen
  let negative ← updateRow census.negative literal.var
    fun seen => if literal.polarity then seen else seen + 1
  let total := (← readRow positive literal.var) + (← readRow negative literal.var)
  if census.highest < total then return ⟨positive, negative, some literal.var, total⟩
  else return { census with positive, negative }

/-- The leader, true at first if it occurs more often as itself than negated. -/
def choice (census : Census) : Except Fault (Option Choice) :=
  match census.leader with
  | none => .ok none
  | some var => do
    let positive ← readRow census.positive var
    let negative ← readRow census.negative var
    return some ⟨var, decide (negative < positive)⟩

end Census

/-- The variable with the most occurrences. Of several, the one that had so many
first, going through the clauses in order. -/
def modalChoice (remaining : Remaining) : Except Fault (Option Choice) := do
  let census ← remaining.clauses.flatten.foldlM Census.count (.start remaining.numVars)
  census.choice

end Branching

/-- The policies that come with the library. -/
inductive Selection where
  | naive
  | random
  | twoClause
  | modal
deriving DecidableEq, Repr

namespace Selection

/-- The name of a policy. -/
def name : Selection → String
  | naive => "naive"
  | random => "random"
  | twoClause => "two-clause"
  | modal => "modal"

/-- All policies that come with the library. -/
def all : List Selection := [naive, random, twoClause, modal]

/-- The policy of a name. -/
def ofName? (name : String) : Option Selection :=
  all.find? fun selection => selection.name == name

/-- The policy itself. Its memory is a source of draws, which those that draw nothing
leave as it is. -/
def policy {γ : Type} [RandomSource γ] : Selection → Policy γ
  | naive => ⟨fun remaining source => .ok (Branching.naiveChoice remaining, source)⟩
  | random => ⟨Branching.randomChoice⟩
  | twoClause => ⟨Branching.twoClauseChoice⟩
  | modal =>
    ⟨fun remaining source => do return (← Branching.modalChoice remaining, source)⟩

end Selection

/-- Proposes the choices of a list one after the other, whatever remains, and
nothing once they are used up. -/
def Policy.scripted : Policy (List Choice) where
  propose _ script := .ok (script.head?, script.tail)

end ChronoSat
