/-
# Formulas

A formula is a row of clauses together with the registry that names their
variables. Its normal form is part of its type and fixes the connective of every
clause that is added. Clauses come in two ways: by name (`addClause`, `append`),
which registers what is new, and by literal (`pushClause`), which asks for
registered variables.

Many clauses are taken in by an `Intake`, which puts the latest one in front.
-/

import ChronoSat.Clause

namespace ChronoSat

/-- Clauses in order, over the names of a registry. -/
structure Formula (form : NormalForm) where
  clauses : List Clause
  registry : Registry
deriving DecidableEq

/-- A conjunction of disjunctive clauses. -/
abbrev Cnf := Formula .conjunctive

/-- A disjunction of conjunctive clauses. -/
abbrev Dnf := Formula .disjunctive

namespace Formula

variable {form : NormalForm}

/-- No clauses and no names. -/
def empty : Formula form := ⟨[], .empty⟩

/-- How many clauses there are. -/
def size (formula : Formula form) : Nat := formula.clauses.length

/-- How many variables are registered. -/
def numVars (formula : Formula form) : Nat := formula.registry.size

/-- Whether some clause has no literals. -/
def hasEmptyClause (formula : Formula form) : Bool := formula.clauses.any Clause.isEmpty

/-- Whether some clause is a single literal. -/
def hasUnitClause (formula : Formula form) : Bool := formula.clauses.any Clause.isUnit

/-- The clauses that are a single literal, in order. -/
def unitClauses (formula : Formula form) : List Clause := formula.clauses.filter Clause.isUnit

/-- The clause at a place, counted from 0. -/
def clauseAt (formula : Formula form) (place : Nat) : Except Fault Clause :=
  match formula.clauses[place]? with
  | none => .error (.outOfRange place formula.size)
  | some clause => .ok clause

/-- Adds the clause of the named literals at the end. Names not seen before are
registered from left to right. -/
def addNamed (formula : Formula form) (row : NamedClause) : Except Fault (Formula form) := do
  let (literals, registry) ← formula.registry.registerAll row
  return ⟨formula.clauses ++ [⟨form.inner, literals⟩], registry⟩

/-- The name and polarity that a text spells, or the error that it spells none. -/
def readLiteral (text : String) : Except Error (String × Bool) :=
  match Literal.split? text with
  | none => .error (.invalidLiteral text)
  | some named => .ok named

/-- Adds the clause of the literals that the texts spell at the end. All texts are
read before the first name is registered. -/
def addClause (formula : Formula form) (texts : List String) : Except Failure (Formula form) := do
  let row ← (texts.mapM readLiteral).mapError .error
  (formula.addNamed row).mapError .fault

/-- Adds a clause over registered variables at the end, under the connective of
the formula's form. -/
def pushClause (formula : Formula form) (clause : Clause) : Except Error (Formula form) := do
  let _ ← clause.encode formula.registry
  return { formula with clauses := formula.clauses ++ [⟨form.inner, clause.literals⟩] }

/-- The names and polarities of the literals whose variables are registered. -/
def namedLiterals (registry : Registry) (clause : Clause) : NamedClause :=
  clause.literals.filterMap fun literal =>
    (registry.name? literal.var).map fun name => (name, literal.polarity)

/-- The clauses that are not equivalent to one before them, where those in
`earlier` come before all. -/
def firstOfEach (earlier : List Clause) : List Clause → List Clause
  | [] => []
  | clause :: rest =>
    if earlier.any fun kept => kept.isEquivalent clause then firstOfEach earlier rest
    else clause :: firstOfEach (clause :: earlier) rest

/-- The formula with every clause dropped that is equivalent to an earlier one. -/
def simplify (formula : Formula form) : Formula form :=
  { formula with clauses := firstOfEach [] formula.clauses }

/-- The clauses as rows of signed integers. -/
def encode (formula : Formula form) : Except Error (List (List Int)) :=
  formula.clauses.mapM fun clause => clause.encode formula.registry

end Formula

/-- Whether every clause holds, counting only literals that are assigned and true. -/
def Formula.evaluate (formula : Cnf) (assignment : Assignment) : Bool :=
  formula.clauses.all fun clause => clause.evaluate assignment

/-! ## Taking in many clauses -/

/-- The clauses taken in so far, the latest first, over the names of a registry. -/
structure Intake (form : NormalForm) where
  latestFirst : List Clause
  registry : Registry

/-- What reading gives: the clauses it completed, by name, and how it ended behind the
last of them. -/
@[ext]
structure Yield where
  rows : List NamedClause
  ended : Except Error Unit

/-- The clauses of a formula as if they had just been taken in. -/
def Formula.intake {form : NormalForm} (formula : Formula form) : Intake form :=
  ⟨formula.clauses.reverse, formula.registry⟩

namespace Intake

variable {form : NormalForm}

/-- Nothing taken in. -/
def start : Intake form := Formula.empty.intake

/-- The formula of the clauses taken in. -/
def formula (intake : Intake form) : Formula form :=
  ⟨intake.latestFirst.reverse, intake.registry⟩

/-- Takes in the clause of the named literals. Names not seen before are registered
from left to right. -/
def take (intake : Intake form) (row : NamedClause) : Except Fault (Intake form) := do
  let (literals, registry) ← intake.registry.registerAll row
  return ⟨⟨form.inner, literals⟩ :: intake.latestFirst, registry⟩

/-- Takes in several clauses, one after the other. -/
def takeAll (intake : Intake form) (rows : List NamedClause) : Except Fault (Intake form) :=
  rows.foldlM take intake

/-- Takes in what was read. Each clause is taken in as soon as it is complete, so a fault
comes before the error that reading ended with. -/
def takeYield (intake : Intake form) (given : Yield) : Except Failure (Intake form) := do
  let longer ← (intake.takeAll given.rows).mapError .fault
  given.ended.mapError .error
  return longer

end Intake

/-- Adds every clause of another formula at the end, matching variables by name. -/
def Formula.append {form : NormalForm} (formula other : Formula form) :
    Except Fault (Formula form) := do
  let longer ← formula.intake.takeAll (other.clauses.map (namedLiterals other.registry))
  return longer.formula

end ChronoSat
