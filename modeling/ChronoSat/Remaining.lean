/-
# What a branching policy sees

A policy decides from the clauses that are still open and the number of
variables there are. A formula offers this view of itself, and so does the
working state of a search, so that a policy cannot tell them apart.
-/

import ChronoSat.Formula

namespace ChronoSat

/-- The clauses still open, over variables numbered from 1. -/
structure Remaining where
  /-- The literals of the open clauses, in order. -/
  clauses : List (List Literal)
  /-- How many variables are registered. -/
  numVars : Nat
deriving DecidableEq

/-- A formula with all of its clauses open. -/
def Formula.remaining {form : NormalForm} (formula : Formula form) : Remaining :=
  ⟨formula.clauses.map Clause.literals, formula.numVars⟩

end ChronoSat
