/-
# From disjunctive to conjunctive form

Distribution picks one literal from every clause of a disjunctive formula, in
all ways, and makes each choice a clause. Nothing is factored out, so the result
has as many clauses as the product of the lengths. No clauses at all leave one
choice, the empty one, and a clause without literals leaves none.
-/

import ChronoSat.Formula

namespace ChronoSat

/-- All ways to pick one element from each row, in the order in which the pick
from the last row changes fastest. -/
def choices {α : Type} : List (List α) → List (List α)
  | [] => [[]]
  | row :: rest =>
    let later := choices rest
    row.flatMap fun pick => later.map (pick :: ·)

/-- The conjunctive formula that holds when a disjunctive one does. -/
def Formula.distribute (formula : Dnf) : Cnf where
  clauses := (choices (formula.clauses.map Clause.literals)).map fun choice => ⟨.disj, choice⟩
  registry := formula.registry

end ChronoSat
