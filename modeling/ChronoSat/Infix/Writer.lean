/-
# Writing formula text

A formula is written as its clauses with the outer connective of its form
between them, one space on either side. Every text that is written this way is
one that the reader accepts.
-/

import ChronoSat.Formula

namespace ChronoSat

/-- The text of a formula. -/
def Formula.render {form : NormalForm} (formula : Formula form) : String :=
  (" " ++ form.outer.symbol ++ " ").intercalate
    (formula.clauses.map fun clause => clause.render formula.registry)

end ChronoSat
