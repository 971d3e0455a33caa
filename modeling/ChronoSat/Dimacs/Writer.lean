/-
# Writing clause files

A formula is written as a problem line with its counts and one line of integers
for each clause. The integers are the numbers of the registry. A clause ends
with a zero or with its line, as asked.
-/

import ChronoSat.Formula

namespace ChronoSat.Dimacs

/-- How the line of a clause ends. -/
inductive Terminator where
  | zero
  /-- With nothing but the line. -/
  | none
deriving DecidableEq, Repr

/-- The integers at the end of a clause's line. -/
def Terminator.closing : Terminator → List Int
  | zero => [0]
  | none => []

/-- The line of a clause. -/
def clauseLine (terminator : Terminator) (values : List Int) : String :=
  " ".intercalate ((values ++ terminator.closing).map toString) ++ "\n"

/-- The problem line. -/
def headerLine (formula : Cnf) : String :=
  "p cnf " ++ toString formula.numVars ++ " " ++ toString formula.size ++ "\n"

/-- The text of a formula as a clause file. -/
def write (formula : Cnf) (terminator : Terminator) : Except Error String := do
  let rows ← formula.encode
  return rows.foldl (fun text row => text ++ clauseLine terminator row) (headerLine formula)

end ChronoSat.Dimacs
