/-
# The table of statistics

Two small tables: what the problem was, and what the search did. A line has a
label at the left and a value at the right; a count of events is followed by how
many of them there were in a second.
-/

import ChronoSat.Instruments

namespace ChronoSat.CommandLine

/-- A line with a label and a value. -/
def statLine (label value : String) : String :=
  "|  " ++ Text.alignLeft 28 label ++ " " ++ Text.alignRight 18 value ++ "  |"

/-- A line with a label, a count and how often that is in a second. -/
def rateLine (label : String) (count : Nat) (elapsed : Measured) : String :=
  "|  " ++ Text.alignLeft 20 label ++ " " ++ Text.alignRight 12 (toString count) ++ " (" ++
    elapsed.rateText count ++ "/sec)  |"

/-- How many literals the clauses of a formula have together. -/
def literalCount (formula : Cnf) : Nat :=
  total (formula.clauses.map Clause.size)

/-- What was measured about solving a formula. -/
structure Measurements where
  parseTime : Measured
  elapsed : Measured
  /-- The memory in use afterwards. -/
  memory : Option Memory

/-- The lines about the problem. -/
def problemLines (formula : Cnf) (measurements : Measurements) : List String :=
  ["",
   "=======================[ Problem Statistics ]=========================",
   statLine "Parse time (s)" measurements.parseTime.secondsText,
   statLine "Variables" (toString formula.numVars),
   statLine "Clauses" (toString formula.size),
   statLine "Literals" (toString (literalCount formula))]

/-- The lines about the search. -/
def searchLines (stats : Search.Stats) (measurements : Measurements) : List String :=
  ["========================[ Search Statistics ]========================",
   rateLine "Decisions" stats.decisions measurements.elapsed,
   rateLine "Propagations" stats.propagations measurements.elapsed,
   rateLine "Conflicts" stats.conflicts measurements.elapsed,
   rateLine "Backtracks" stats.backtracks measurements.elapsed,
   statLine "Max depth" (toString stats.maxDepth),
   statLine "Memory usage (MiB)" (memoryText (measurements.memory.map Memory.allocated)),
   statLine "Resident memory (MiB)" (memoryText (measurements.memory.map Memory.resident)),
   statLine "CPU time (s)" measurements.elapsed.secondsText,
   "====================================================================="]

/-- Both tables. -/
def statisticsLines (formula : Cnf) (stats : Search.Stats) (measurements : Measurements) :
    List String :=
  problemLines formula measurements ++ searchLines stats measurements

end ChronoSat.CommandLine
