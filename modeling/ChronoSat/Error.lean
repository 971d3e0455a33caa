/-
# Faults and errors

Two kinds of failure are kept apart. A *fault* is a use that no well-formed
history of this library makes: a number that is no variable turned into a
literal, a place that does not exist, a count taken below zero, more room than
there can be, more names than there are numbers for. An *error* is an
answer: text that does not parse, a name nobody registered, a search that ran
out of time. Each is recorded as its cause; the wording is one function on the
causes.

Keeping faults as values is what makes it possible to state that they do not
occur.
-/

import ChronoSat.Connective
import ChronoSat.Duration

namespace ChronoSat

/-- A use outside what an operation is defined for. -/
inductive Fault where
  /-- A number that is no variable was to become a literal. -/
  | notAVariable (number : Nat)
  | outOfRange (place size : Nat)
  | counterUnderflow
  /-- A search went on below more nodes than it was allowed to nest. -/
  | nestingLimit
  /-- A budget of time ends later than any clock runs. -/
  | deadlineOverflow
  /-- There cannot be room for so many elements. -/
  | noRoom (count : Nat)
  /-- A new name came when all numbers had been given out. -/
  | registryFull
deriving DecidableEq, Repr

/-- What is wrong with a line of a clause file. -/
inductive Dimacs.Complaint where
  /-- A word of a clause line is not an integer. -/
  | notAnInteger (word : String)
  | malformedHeader
  /-- The number of variables on a problem line is not a number. -/
  | variableCount
  /-- The number of clauses on a problem line is not a number. -/
  | clauseCount
deriving DecidableEq, Repr

/-- The wording of a complaint about a line of a clause file. -/
def Dimacs.Complaint.message : Dimacs.Complaint → String
  | notAnInteger word => "'" ++ word ++ "' is not an integer literal"
  | malformedHeader => "expected 'p cnf <variables> <clauses>'"
  | variableCount => "variable count is not a number"
  | clauseCount => "clause count is not a number"

/-- What is wrong with a formula's text at some token. -/
inductive Infix.Complaint where
  /-- A connective stands where a literal has to. -/
  | connectiveAsLiteral (word : String)
  /-- A word stands for a literal but spells none. -/
  | badLiteral (word : String)
  | literalExpected
  /-- Neither the clause connective nor the end of the clause follows a literal. -/
  | clauseGoesOn (inner : Connective)
  /-- A clause has to begin but does not. -/
  | clauseExpected
  /-- Something other than the formula connective follows a clause. -/
  | separatorExpected (outer : Connective)
deriving DecidableEq, Repr

/-- The wording of an error about a text that is no literal. -/
def invalidLiteralMessage (text : String) : String :=
  "invalid literal '" ++ text ++ "'"

/-- The wording of a complaint about a formula's text. -/
def Infix.Complaint.message : Infix.Complaint → String
  | connectiveAsLiteral word => "expected a literal, found connective '" ++ word ++ "'"
  | badLiteral word => invalidLiteralMessage word
  | literalExpected => "expected a literal"
  | clauseGoesOn inner => "expected '" ++ inner.symbol ++ "' or ')'"
  | clauseExpected => "expected a clause"
  | separatorExpected outer => "expected '" ++ outer.symbol ++ "'"

/-- Why an operation has no result to give. -/
inductive Error where
  /-- A text spells no literal. -/
  | invalidLiteral (text : String)
  | unknownVariable (name : String)
  /-- An integer stands for no registered variable. -/
  | unregisteredId (value : Int)
  /-- A line of a clause file, counted from 1, could not be understood. -/
  | dimacs (line : Nat) (complaint : Dimacs.Complaint)
  /-- A formula's text could not be understood at a token, counted from 0. -/
  | formulaText (position : Nat) (complaint : Infix.Complaint)
  /-- A random clause was to have more distinct variables than there are. -/
  | tooFewVariables (available wanted : Nat)
  /-- A search used up its budget of time. -/
  | timeout (budget : Duration)
  | noCandidate
  | notUtf8
deriving DecidableEq, Repr

namespace Error

/-- The wording of an error. -/
def message : Error → String
  | invalidLiteral text => invalidLiteralMessage text
  | unknownVariable name => "unknown variable '" ++ name ++ "'"
  | unregisteredId value => "variable id " ++ toString value ++ " is not registered"
  | dimacs line complaint => "DIMACS line " ++ toString line ++ ": " ++ complaint.message
  | formulaText position complaint =>
    "formula text, token " ++ toString position ++ ": " ++ complaint.message
  | tooFewVariables available wanted =>
    "cannot draw " ++ toString wanted ++ " distinct variables out of " ++ toString available
  | timeout budget => "search timed out after " ++ budget.render
  | noCandidate => "branching policy returned no candidate variable"
  | notUtf8 => "stream did not contain valid UTF-8"

/-- Whether the error is a search's budget of time running out. -/
def isTimeout : Error → Bool
  | timeout _ => true
  | _ => false

end Error

/-- Why an operation that may also meet a fault gives no result. -/
inductive Failure where
  /-- The operation was used outside what it is defined for. -/
  | fault (fault : Fault)
  /-- The operation has no result to give. -/
  | error (error : Error)
deriving DecidableEq, Repr

end ChronoSat
