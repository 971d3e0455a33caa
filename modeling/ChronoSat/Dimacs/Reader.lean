/-
# Reading clause files

A clause file in DIMACS format is read line by line. A line without words is
skipped, and so is a comment, whose first word begins with `c`. A line that
begins with the word `p` is a problem line; its counts are compared with what
was read and never used. The word `%` at the start of a line ends the file. Any
other line is a row of integers: zero ends a clause, and so does the end of a
line if a clause is open.

The integer of a literal names its variable: variable 7 goes by the name `p7`.
Variables are registered as they come, so their numbers may differ from those in
the file. What is odd about a file but does no harm is reported as a warning;
the warnings up to an error are kept with the error.
-/

import ChronoSat.Formula
import ChronoSat.Text.Numeral

namespace ChronoSat.Dimacs

/-- What a problem line announces. -/
structure Header where
  /-- The number of the line, from 1. -/
  line : Nat
  numVars : Nat
  clauses : Nat
deriving DecidableEq, Repr

/-- What is odd about a clause file. -/
inductive Warning where
  | repeatedHeader (line : Nat)
  /-- The problem line announces other counts than were read. -/
  | headerMismatch (header : Header) (numVars clauses : Nat)
deriving DecidableEq, Repr

/-- The wording of a warning. -/
def Warning.message : Warning → String
  | repeatedHeader line => "DIMACS line " ++ toString line ++ ": repeated problem line ignored"
  | headerMismatch header numVars clauses =>
    "DIMACS line " ++ toString header.line ++ ": header declares " ++
      toString header.numVars ++ " variables and " ++ toString header.clauses ++
      " clauses, read " ++ toString numVars ++ " and " ++ toString clauses

/-- The byte that ends a line. -/
def newline : UInt8 := 10

/-- The lines of a row of bytes whose current line has already collected the
given bytes, last byte first. -/
def linesFrom (collected : List UInt8) : List UInt8 → List (List UInt8)
  | [] => if collected.isEmpty then [] else [collected.reverse]
  | byte :: rest =>
    if byte = newline then collected.reverse :: linesFrom [] rest
    else linesFrom (byte :: collected) rest

/-- The lines of a file, without their line ends. Bytes behind the last line end
are a line of their own. -/
def lines (bytes : List UInt8) : List (List UInt8) :=
  linesFrom [] bytes

/-- The text of a row of bytes, if it is UTF-8. -/
def text? (bytes : List UInt8) : Option String :=
  String.fromUTF8? ⟨bytes.toArray⟩

/-- What is known after some lines. -/
structure Progress where
  /-- The clauses read. -/
  intake : Intake .conjunctive
  header : Option Header
  warnings : List Warning

/-- Nothing read. -/
def Progress.start : Progress := ⟨.start, none, []⟩

/-- Reads a problem line, given by its words. -/
def readHeader (line : Nat) : List String → Except Error Header
  | ["p", "cnf", numVars, clauses] =>
    match Text.readUnsigned numVars with
    | none => .error (.dimacs line .variableCount)
    | some numVars =>
      match Text.readUnsigned clauses with
      | none => .error (.dimacs line .clauseCount)
      | some clauses => .ok ⟨line, numVars, clauses⟩
  | _ => .error (.dimacs line .malformedHeader)

/-- Reads a word of a clause line. -/
def readInteger (line : Nat) (word : String) : Except Error Int :=
  match Text.readSigned word with
  | none => .error (.dimacs line (.notAnInteger word))
  | some value => .ok value

/-- The named literal that an integer of a clause file stands for. -/
def namedLiteral (value : Int) : String × Bool :=
  ("p" ++ toString value.natAbs, decide (0 < value))

/-- Reads the clauses of a line of integers, given by the words that are left of it. The
open clause has already collected the given literals, the latest first. What is behind
the last zero is a clause only if it is not empty. -/
def integersFrom (line : Nat) (collected : NamedClause) : List String → Yield
  | [] => ⟨if collected.isEmpty then [] else [collected.reverse], .ok ()⟩
  | word :: rest =>
    match readInteger line word with
    | .error problem => ⟨[], .error problem⟩
    | .ok value =>
      if value = 0 then
        let more := integersFrom line [] rest
        ⟨collected.reverse :: more.rows, more.ended⟩
      else integersFrom line (namedLiteral value :: collected) rest

/-- Takes in a problem line. -/
def takeHeader (line : Nat) (words : List String) (progress : Progress) :
    Except Error Progress :=
  match progress.header with
  | some _ =>
    .ok { progress with warnings := progress.warnings ++ [.repeatedHeader line] }
  | none => do return { progress with header := some (← readHeader line words) }

/-- Takes in a line of integers. -/
def takeIntegers (line : Nat) (words : List String) (progress : Progress) :
    Except Failure Progress := do
  let intake ← progress.intake.takeYield (integersFrom line [] words)
  return { progress with intake }

/-- What a line is, told by its words. -/
inductive LineKind where
  /-- No words, or a comment. -/
  | skipped
  /-- The mark that ends the file. -/
  | endMark
  | header
  /-- A row of integers, or what should be one. -/
  | integers
deriving DecidableEq, Repr

/-- The kind of the line with the given words. -/
def LineKind.ofWords : List String → LineKind
  | [] => skipped
  | first :: _ =>
    if first = "%" then endMark
    else if first.toList.head? = some 'c' then skipped
    else if first = "p" then header
    else integers

/-- What reading a clause file gives. -/
structure Reading where
  /-- The formula, or why there is none. -/
  result : Except Failure Cnf
  warnings : List Warning

/-- Compares the announced counts with those read. -/
def countWarnings (header : Option Header) (formula : Cnf) : List Warning :=
  match header with
  | none => []
  | some header =>
    if header.numVars = formula.numVars ∧ header.clauses = formula.size then []
    else [.headerMismatch header formula.numVars formula.size]

/-- What is given at the end of a file. -/
def Progress.finish (progress : Progress) : Reading :=
  let formula := progress.intake.formula
  ⟨.ok formula, progress.warnings ++ countWarnings progress.header formula⟩

/-- Reads lines, the first of which has the given number. -/
def readLines (number : Nat) (progress : Progress) : List (List UInt8) → Reading
  | [] => progress.finish
  | line :: rest =>
    match text? line with
    | none => ⟨.error (.error .notUtf8), progress.warnings⟩
    | some text =>
      let words := Text.words text
      let taken : Except Failure (Option Progress) := match LineKind.ofWords words with
        | .endMark => .ok none
        | .skipped => .ok (some progress)
        | .header => ((takeHeader number words progress).map some).mapError .error
        | .integers => (takeIntegers number words progress).map some
      match taken with
      | .error failure => ⟨.error failure, progress.warnings⟩
      | .ok none => progress.finish
      | .ok (some progress) => readLines (number + 1) progress rest

/-- Reads a clause file. -/
def read (bytes : List UInt8) : Reading :=
  readLines 1 .start (lines bytes)

end ChronoSat.Dimacs
