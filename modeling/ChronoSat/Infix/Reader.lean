/-
# Reading formula text

A formula is clauses with the outer connective of its form between them. A
clause is a single literal, or a parenthesised row of literals with the inner
connective between them, which may have no literal at all. No tokens are the
formula without clauses.

The reader takes one token at a time. Between two tokens it stands at a `Stage`,
which says what may come next, and it counts the tokens it has taken. A token
that may not come next is refused at its own position, and an end that comes too
early at the number of tokens. The words of a clause are collected before they are
checked for spelling, so a misspelt literal is refused at the position just behind
its clause. A clause that is complete is registered at once, before anything behind
it is looked at.
-/

import ChronoSat.Formula
import ChronoSat.Infix.Token

namespace ChronoSat.Infix

/-- Where the reader stands between two tokens. -/
inductive Stage where
  /-- Before the first token. -/
  | start
  /-- Behind an outer connective: a clause has to follow. -/
  | clause
  /-- Behind a clause: the end or an outer connective has to follow. -/
  | separator
  /-- In a row behind the parenthesis or an inner connective, with the words of
  the row so far, the latest first: a literal has to follow, or the end of a row
  without words. -/
  | literal (latestFirst : List String)
  /-- In a row behind a literal, with the words of the row so far, the latest
  first: an inner connective or the end of the row has to follow. -/
  | joint (latestFirst : List String)
deriving DecidableEq, Repr

/-- The named literals that words spell. A word that spells none is refused at
the given position. -/
def namedLiterals (position : Nat) (words : List String) : Except Error NamedClause :=
  words.mapM fun word =>
    match Literal.split? word with
    | none => .error (.formulaText position (.badLiteral word))
    | some named => .ok named

/-- Takes a token where a clause has to begin. -/
def beginClause (form : NormalForm) (position : Nat) :
    Token → Except Error (Option NamedClause × Stage)
  | .word word =>
    if form.isConnective word then .error (.formulaText position (.connectiveAsLiteral word))
    else do return (some (← namedLiterals (position + 1) [word]), .separator)
  | .opening => .ok (none, .literal [])
  | .closing => .error (.formulaText position .clauseExpected)

/-- Takes a token where an outer connective has to follow. -/
def takeSeparator (form : NormalForm) (position : Nat) :
    Token → Except Error (Option NamedClause × Stage)
  | .word word =>
    if form.outer.matchesWord word then .ok (none, .clause)
    else .error (.formulaText position (.separatorExpected form.outer))
  | _ => .error (.formulaText position (.separatorExpected form.outer))

/-- Takes a token where a literal of a row has to follow. -/
def takeLiteral (form : NormalForm) (position : Nat) (latestFirst : List String) :
    Token → Except Error (Option NamedClause × Stage)
  | .word word =>
    if form.isConnective word then .error (.formulaText position (.connectiveAsLiteral word))
    else .ok (none, .joint (word :: latestFirst))
  | .closing =>
    if latestFirst.isEmpty then .ok (some [], .separator)
    else .error (.formulaText position .literalExpected)
  | .opening => .error (.formulaText position .literalExpected)

/-- Takes a token behind a literal of a row. -/
def takeJoint (form : NormalForm) (position : Nat) (latestFirst : List String) :
    Token → Except Error (Option NamedClause × Stage)
  | .word word =>
    if form.inner.matchesWord word then .ok (none, .literal latestFirst)
    else .error (.formulaText position (.clauseGoesOn form.inner))
  | .closing => do
    return (some (← namedLiterals (position + 1) latestFirst.reverse), .separator)
  | .opening => .error (.formulaText position (.clauseGoesOn form.inner))

/-- Takes the token at a position: the clause it completes, if it completes one,
and where the reader stands behind it. -/
def step (form : NormalForm) (position : Nat) :
    Stage → Token → Except Error (Option NamedClause × Stage)
  | .start, token => beginClause form position token
  | .clause, token => beginClause form position token
  | .separator, token => takeSeparator form position token
  | .literal latestFirst, token => takeLiteral form position latestFirst token
  | .joint latestFirst, token => takeJoint form position latestFirst token

/-- Whether the text may end where the reader stands. -/
def finish (form : NormalForm) (position : Nat) : Stage → Except Error Unit
  | .start => .ok ()
  | .separator => .ok ()
  | .clause => .error (.formulaText position .clauseExpected)
  | .literal _ => .error (.formulaText position .literalExpected)
  | .joint _ => .error (.formulaText position (.clauseGoesOn form.inner))

/-- Reads the clauses that tokens complete, from a stage and a position on. -/
def readFrom (form : NormalForm) (position : Nat) (stage : Stage) : List Token → Yield
  | [] => ⟨[], finish form position stage⟩
  | token :: rest =>
    match step form position stage token with
    | .error problem => ⟨[], .error problem⟩
    | .ok (completed, next) =>
      let more := readFrom form (position + 1) next rest
      ⟨completed.toList ++ more.rows, more.ended⟩

/-- Reads the clauses that a row of tokens stands for. -/
def readTokens (form : NormalForm) (tokens : List Token) : Yield :=
  readFrom form 0 .start tokens

end ChronoSat.Infix

namespace ChronoSat

/-- Reads a formula of either form from its text. -/
def Formula.parse {form : NormalForm} (text : String) : Except Failure (Formula form) := do
  let intake ← Intake.start.takeYield (Infix.readTokens form (Infix.tokens text))
  return intake.formula

end ChronoSat
