/-
# Tokens of formula text

Formula text falls apart into parentheses and words. A word is a maximal run of
characters that are neither blank nor a parenthesis; what it means is left to
the reader of the tokens.
-/

import ChronoSat.Text.Blank

namespace ChronoSat.Infix

/-- A piece of formula text. -/
inductive Token where
  | opening
  | closing
  /-- A run of other characters that are not blank. -/
  | word (text : String)
deriving DecidableEq, Repr

/-- The word collected so far, last character first, as a row of tokens. -/
def finishToken (collected : List Char) : List Token :=
  (Text.finishWord collected).map Token.word

/-- The tokens of a text whose current word has already collected the given
characters, last character first. -/
def tokensFrom (collected : List Char) : List Char → List Token
  | [] => finishToken collected
  | character :: rest =>
    if character = '(' then finishToken collected ++ .opening :: tokensFrom [] rest
    else if character = ')' then finishToken collected ++ .closing :: tokensFrom [] rest
    else if Text.isBlank character then finishToken collected ++ tokensFrom [] rest
    else tokensFrom (character :: collected) rest

/-- The tokens of a text in order. -/
def tokens (text : String) : List Token :=
  tokensFrom [] text.toList

end ChronoSat.Infix
