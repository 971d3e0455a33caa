/-
# Literals

A literal is a variable together with a polarity. Variables are numbered from 1,
so a literal is the same thing as an integer other than zero: the magnitude is
the variable and the sign is the polarity. In text a variable goes by its name,
and a negated literal is the name behind a negation sign.

Numbers that come from outside may be no variable at all. `Literal.ofVar?` is the
one place where such a number is turned into a literal, and it refuses zero and
everything above `Literal.maxVar`.
-/

import ChronoSat.Text.Blank

namespace ChronoSat

/-- A variable, numbered from 1, with a polarity. -/
structure Literal where
  var : Nat
  /-- Whether the literal asks for the variable to be true. -/
  polarity : Bool
  /-- Variables are numbered from 1. -/
  var_pos : 0 < var
deriving DecidableEq

namespace Literal

/-- The largest number that a variable may have when a literal is made of it. -/
def maxVar : Nat := 0x7FFFFFFF

/-- The literal of a variable given by its number, if that number is one. -/
def ofVar? (var : Nat) (polarity : Bool) : Option Literal :=
  if inRange : 0 < var ∧ var ≤ maxVar then some ⟨var, polarity, inRange.1⟩ else none

/-- The literal that a signed integer stands for. Zero stands for none. -/
def ofInt? (value : Int) : Option Literal :=
  if nonzero : value = 0 then none
  else some ⟨value.natAbs, decide (0 < value), Int.natAbs_pos.mpr nonzero⟩

/-- The signed integer that stands for a literal. -/
def toInt (literal : Literal) : Int :=
  if literal.polarity then literal.var else -literal.var

/-- The literal of the same variable with the opposite polarity. -/
def negated (literal : Literal) : Literal :=
  { literal with polarity := !literal.polarity }

/-- The literal of opposite polarity, if a literal can be made of the variable. -/
def opposite? (literal : Literal) : Option Literal :=
  ofVar? literal.var (!literal.polarity)

/-- Whether the literal asks for its variable to be false. -/
def isNegated (literal : Literal) : Bool :=
  !literal.polarity

/-- Whether giving `value` to the literal's variable makes the literal true. -/
def isTrueUnder (literal : Literal) (value : Bool) : Bool :=
  literal.polarity == value

@[simp] theorem negated_var (literal : Literal) : literal.negated.var = literal.var := rfl

@[simp] theorem negated_polarity (literal : Literal) :
    literal.negated.polarity = !literal.polarity := rfl

@[simp] theorem negated_negated (literal : Literal) : literal.negated.negated = literal := by
  cases literal
  simp [negated]

theorem ofVar?_of_not_inRange {var : Nat} (polarity : Bool)
    (outside : ¬(0 < var ∧ var ≤ maxVar)) : ofVar? var polarity = none := by
  simp [ofVar?, outside]

theorem ofInt?_toInt (literal : Literal) : ofInt? literal.toInt = some literal := by
  obtain ⟨var, polarity, var_pos⟩ := literal
  cases polarity <;> simp [ofInt?, toInt] <;> omega

theorem toInt_inj {left right : Literal} (same : left.toInt = right.toInt) : left = right := by
  have read := left.ofInt?_toInt
  rw [same, right.ofInt?_toInt] at read
  exact (Option.some.inj read).symm

theorem ofInt?_eq_some_iff {value : Int} {literal : Literal} :
    ofInt? value = some literal ↔ literal.toInt = value := by
  constructor
  · intro made
    unfold ofInt? at made
    split at made
    · cases made
    · obtain rfl := Option.some.inj made
      simp only [toInt, decide_eq_true_eq]
      split <;> omega
  · rintro rfl
    exact literal.ofInt?_toInt

theorem natAbs_toInt (literal : Literal) : literal.toInt.natAbs = literal.var := by
  unfold toInt
  split <;> simp

theorem toInt_ne_zero (literal : Literal) : literal.toInt ≠ 0 := by
  have positive := literal.var_pos
  rw [← natAbs_toInt] at positive
  exact Int.natAbs_pos.mp positive

/-- The sign in front of the name of a negated variable. -/
def negationSign : Char := '¬'

/-- Words that a formula reads as connectives, which are therefore no names. -/
def reservedNames : List String := ["v", "∨", "∧"]

/-- Whether a character may stand in a name: it is neither blank, nor a
parenthesis, nor the negation sign. -/
def isNameChar (character : Char) : Bool :=
  !(Text.isBlank character || character == '(' || character == ')' || character == negationSign)

/-- Whether a text can name a variable: it is not empty, not reserved, and made
of characters that may stand in a name. -/
def isName (name : String) : Bool :=
  !name.isEmpty && !reservedNames.contains name && name.toList.all isNameChar

/-- The name and the polarity that a literal's text spells, if it spells any. -/
def split? (text : String) : Option (String × Bool) :=
  let parts := match text.toList with
    | '¬' :: name => (String.ofList name, false)
    | _ => (text, true)
  if isName parts.1 then some parts else none

/-- The text of a literal over the variable of the given name. -/
def spell (name : String) (polarity : Bool) : String :=
  if polarity then name else negationSign.toString ++ name

end Literal

end ChronoSat
