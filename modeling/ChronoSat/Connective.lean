/-
# Connectives and normal forms

A formula here has two layers: literals joined into clauses, and clauses joined
into a formula. A normal form says which connective serves which layer. Each
connective is written one way and read in one or two ways.
-/

namespace ChronoSat

/-- What joins the parts of a clause or of a formula. -/
inductive Connective where
  | conj
  | disj
deriving DecidableEq, Repr

namespace Connective

/-- The word a connective is written as. -/
def symbol : Connective → String
  | conj => "∧"
  | disj => "v"

/-- The words a connective is read from. -/
def spellings : Connective → List String
  | conj => ["∧"]
  | disj => ["v", "∨"]

/-- Whether a word spells the connective. -/
def matchesWord (connective : Connective) (word : String) : Bool :=
  connective.spellings.contains word

end Connective

/-- Which connective joins literals and which joins clauses. -/
inductive NormalForm where
  | conjunctive
  | disjunctive
deriving DecidableEq, Repr

namespace NormalForm

/-- The connective between the literals of one clause. -/
def inner : NormalForm → Connective
  | conjunctive => .disj
  | disjunctive => .conj

/-- The connective between clauses. -/
def outer : NormalForm → Connective
  | conjunctive => .conj
  | disjunctive => .disj

/-- Whether a word spells a connective of either layer. -/
def isConnective (form : NormalForm) (word : String) : Bool :=
  form.inner.matchesWord word || form.outer.matchesWord word

end NormalForm

end ChronoSat
