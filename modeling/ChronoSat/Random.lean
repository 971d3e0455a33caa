/-
# Reproducible draws

Whatever draws at random takes its draws from a source, which a seed gives. Nothing is
known of what is drawn but that a draw below a bound is below it.

A generator is such a source of one 64-bit word. A draw adds a constant to the word,
multiplies the sum with itself under a mask, and folds the 128-bit product in half. The
same word always gives the same draws.

A draw below a bound scales a word to the bound and takes the high half. Words
whose low half falls below the remainder of the number of words by the bound are drawn
again, so that every result comes from the same number of words.
-/

namespace ChronoSat

/-- Where draws are taken from. -/
class RandomSource (γ : Type) where
  /-- The source that a seed gives. -/
  ofSeed : UInt64 → γ
  /-- Draws a number below a bound. -/
  below : Nat → γ → Nat × γ
  /-- Draws a truth value. -/
  bool : γ → Bool × γ
  /-- What is drawn below a bound that something is below is below it. -/
  below_lt : ∀ {bound : Nat}, 0 < bound → ∀ source, (below bound source).1 < bound

/-- The source that a seed gives, or one that is at hand if there is no seed. -/
def RandomSource.seeded {γ : Type} [RandomSource γ] (seed : Option UInt64) (fresh : γ) : γ :=
  seed.elim fresh ofSeed

/-- The state of a generator of random words. -/
structure Generator where
  /-- The word that the next draw starts from. -/
  state : UInt64
deriving DecidableEq, Repr

namespace Generator

/-- What a draw adds to the state. -/
def increment : UInt64 := 0x2d358dccaa6c78a5

/-- What the second factor is masked with. -/
def mask : UInt64 := 0x8bb84b93962eacc9

/-- How many words there are. -/
def wordCount : Nat := 0x10000000000000000

/-- Draws a word. -/
def next (generator : Generator) : UInt64 × Generator :=
  let state := generator.state + increment
  let product := state.toNat * (state ^^^ mask).toNat
  (UInt64.ofNat product ^^^ UInt64.ofNat (product / wordCount), ⟨state⟩)

/-- Draws a number below a bound, with at most so many draws that are thrown
away. -/
def belowWithin (bound : Nat) : Nat → Generator → Nat × Generator
  | 0, generator =>
    let (word, generator) := generator.next
    (word.toNat * bound / wordCount, generator)
  | retries + 1, generator =>
    let (word, generator) := generator.next
    let scaled := word.toNat * bound
    if scaled % wordCount < (wordCount - bound) % bound then
      belowWithin bound retries generator
    else (scaled / wordCount, generator)

/-- Draws a number below a bound. The states come round after `wordCount` draws,
so no more than that many can be thrown away. -/
def below (bound : Nat) (generator : Generator) : Nat × Generator :=
  belowWithin bound wordCount generator

/-- Draws a truth value: whether a word is even. -/
def bool (generator : Generator) : Bool × Generator :=
  let (word, generator) := generator.next
  (word % 2 == 0, generator)

theorem belowWithin_lt {bound : Nat} (positive : 0 < bound) (retries : Nat)
    (generator : Generator) : (belowWithin bound retries generator).1 < bound := by
  induction retries generalizing generator with
  | zero =>
    simp only [belowWithin]
    have := generator.next.1.toNat_lt
    rw [Nat.div_lt_iff_lt_mul (by decide), Nat.mul_comm bound]
    exact Nat.mul_lt_mul_of_pos_right this positive
  | succ retries ih =>
    simp only [belowWithin]
    split
    · exact ih _
    · have := generator.next.1.toNat_lt
      rw [Nat.div_lt_iff_lt_mul (by decide), Nat.mul_comm bound]
      exact Nat.mul_lt_mul_of_pos_right this positive

/-- A draw below a positive bound is below it. -/
theorem below_lt {bound : Nat} (positive : 0 < bound) (generator : Generator) :
    (below bound generator).1 < bound :=
  belowWithin_lt positive _ generator

end Generator

instance : RandomSource Generator where
  ofSeed := Generator.mk
  below := Generator.below
  bool := Generator.bool
  below_lt := Generator.below_lt

end ChronoSat
