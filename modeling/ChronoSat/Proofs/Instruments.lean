/-
# Instruments that can be relied on

Time passes while the program runs, memory is used up, and a fresh source draws something
else every time. All of this is kept in a world that the instruments read and change;
nothing is said about it. What can be relied on is that a search that is run by the
instruments is the search itself, by some clock. Which clock it is may depend on the world,
on the budget and on the search.
-/

import ChronoSat.Instruments

namespace ChronoSat

variable {World : Type}

/-- What is done first leaves its result and its world to what is done next. -/
theorem StateM.bind_apply {α β : Type} (first : StateM World α) (next : α → StateM World β)
    (world : World) : (first >>= next) world = next (first world).1 (first world).2 := rfl

/-- What comes of a search is what it finds by some clock. -/
structure Instruments.Faithful {γ : Type} (instruments : Instruments (StateM World) γ) : Prop where
  exists_clock : ∀ {α : Type} (budget : Option Duration) (search : Clock → Report × α)
    (world : World), ∃ clock, (instruments.timed budget search world).1 = search clock

theorem Instruments.faithful_none {γ : Type} (source : γ) (clock : Clock) :
    (Instruments.none (StateM World) source clock).Faithful where
  exists_clock _ _ _ := ⟨clock, rfl⟩

end ChronoSat
