/-
# A registry kept in two tables

A registry that is edited in place keeps its names in the order of their numbers, and so that
no name has to be searched for, the numbers of the names in a table of their own. A new name is
entered into both. Nothing but the program that enters it ties the two together, so that one is
the other read backwards is an invariant of entering. It is stated as an equation here: the
tables of a registry are a function of its names, and entering a name leads from the tables of a
registry to those of the registry that has seen the name.

When no number is left, a new name is not entered. That is the fault that registering the name
is, and the names entered before it stay.
-/

import ChronoSat.Proofs.Registry
import Mathlib.Logic.Function.Basic

namespace ChronoSat

/-! ## Programs that give out numbers -/

/-- How a program ends that gives out numbers up to a largest one: with a value and a state if
literals can be made of all of them, and in a fault otherwise. -/
inductive Numbered {σ α : Type} (value : α) (state : σ) (largest : Nat) :
    EStateM.Result Failure σ α → Prop
  | done (fits : largest ≤ Literal.maxVar) : Numbered value state largest (.ok value state)
  | full {left : σ} (exceeds : Literal.maxVar < largest) :
      Numbered value state largest (.error (.fault .registryFull) left)

/-- A program goes on where the one before it has ended. -/
theorem Numbered.bind {σ α β : Type} {program : EStateM Failure σ α}
    {next : α → EStateM Failure σ β} {value : α} {result : β} {start between state : σ}
    {largest later : Nat} (ended : Numbered value between largest (program.run start))
    (grows : largest ≤ later)
    (goesOn : largest ≤ Literal.maxVar →
      Numbered result state later ((next value).run between)) :
    Numbered result state later ((program >>= next).run start) := by
  rw [EStateM.run_bind]
  generalize program.run start = reached at ended
  cases ended with
  | done fits => exact goesOn fits
  | full exceeds => exact .full (Nat.lt_of_lt_of_le exceeds grows)

/-! ## The tables -/

/-- The names in the order of their numbers, and the number of each name. -/
structure Ledger where
  names : List String
  numbers : String → Option Nat

namespace Ledger

/-- Looks up the number of a name, and enters the name if it has none. -/
def register (name : String) : EStateM Failure Ledger Nat := do
  let ledger ← get
  match ledger.numbers name with
  | some number => return number
  | none =>
    let number := ledger.names.length + 1
    if number ≤ Literal.maxVar then
      set (Ledger.mk (ledger.names ++ [name]) (Function.update ledger.numbers name (some number)))
      return number
    else throw (.fault .registryFull)

/-- Makes a literal of a name. -/
def enter (named : String × Bool) : EStateM Failure Ledger Literal := do
  let number ← register named.1
  match Literal.ofVar? number named.2 with
  | some literal => return literal
  | none => throw (.fault (.notAVariable number))

/-- Makes a literal of the text that spells it. -/
def intern (text : String) : EStateM Failure Ledger Literal :=
  match Literal.split? text with
  | some named => enter named
  | none => throw (.error (.invalidLiteral text))

/-- The signed integer of a literal over a number that has been given out. -/
def encode (ledger : Ledger) (literal : Literal) : Except Error Int :=
  if 0 < literal.var && literal.var ≤ ledger.names.length then .ok literal.toInt
  else .error (.unregisteredId literal.toInt)

end Ledger

namespace Registry

variable {registry : Registry} {name : String}

/-- The tables of a registry. -/
def ledger (registry : Registry) : Ledger := ⟨registry.names, registry.id?⟩

/-- A new name is entered into both tables. -/
theorem ledger_withName_of_not_mem (fresh : name ∉ registry.names) :
    (registry.withName name).ledger =
      ⟨registry.names ++ [name],
        Function.update registry.id? name (some (registry.names.length + 1))⟩ := by
  have numbers : Registry.id? ⟨registry.names ++ [name]⟩ =
      Function.update registry.id? name (some (registry.names.length + 1)) := by
    funext other
    by_cases same : other = name
    · subst same
      simp [id?, idFor, List.idxOf_append, fresh]
    · by_cases known : other ∈ registry.names <;>
        simp [id?, idFor, List.idxOf_append, same, known]
  rw [withName_of_not_mem fresh, ledger, numbers]

/-- Registering in place gives the number of the name. -/
theorem numbered_register (fits : registry.size ≤ Literal.maxVar) (name : String) :
    Numbered (registry.idFor name) (registry.withName name).ledger (registry.withName name).size
      ((Ledger.register name).run registry.ledger) := by
  simp only [Ledger.register, EStateM.run_bind, EStateM.run_get]
  by_cases known : name ∈ registry.names
  · have found : registry.ledger.numbers name = some (registry.idFor name) :=
      id?_eq_some_iff.mpr ⟨known, rfl⟩
    rw [found, withName_of_mem known]
    exact .done fits
  · have missed : registry.ledger.numbers name = none := id?_eq_none_iff.mpr known
    have number : registry.idFor name = registry.names.length + 1 := by
      rw [idFor, List.idxOf_eq_length known]
    have size : (registry.withName name).size = registry.names.length + 1 := by
      simp [withName_of_not_mem known, Registry.size]
    rw [missed, size, number, ledger_withName_of_not_mem known]
    by_cases room : registry.names.length + 1 ≤ Literal.maxVar
    · simp only [ledger, room, if_true]
      exact .done room
    · simp only [ledger, room, if_false]
      exact .full (Nat.lt_of_not_le room)

theorem numbered_enter (fits : registry.size ≤ Literal.maxVar) (named : String × Bool) :
    Numbered (registry.literalFor named.1 named.2) (registry.withName named.1).ledger
      (registry.withName named.1).size ((Ledger.enter named).run registry.ledger) := by
  refine (numbered_register fits named.1).bind (Nat.le_refl _) fun room => ?_
  have inRange : 0 < registry.idFor named.1 ∧ registry.idFor named.1 ≤ Literal.maxVar :=
    ⟨registry.idFor_pos named.1, Nat.le_trans (idFor_le_size_withName registry named.1) room⟩
  rw [Literal.ofVar?, dif_pos inRange]
  exact .done room

/-- Entering a row in place gives its literals and the tables of the registry that has seen
all names. -/
theorem numbered_mapM_enter (fits : registry.size ≤ Literal.maxVar) (row : NamedClause) :
    Numbered (registry.numberAll row).1 (registry.numberAll row).2.ledger
      (registry.numberAll row).2.size ((row.mapM Ledger.enter).run registry.ledger) := by
  induction row generalizing registry with
  | nil => exact .done fits
  | cons named rest ih =>
      rw [List.mapM_cons]
      refine (numbered_enter fits named).bind
        (names_prefix_numberAll (registry.withName named.1) rest).length_le fun room => ?_
      exact (ih room).bind (Nat.le_refl _) .done

/-- Texts that all spell literals are entered as the literals that they spell. -/
theorem mapM_intern {texts : List String} {row : NamedClause}
    (spells : texts.map Literal.split? = row.map some) :
    texts.mapM Ledger.intern = row.mapM Ledger.enter := by
  induction texts generalizing row with
  | nil =>
      obtain rfl := List.map_eq_nil_iff.mp spells.symm
      rfl
  | cons text rest ih =>
      obtain ⟨named, others, rfl, split, spelled⟩ := List.map_eq_cons_iff.mp spells.symm
      have first : Ledger.intern text = Ledger.enter named := by rw [Ledger.intern, ← split]
      rw [List.mapM_cons, List.mapM_cons, first, ih spelled.symm]

end Registry

end ChronoSat
