/-
# Reading an account

The account of a search is a row of events, but what it tells of was a tree. A reader
who goes through the row from its beginning can find the tree in it again. A value that
is decided opens a bracket, a value that is taken back closes the bracket opened last,
and whatever was made true inside goes with it. `Digest` is what the reader knows at some
point and `Digest.Admits` says which event may come next. The depths that events name
are checked against the number of open brackets; nothing is concluded from them.

The two values of a variable follow each other without anything in between, so a reader
can tell which is which: a decision right behind one that was taken back is the second
of its branch, and any other decision is the first.

What a subtree without a model leaves in the account is complete in itself
(`Fruitless`), and so the reader knows afterwards what was known before, but for the
literals that were forced at the subtree's root. What is left by a search that goes on
or breaks off below is an `Unfinished` account, with the way down beside it.
-/

import ChronoSat.Search.Event

namespace ChronoSat.Search

/-! ## Counting -/

/-- What an event is about. -/
inductive Event.Kind where
  | conflict
  | propagate
  | decide
  | backtrack
deriving DecidableEq, Repr

/-- What an event is about. -/
def Event.kind : Event → Event.Kind
  | conflict _ => .conflict
  | propagate _ _ _ => .propagate
  | decide _ _ _ => .decide
  | backtrack _ _ => .backtrack

/-- How many events are of a kind. -/
def tally (kind : Event.Kind) (events : List Event) : Nat :=
  (events.map Event.kind).count kind

section Tally

variable {kind : Event.Kind}

@[simp] theorem tally_nil : tally kind [] = 0 := rfl

@[simp] theorem tally_cons (event : Event) (events : List Event) :
    tally kind (event :: events) = tally kind events + if event.kind = kind then 1 else 0 := by
  simp [tally, List.count_cons]

@[simp] theorem tally_append (earlier later : List Event) :
    tally kind (earlier ++ later) = tally kind earlier + tally kind later := by
  simp [tally]

@[simp] theorem tally_reverse (events : List Event) :
    tally kind events.reverse = tally kind events := by
  simp [tally]

end Tally

/-- The depth that an event opens, if it opens one. -/
def Event.opened : Event → Nat
  | decide _ depth _ => depth
  | _ => 0

/-- The greatest depth that any of some events opens. -/
def deepest : List Event → Nat
  | [] => 0
  | event :: rest => max event.opened (deepest rest)

@[simp] theorem deepest_append (earlier later : List Event) :
    deepest (earlier ++ later) = max (deepest earlier) (deepest later) := by
  induction earlier with
  | nil => simp [deepest]
  | cons event rest ih => simp only [List.cons_append, deepest, ih, Nat.max_assoc]

@[simp] theorem deepest_reverse (events : List Event) :
    deepest events.reverse = deepest events := by
  induction events with
  | nil => rfl
  | cons event rest ih => simp [deepest, ih, Nat.max_comm]

/-- The counters that some events make. -/
def Stats.of (events : List Event) : Stats where
  decisions := tally .decide events
  propagations := tally .propagate events
  conflicts := tally .conflict events
  backtracks := tally .backtrack events
  maxDepth := deepest events

@[simp] theorem Stats.of_reverse (events : List Event) : of events.reverse = of events := by
  simp [of]

/-! ## The reader -/

/-- A decision as it is told. -/
structure Decision where
  choice : Choice
  depth : Nat
  clausesLeft : Nat
  /-- Whether it is for the value left over when the other one was taken back. -/
  isSecond : Bool
deriving DecidableEq, Repr

/-- Something that was made true and has not been taken back. -/
inductive Mark where
  | decided (decision : Decision)
  | forced (literal : Literal)
deriving DecidableEq

/-- The variable and the value that were chosen or forced. -/
def Mark.choice : Mark → Choice
  | decided decision => decision.choice
  | forced literal => literal.choice

/-- The decision behind a mark that is one. -/
def Mark.decision? : Mark → Option Decision
  | decided decision => some decision
  | forced _ => none

/-- The decisions that are open, the latest first. -/
def openDecisions (marks : List Mark) : List Decision :=
  marks.filterMap Mark.decision?

/-- What was there when the latest open decision was made. -/
def belowLatest : List Mark → List Mark
  | [] => []
  | .decided _ :: earlier => earlier
  | .forced _ :: earlier => belowLatest earlier

section Marks

@[simp] theorem openDecisions_nil : openDecisions [] = [] := rfl

@[simp] theorem openDecisions_decided (decision : Decision) (marks : List Mark) :
    openDecisions (.decided decision :: marks) = decision :: openDecisions marks := rfl

@[simp] theorem openDecisions_forced (literal : Literal) (marks : List Mark) :
    openDecisions (.forced literal :: marks) = openDecisions marks := rfl

@[simp] theorem openDecisions_append (later earlier : List Mark) :
    openDecisions (later ++ earlier) = openDecisions later ++ openDecisions earlier :=
  List.filterMap_append

theorem openDecisions_map_forced (literals : List Literal) :
    openDecisions (literals.map .forced) = [] := by
  induction literals with
  | nil => rfl
  | cons literal rest ih => exact ih

theorem belowLatest_map_forced (literals : List Literal) (decision : Decision)
    (marks : List Mark) :
    belowLatest (literals.map .forced ++ .decided decision :: marks) = marks := by
  induction literals with
  | nil => rfl
  | cons literal rest ih => exact ih

end Marks

/-- What a reader knows of a search. -/
structure Digest where
  /-- What was made true and has not been taken back, the latest first. -/
  marks : List Mark
  /-- The decision that the latest event took back, if that is what it did. -/
  closed : Option Decision
deriving DecidableEq

namespace Digest

/-- Nothing has been read. -/
def blank : Digest := ⟨[], none⟩

/-- Takes in an event. -/
def read (digest : Digest) : Event → Digest
  | .conflict _ => ⟨digest.marks, none⟩
  | .propagate literal _ _ => ⟨.forced literal :: digest.marks, none⟩
  | .decide choice depth clausesLeft =>
    ⟨.decided ⟨choice, depth, clausesLeft, digest.closed.isSome⟩ :: digest.marks, none⟩
  | .backtrack _ _ => ⟨belowLatest digest.marks, (openDecisions digest.marks).head?⟩

/-- Takes in a row of events. -/
def readAll (digest : Digest) (events : List Event) : Digest :=
  events.foldl read digest

/-- What is known after a row of events from the beginning. -/
def of (events : List Event) : Digest := blank.readAll events

/-- How many decisions are open. -/
def numOpen (digest : Digest) : Nat := (openDecisions digest.marks).length

/-- No value was just taken back whose opposite has not been tried. -/
def Settled (digest : Digest) : Prop :=
  ∀ decision, digest.closed = some decision → decision.isSecond = true

/-- The event fits what was read. A conflict and a forced literal name the number of open
decisions. A decision names that number with itself counted, and behind a value that was
taken back it is for the opposite one, with the same depth and as many clauses left. What
is taken back is the latest open decision. -/
def Admits (digest : Digest) : Event → Prop
  | .conflict depth => depth = digest.numOpen ∧ digest.Settled
  | .propagate _ depth _ => depth = digest.numOpen ∧ digest.Settled
  | .decide choice depth clausesLeft =>
    depth = digest.numOpen + 1 ∧
      ∀ decision, digest.closed = some decision →
        decision.isSecond = false ∧ choice = decision.choice.opposite ∧
          depth = decision.depth ∧ clausesLeft = decision.clausesLeft
  | .backtrack choice depth =>
    digest.Settled ∧
      ∃ decision, (openDecisions digest.marks).head? = some decision ∧
        decision.choice = choice ∧ decision.depth = depth

/-- Every event fits what was read before it. -/
def WellNested (digest : Digest) : List Event → Prop
  | [] => True
  | event :: rest => digest.Admits event ∧ (digest.read event).WellNested rest

variable {digest : Digest} {events earlier later : List Event}

theorem readAll_append (digest : Digest) (earlier later : List Event) :
    digest.readAll (earlier ++ later) = (digest.readAll earlier).readAll later :=
  List.foldl_append

theorem wellNested_append :
    digest.WellNested (earlier ++ later) ↔
      digest.WellNested earlier ∧ (digest.readAll earlier).WellNested later := by
  induction earlier generalizing digest with
  | nil => exact ⟨fun nested => ⟨trivial, nested⟩, And.right⟩
  | cons event rest ih =>
      rw [List.cons_append, WellNested, WellNested, ih, and_assoc]
      rfl

theorem WellNested.admits {before after : List Event} {event : Event}
    (wellNested : digest.WellNested (before ++ event :: after)) :
    (digest.readAll before).Admits event :=
  (wellNested_append.mp wellNested).2.1

theorem settled_of_none (marks : List Mark) : Settled ⟨marks, none⟩ := nofun

/-- A decision that fits opens a depth, since it counts itself. -/
theorem WellNested.deepest_eq_zero_iff (wellNested : digest.WellNested events) :
    deepest events = 0 ↔ tally .decide events = 0 := by
  induction events generalizing digest with
  | nil => exact ⟨fun _ => rfl, fun _ => rfl⟩
  | cons event rest ih =>
      obtain ⟨admits, nested⟩ := wellNested
      have later := ih nested
      cases event with
      | decide choice depth clausesLeft =>
          have counted : depth = digest.numOpen + 1 := admits.1
          simp only [deepest, Event.opened, tally_cons, Event.kind, if_true]
          omega
      | conflict | propagate | backtrack =>
          simpa [deepest, Event.opened, Event.kind] using later

end Digest

/-! ## Subtrees -/

/-- The account of a decision that was taken back, around what happened in between. -/
def bracket (choice : Choice) (depth clausesLeft : Nat) (inside : List Event) : List Event :=
  .decide choice depth clausesLeft :: (inside ++ [.backtrack choice depth])

/-- The account of a subtree that holds no model, below so many open decisions. -/
inductive Fruitless : (depth : Nat) → List Event → Prop
  | conflict {depth : Nat} : Fruitless depth [.conflict depth]
  | forced {depth : Nat} {literal : Literal} {impact : Impact} {events : List Event}
      (below : Fruitless depth events) :
      Fruitless depth (.propagate literal depth impact :: events)
  | branched {depth clausesLeft : Nat} {choice : Choice} {first second : List Event}
      (firstBelow : Fruitless (depth + 1) first) (secondBelow : Fruitless (depth + 1) second) :
      Fruitless depth (bracket choice (depth + 1) clausesLeft first ++
        bracket choice.opposite (depth + 1) clausesLeft second)

/-- The account of a subtree that the search has not left, below so many open decisions,
with what was made true on the way to where it is. -/
inductive Unfinished : (depth : Nat) → List Event → List Mark → Prop
  | here {depth : Nat} : Unfinished depth [] []
  | forced {depth : Nat} {literal : Literal} {impact : Impact} {events : List Event}
      {path : List Mark} (below : Unfinished depth events path) :
      Unfinished depth (.propagate literal depth impact :: events) (path ++ [.forced literal])
  | first {depth clausesLeft : Nat} {choice : Choice} {events : List Event} {path : List Mark}
      (below : Unfinished (depth + 1) events path) :
      Unfinished depth (.decide choice (depth + 1) clausesLeft :: events)
        (path ++ [.decided ⟨choice, depth + 1, clausesLeft, false⟩])
  | second {depth clausesLeft : Nat} {choice : Choice} {failed events : List Event}
      {path : List Mark} (firstBelow : Fruitless (depth + 1) failed)
      (below : Unfinished (depth + 1) events path) :
      Unfinished depth (bracket choice (depth + 1) clausesLeft failed ++
          .decide choice.opposite (depth + 1) clausesLeft :: events)
        (path ++ [.decided ⟨choice.opposite, depth + 1, clausesLeft, true⟩])

/-! ### What a reader makes of them -/

/-- The account of a subtree that holds no model can be read, and leaves standing what
stood before and the literals forced at the subtree's root. -/
structure ReadsBack (marks : List Mark) (events : List Event) : Prop where
  wellNested : Digest.WellNested ⟨marks, none⟩ events
  settled : (Digest.readAll ⟨marks, none⟩ events).Settled
  forced : ∃ literals : List Literal,
    (Digest.readAll ⟨marks, none⟩ events).marks = literals.map .forced ++ marks

/-- A decision that is taken back leaves what stood before it. -/
theorem Digest.read_bracket {marks : List Mark} {closed : Option Decision} {choice : Choice}
    {depth clausesLeft : Nat} {inside : List Event}
    (admits : Admits ⟨marks, closed⟩ (.decide choice depth clausesLeft))
    (reads : ∀ {marks}, (openDecisions marks).length = depth → ReadsBack marks inside) :
    WellNested ⟨marks, closed⟩ (bracket choice depth clausesLeft inside) ∧
      readAll ⟨marks, closed⟩ (bracket choice depth clausesLeft inside) =
        ⟨marks, some ⟨choice, depth, clausesLeft, closed.isSome⟩⟩ := by
  let decision : Decision := ⟨choice, depth, clausesLeft, closed.isSome⟩
  have opens : (openDecisions (.decided decision :: marks)).length = depth := admits.1.symm
  obtain ⟨wellNested, settled, literals, stands⟩ := reads opens
  have latest : (openDecisions (readAll ⟨.decided decision :: marks, none⟩ inside).marks).head? =
      some decision := by
    rw [stands, openDecisions_append, openDecisions_map_forced]
    rfl
  constructor
  · have closes : WellNested ⟨.decided decision :: marks, none⟩
        (inside ++ [.backtrack choice depth]) :=
      wellNested_append.mpr ⟨wellNested, ⟨settled, decision, latest, rfl, rfl⟩, trivial⟩
    exact ⟨admits, closes⟩
  · have closes : readAll ⟨marks, closed⟩ (bracket choice depth clausesLeft inside) =
        (readAll ⟨.decided decision :: marks, none⟩ inside).read (.backtrack choice depth) :=
      readAll_append _ inside _
    rw [closes, read, latest, stands, belowLatest_map_forced]

theorem Digest.admits_first (marks : List Mark) (choice : Choice) (clausesLeft : Nat) :
    Admits ⟨marks, none⟩ (.decide choice ((openDecisions marks).length + 1) clausesLeft) :=
  ⟨rfl, nofun⟩

/-- Right behind the first value of a branch, when that was taken back, comes the second. -/
theorem Digest.admits_opposite (marks : List Mark) (choice : Choice) (clausesLeft : Nat) :
    let depth := (openDecisions marks).length + 1
    Admits ⟨marks, some ⟨choice, depth, clausesLeft, false⟩⟩
      (.decide choice.opposite depth clausesLeft) := by
  refine ⟨rfl, ?_⟩
  rintro _ ⟨⟩
  exact ⟨rfl, rfl, rfl, rfl⟩

theorem Fruitless.readsBack {depth : Nat} {events : List Event} (fruitless : Fruitless depth events)
    {marks : List Mark} (opens : (openDecisions marks).length = depth) :
    ReadsBack marks events := by
  induction fruitless generalizing marks with
  | conflict =>
      exact ⟨⟨⟨opens.symm, Digest.settled_of_none marks⟩, trivial⟩, Digest.settled_of_none marks,
        [], rfl⟩
  | @forced _ literal _ _ _ ih =>
      obtain ⟨wellNested, settled, literals, stands⟩ := @ih (.forced literal :: marks) opens
      refine ⟨⟨⟨opens.symm, Digest.settled_of_none marks⟩, wellNested⟩, settled,
        literals ++ [literal], ?_⟩
      rw [List.map_append, List.append_assoc]
      exact stands
  | @branched _ clausesLeft choice first second _ _ firstIh secondIh =>
      subst opens
      obtain ⟨firstNested, afterFirst⟩ := Digest.read_bracket
        (Digest.admits_first marks choice clausesLeft) firstIh
      obtain ⟨secondNested, afterSecond⟩ := Digest.read_bracket
        (Digest.admits_opposite marks choice clausesLeft) secondIh
      have both := Digest.readAll_append ⟨marks, none⟩
        (bracket choice ((openDecisions marks).length + 1) clausesLeft first)
        (bracket choice.opposite ((openDecisions marks).length + 1) clausesLeft second)
      rw [afterFirst] at both
      have leaves := both.trans afterSecond
      refine ⟨Digest.wellNested_append.mpr ⟨firstNested, afterFirst ▸ secondNested⟩, ?_, [], ?_⟩
      · rw [leaves]
        rintro _ ⟨⟩
        rfl
      · rw [leaves]
        rfl

/-- The account of a subtree that the search has not left can be read, and what stands is
the way down. -/
theorem Unfinished.reads {depth : Nat} {events : List Event} {path : List Mark}
    (unfinished : Unfinished depth events path) {marks : List Mark}
    (opens : (openDecisions marks).length = depth) :
    Digest.WellNested ⟨marks, none⟩ events ∧
      Digest.readAll ⟨marks, none⟩ events = ⟨path ++ marks, none⟩ := by
  induction unfinished generalizing marks with
  | here => exact ⟨trivial, rfl⟩
  | @forced _ literal _ _ _ _ ih =>
      obtain ⟨wellNested, stands⟩ := @ih (.forced literal :: marks) opens
      refine ⟨⟨⟨opens.symm, Digest.settled_of_none marks⟩, wellNested⟩, ?_⟩
      rw [List.append_assoc]
      exact stands
  | @first _ clausesLeft choice _ _ _ ih =>
      subst opens
      let decision : Decision := ⟨choice, (openDecisions marks).length + 1, clausesLeft, false⟩
      obtain ⟨wellNested, stands⟩ := @ih (.decided decision :: marks) rfl
      refine ⟨⟨Digest.admits_first marks choice clausesLeft, wellNested⟩, ?_⟩
      rw [List.append_assoc]
      exact stands
  | @second _ clausesLeft choice failed events _ firstBelow _ ih =>
      subst opens
      obtain ⟨firstNested, afterFirst⟩ := Digest.read_bracket
        (Digest.admits_first marks choice clausesLeft) firstBelow.readsBack
      let decision : Decision :=
        ⟨choice.opposite, (openDecisions marks).length + 1, clausesLeft, true⟩
      obtain ⟨wellNested, stands⟩ := @ih (.decided decision :: marks) rfl
      have opposite := Digest.admits_opposite marks choice clausesLeft
      refine ⟨Digest.wellNested_append.mpr ⟨firstNested, afterFirst ▸ ⟨opposite, wellNested⟩⟩, ?_⟩
      rw [Digest.readAll_append, afterFirst, List.append_assoc]
      exact stands

/-- Below no decision nothing stood before, so the way down is all that stands. -/
theorem Unfinished.digest_eq {events : List Event} {path : List Mark}
    (unfinished : Unfinished 0 events path) : Digest.of events = ⟨path, none⟩ := by
  have stands : Digest.of events = ⟨path ++ [], none⟩ := (unfinished.reads rfl).2
  rw [stands, List.append_nil]

theorem Fruitless.numOpen_eq_zero {events : List Event} (fruitless : Fruitless 0 events) :
    (Digest.of events).numOpen = 0 := by
  have reads : ReadsBack [] events := fruitless.readsBack rfl
  obtain ⟨literals, stands⟩ := reads.forced
  have marks : (Digest.of events).marks = literals.map .forced ++ [] := stands
  rw [Digest.numOpen, marks, List.append_nil, openDecisions_map_forced]
  rfl

/-! ### What they count -/

/-- In a subtree that holds no model every conflict but one is paid for by two decisions,
all of which were taken back. -/
theorem Fruitless.tally_eq {depth : Nat} {events : List Event}
    (fruitless : Fruitless depth events) :
    tally .decide events + 2 = 2 * tally .conflict events ∧
      tally .backtrack events = tally .decide events := by
  induction fruitless with
  | conflict => exact ⟨rfl, rfl⟩
  | forced _ ih => simpa [Event.kind] using ih
  | branched _ _ firstIh secondIh =>
      simp only [bracket, tally_append, tally_cons, tally_nil, Event.kind, reduceCtorEq, if_true,
        if_false]
      omega

/-- Where the search has not left a subtree, the decisions that were not taken back are
those on the way down. -/
theorem Unfinished.tally_eq {depth : Nat} {events : List Event} {path : List Mark}
    (unfinished : Unfinished depth events path) :
    tally .decide events = tally .backtrack events + (openDecisions path).length ∧
      tally .backtrack events ≤ 2 * tally .conflict events ∧
      2 * tally .conflict events ≤ tally .decide events := by
  induction unfinished with
  | here => exact ⟨rfl, Nat.le_refl _, Nat.le_refl _⟩
  | forced _ ih => simpa [Event.kind] using ih
  | first _ ih =>
      simp only [tally_cons, Event.kind, reduceCtorEq, if_true, if_false, openDecisions_append,
        openDecisions_decided, openDecisions_nil, List.length_append, List.length_singleton]
      omega
  | second firstBelow _ ih =>
      have paid := firstBelow.tally_eq
      simp only [bracket, tally_append, tally_cons, tally_nil, Event.kind, reduceCtorEq, if_true,
        if_false, openDecisions_append, openDecisions_decided, openDecisions_nil,
        List.length_append, List.length_singleton]
      omega

/-- The way down is no longer than the greatest depth that was opened. -/
theorem Unfinished.le_deepest {depth : Nat} {events : List Event} {path : List Mark}
    (unfinished : Unfinished depth events path) :
    (openDecisions path).length = 0 ∨ depth + (openDecisions path).length ≤ deepest events := by
  induction unfinished with
  | here => exact .inl rfl
  | forced _ ih => simpa [deepest, Event.opened] using ih
  | first _ ih | second _ _ ih =>
      refine .inr ?_
      simp only [deepest_append, deepest, Event.opened, openDecisions_append,
        openDecisions_decided, openDecisions_nil, List.length_append, List.length_singleton]
      omega

/-- The counters of a search that found no model. -/
theorem Fruitless.balance {events : List Event} (fruitless : Fruitless 0 events) :
    let stats := Stats.of events
    1 ≤ stats.conflicts ∧ stats.decisions = 2 * (stats.conflicts - 1) ∧
      stats.backtracks = stats.decisions := by
  intro stats
  obtain ⟨paid, back⟩ : stats.decisions + 2 = 2 * stats.conflicts ∧
    stats.backtracks = stats.decisions := fruitless.tally_eq
  omega

/-- The counters of a search that has not left its root. -/
theorem Unfinished.balance {events : List Event} {path : List Mark}
    (unfinished : Unfinished 0 events path) :
    let stats := Stats.of events
    let numOpen := (Digest.of events).numOpen
    stats.decisions = stats.backtracks + numOpen ∧ numOpen ≤ stats.maxDepth ∧
      stats.backtracks ≤ 2 * stats.conflicts ∧ 2 * stats.conflicts ≤ stats.decisions := by
  intro stats numOpen
  have way : numOpen = (openDecisions path).length :=
    congrArg Digest.numOpen unfinished.digest_eq
  obtain ⟨opened, bounds⟩ := unfinished.tally_eq
  have deep : (openDecisions path).length ≤ deepest events := by
    have := unfinished.le_deepest
    omega
  rw [way]
  exact ⟨opened, deep, bounds⟩

end ChronoSat.Search
