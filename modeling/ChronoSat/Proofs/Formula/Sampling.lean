/-
# The law of a random clause

A clause takes the front of a pool that was swapped place after place with drawn places.
What comes to the front depends on the draws and on the order of the pool, and the order is
whatever the clauses before have left. It does not matter: a place that is passed is never
touched again, so the draw for a place alone says which of the elements not yet taken
stands there, and any of them can be drawn. Hence the draws reach every row of distinct
elements, each from one sequence of draws only, and draws that are all equally likely give
rows that are all equally likely.

The pool of a formula is a permutation of the numbers below the number of variables,
before the first clause and after each of them. Nothing is known of the source of the draws but
that a draw below a bound is below it.
-/

import ChronoSat.Proofs.Formula.Renumbering
import Mathlib.Probability.Distributions.Uniform

namespace ChronoSat.Sampling

variable {α : Type} {place drawn size : Nat} {pool : Array α} {draws : List Nat}

/-! ## Swaps -/

/-- Swaps place after place, from `place` on, with the places drawn for them. -/
def swapPlaces : (place : Nat) → (draws : List Nat) → Array α → Array α
  | _, [], pool => pool
  | place, drawn :: rest, pool => swapPlaces (place + 1) rest (pool.swapIfInBounds place drawn)

/-- The draws, the first of them for `place`, reach only places not yet passed. -/
def InReach (size place : Nat) (draws : List Nat) : Prop :=
  ∀ index drawn, draws[index]? = some drawn → place + index ≤ drawn ∧ drawn < size

theorem inReach_nil (size place : Nat) : InReach size place [] := by
  intro index drawn found
  cases found

theorem inReach_cons :
    InReach size place (drawn :: draws) ↔
      (place ≤ drawn ∧ drawn < size) ∧ InReach size (place + 1) draws := by
  constructor
  · intro reach
    refine ⟨reach 0 drawn rfl, fun index later found => ?_⟩
    have := reach (index + 1) later found
    omega
  · rintro ⟨first, rest⟩ index later found
    cases index with
    | zero =>
        cases found
        exact first
    | succ index =>
        have := rest index later found
        omega

theorem swapIfInBounds_eq (inside : place ≤ drawn ∧ drawn < pool.size) :
    pool.swapIfInBounds place drawn = pool.swap place drawn (by omega) inside.2 := by
  rw [Array.swapIfInBounds_def, dif_pos (by omega), dif_pos inside.2]

theorem getElem?_swap_place (inside : place ≤ drawn ∧ drawn < pool.size) :
    (pool.swapIfInBounds place drawn)[place]? = pool[drawn]? := by
  rw [swapIfInBounds_eq inside, Array.getElem?_swap, Array.getElem?_eq_getElem inside.2]
  split
  · next same => simp only [same]
  · rw [if_pos rfl]

theorem getElem?_swap_drawn (inside : place ≤ drawn ∧ drawn < pool.size) :
    (pool.swapIfInBounds place drawn)[drawn]? = pool[place]? := by
  rw [swapIfInBounds_eq inside, Array.getElem?_swap, if_pos rfl, Array.getElem?_eq_getElem]

theorem getElem?_swap_of_ne {index : Nat} (inside : place ≤ drawn ∧ drawn < pool.size)
    (notPlace : index ≠ place) (notDrawn : index ≠ drawn) :
    (pool.swapIfInBounds place drawn)[index]? = pool[index]? := by
  rw [swapIfInBounds_eq inside, Array.getElem?_swap, if_neg notDrawn.symm, if_neg notPlace.symm]

theorem swapIfInBounds_perm (inside : place ≤ drawn ∧ drawn < pool.size) :
    (pool.swapIfInBounds place drawn).Perm pool := by
  rw [swapIfInBounds_eq inside]
  exact Array.swap_perm _ _

theorem swapPlaces_perm (reach : InReach pool.size place draws) :
    (swapPlaces place draws pool).Perm pool := by
  induction draws generalizing place pool with
  | nil => exact .refl _
  | cons drawn rest ih =>
      obtain ⟨inside, later⟩ := inReach_cons.mp reach
      rw [← Array.size_swapIfInBounds (i := place) (j := drawn)] at later
      exact (ih later).trans (swapIfInBounds_perm inside)

/-- Places that were passed are left alone. -/
theorem getElem?_swapPlaces_of_lt {index : Nat} (passed : index < place)
    (reach : InReach pool.size place draws) :
    (swapPlaces place draws pool)[index]? = pool[index]? := by
  induction draws generalizing place pool with
  | nil => rfl
  | cons drawn rest ih =>
      obtain ⟨inside, later⟩ := inReach_cons.mp reach
      rw [← Array.size_swapIfInBounds (i := place) (j := drawn)] at later
      rw [swapPlaces, ih (Nat.lt_succ_of_lt passed) later]
      exact getElem?_swap_of_ne inside (by omega) (by omega)

/-- What is drawn for a place is what stands there in the end. -/
theorem getElem?_swapPlaces_self (reach : InReach pool.size place (drawn :: draws)) :
    (swapPlaces place (drawn :: draws) pool)[place]? = pool[drawn]? := by
  obtain ⟨inside, later⟩ := inReach_cons.mp reach
  rw [← Array.size_swapIfInBounds (i := place) (j := drawn)] at later
  rw [swapPlaces, getElem?_swapPlaces_of_lt (Nat.lt_succ_self place) later]
  exact getElem?_swap_place inside

/-- Different draws bring different elements to the front. -/
theorem draws_eq_of_getElem?_eq {others : List Nat} (distinct : pool.toList.Nodup)
    (reach : InReach pool.size place draws) (otherReach : InReach pool.size place others)
    (lengths : draws.length = others.length)
    (same : ∀ index < draws.length, (swapPlaces place draws pool)[place + index]? =
      (swapPlaces place others pool)[place + index]?) : draws = others := by
  induction draws generalizing others place pool with
  | nil => exact (List.length_eq_zero_iff.mp lengths.symm).symm
  | cons drawn rest ih =>
      cases others with
      | nil => cases lengths
      | cons other otherRest =>
          obtain ⟨inside, later⟩ := inReach_cons.mp reach
          obtain ⟨_, otherLater⟩ := inReach_cons.mp otherReach
          have first := same 0 (Nat.zero_lt_succ _)
          rw [Nat.add_zero, getElem?_swapPlaces_self reach, getElem?_swapPlaces_self otherReach,
            ← Array.getElem?_toList, ← Array.getElem?_toList] at first
          obtain rfl : drawn = other := (List.getElem?_inj inside.2 distinct).mp first
          rw [← Array.size_swapIfInBounds (i := place) (j := drawn)] at later otherLater
          have distinctAfter := (swapIfInBounds_perm inside).toList.nodup_iff.mpr distinct
          refine congrArg _ (ih distinctAfter later otherLater (Nat.succ_inj.mp lengths) ?_)
          intro index less
          have shifted : place + (index + 1) = place + 1 + index := by omega
          rw [← shifted]
          exact same (index + 1) (Nat.succ_lt_succ less)

/-- Some draws bring any row of distinct elements to the front that have not been passed. -/
theorem exists_draws {row : List α} (distinct : row.Nodup)
    (there : ∀ element ∈ row, ∃ index, place ≤ index ∧ pool[index]? = some element) :
    ∃ draws, draws.length = row.length ∧ InReach pool.size place draws ∧
      ∀ index < row.length, (swapPlaces place draws pool)[place + index]? = row[index]? := by
  induction row generalizing place pool with
  | nil => exact ⟨[], rfl, inReach_nil _ _, nofun⟩
  | cons element rest ih =>
      obtain ⟨fresh, distinctRest⟩ := List.nodup_cons.mp distinct
      obtain ⟨drawn, reached, found⟩ := there element List.mem_cons_self
      have inside : place ≤ drawn ∧ drawn < pool.size :=
        ⟨reached, (Array.getElem?_eq_some_iff.mp found).1⟩
      have thereAfter : ∀ other ∈ rest, ∃ index, place + 1 ≤ index ∧
          (pool.swapIfInBounds place drawn)[index]? = some other := by
        intro other member
        obtain ⟨index, notPassed, otherFound⟩ := there other (List.mem_cons_of_mem _ member)
        have apart : index ≠ drawn := by
          rintro rfl
          rw [found] at otherFound
          exact fresh (Option.some.inj otherFound ▸ member)
        -- an element that is swapped away from the place has gone to where the draw was
        by_cases atPlace : index = place
        · subst atPlace
          exact ⟨drawn, by omega, (getElem?_swap_drawn inside).trans otherFound⟩
        · exact ⟨index, by omega, (getElem?_swap_of_ne inside atPlace apart).trans otherFound⟩
      obtain ⟨draws, length, reach, front⟩ := ih distinctRest thereAfter
      rw [Array.size_swapIfInBounds] at reach
      have whole : InReach pool.size place (drawn :: draws) := inReach_cons.mpr ⟨inside, reach⟩
      refine ⟨drawn :: draws, congrArg _ length, whole, fun index less => ?_⟩
      cases index with
      | zero => exact (getElem?_swapPlaces_self whole).trans found
      | succ index =>
          have shifted : place + (index + 1) = place + 1 + index := by omega
          rw [shifted]
          exact front index (Nat.lt_of_succ_lt_succ less)

/-! ## Samples -/

/-- The front of a pool, as long as there are draws, once what is drawn has come there. -/
def sample (pool : Array α) (draws : List Nat) : List α :=
  (swapPlaces 0 draws pool).toList.take draws.length

theorem getElem?_sample {index : Nat} (less : index < draws.length) :
    (sample pool draws)[index]? = (swapPlaces 0 draws pool)[index]? := by
  rw [sample, List.getElem?_take, if_pos less, Array.getElem?_toList]

/-- There are as many places as draws for them. -/
theorem InReach.length_le (reach : InReach size 0 draws) : draws.length ≤ size := by
  rcases Nat.eq_zero_or_pos draws.length with none | some
  · omega
  · have last := reach (draws.length - 1) _ (List.getElem?_eq_getElem (by omega))
    omega

theorem length_sample (reach : InReach pool.size 0 draws) :
    (sample pool draws).length = draws.length := by
  rw [sample, List.length_take, (swapPlaces_perm reach).toList.length_eq]
  exact Nat.min_eq_left reach.length_le

/-- Draws in reach and rows of distinct elements of the pool are the same thing, whatever the
order of the pool. -/
theorem bijOn_sample (distinct : pool.toList.Nodup) (width : Nat) :
    Set.BijOn (sample pool) {draws | draws.length = width ∧ InReach pool.size 0 draws}
      {row | row.length = width ∧ row.Nodup ∧ ∀ element ∈ row, element ∈ pool} := by
  refine ⟨?_, ?_, ?_⟩
  · rintro draws ⟨rfl, reach⟩
    have perm := (swapPlaces_perm reach).toList
    refine ⟨length_sample reach, ?_, fun element member => ?_⟩
    · exact (perm.nodup_iff.mpr distinct).sublist (List.take_sublist _ _)
    · exact Array.mem_toList_iff.mp (perm.mem_iff.mp (List.mem_of_mem_take member))
  · rintro draws ⟨rfl, reach⟩ others ⟨lengths, otherReach⟩ same
    refine draws_eq_of_getElem?_eq distinct reach otherReach lengths.symm fun index less => ?_
    rw [Nat.zero_add, ← getElem?_sample less, same, getElem?_sample (lengths ▸ less)]
  · rintro row ⟨rfl, rowDistinct, inPool⟩
    have there : ∀ element ∈ row, ∃ index, 0 ≤ index ∧ pool[index]? = some element := by
      intro element member
      obtain ⟨index, less, found⟩ := Array.mem_iff_getElem.mp (inPool element member)
      exact ⟨index, Nat.zero_le _, by rw [Array.getElem?_eq_getElem less, found]⟩
    obtain ⟨draws, length, reach, front⟩ := exists_draws rowDistinct there
    refine ⟨draws, ⟨length, reach⟩, List.ext_getElem? fun index => ?_⟩
    rcases Nat.lt_or_ge index row.length with less | beyond
    · rw [getElem?_sample (length ▸ less), ← front index less, Nat.zero_add]
    · rw [List.getElem?_eq_none beyond, List.getElem?_eq_none]
      rw [length_sample reach, length]
      exact beyond

/-! ## Rows of numbers -/

variable {numVars width bound length : Nat} {row : List Nat}

/-- The rows of so many numbers below a bound. -/
def rowsBelow (bound : Nat) : (length : Nat) → Finset (List Nat)
  | 0 => {[]}
  | length + 1 =>
    (Finset.range bound ×ˢ rowsBelow bound length).image fun parts => parts.1 :: parts.2

theorem mem_rowsBelow :
    row ∈ rowsBelow bound length ↔ row.length = length ∧ ∀ number ∈ row, number < bound := by
  induction length generalizing row with
  | zero =>
      rw [rowsBelow, Finset.mem_singleton, List.length_eq_zero_iff]
      refine ⟨?_, And.left⟩
      rintro rfl
      exact ⟨rfl, nofun⟩
  | succ length ih =>
      cases row with
      | nil => simp [rowsBelow]
      | cons number rest =>
          simp only [rowsBelow, Finset.mem_image, Finset.mem_product, Finset.mem_range, ih,
            List.cons.injEq, Prod.exists, List.length_cons, Nat.succ_inj, List.forall_mem_cons]
          constructor
          · rintro ⟨_, _, ⟨first, lengthEq, others⟩, rfl, rfl⟩
            exact ⟨lengthEq, first, others⟩
          · rintro ⟨lengthEq, first, others⟩
            exact ⟨number, rest, ⟨first, lengthEq, others⟩, rfl, rfl⟩

/-- The draws that can be made for a clause: one for each place, not below the place. -/
def drawSequences (numVars width : Nat) : Finset (List Nat) :=
  (rowsBelow numVars width).filter fun draws =>
    ∀ place, (inside : place < draws.length) → place ≤ draws[place]

/-- The rows of so many distinct variables. -/
def orderedSamples (numVars width : Nat) : Finset (List Nat) :=
  (rowsBelow numVars width).filter List.Nodup

theorem mem_drawSequences :
    draws ∈ drawSequences numVars width ↔ draws.length = width ∧ InReach numVars 0 draws := by
  rw [drawSequences, Finset.mem_filter, mem_rowsBelow, and_assoc]
  refine and_congr_right fun _ => ⟨?_, ?_⟩
  · rintro ⟨below, above⟩ place drawn found
    obtain ⟨inside, rfl⟩ := List.getElem?_eq_some_iff.mp found
    exact ⟨(Nat.zero_add place).trans_le (above place inside), below _ (List.getElem_mem inside)⟩
  · intro reach
    refine ⟨fun drawn member => ?_, fun place inside => ?_⟩
    · obtain ⟨place, found⟩ := List.mem_iff_getElem?.mp member
      exact (reach place drawn found).2
    · have := (reach place _ (List.getElem?_eq_getElem inside)).1
      omega

theorem mem_orderedSamples :
    row ∈ orderedSamples numVars width ↔
      row.length = width ∧ row.Nodup ∧ ∀ number ∈ row, number < numVars := by
  rw [orderedSamples, Finset.mem_filter, mem_rowsBelow, and_assoc]
  exact and_congr_right fun _ => and_comm

variable {pool : Array Nat}

/-- The draws reach each row of distinct variables once, whatever the order of the pool. -/
theorem bijOn_drawSequences (isPool : pool.toList.Perm (List.range numVars)) (width : Nat) :
    Set.BijOn (sample pool) (drawSequences numVars width) (orderedSamples numVars width) := by
  have distinct : pool.toList.Nodup := isPool.nodup_iff.mpr List.nodup_range
  have size : pool.size = numVars := isPool.length_eq.trans List.length_range
  have inPool (number : Nat) : number ∈ pool ↔ number < numVars := by
    rw [← Array.mem_toList_iff, isPool.mem_iff, List.mem_range]
  have draws : (drawSequences numVars width : Set (List Nat)) =
      {draws | draws.length = width ∧ InReach pool.size 0 draws} :=
    Set.ext fun draws => size ▸ mem_drawSequences
  have rows : (orderedSamples numVars width : Set (List Nat)) =
      {row | row.length = width ∧ row.Nodup ∧ ∀ number ∈ row, number ∈ pool} := by
    ext row
    simp only [Finset.mem_coe, mem_orderedSamples, Set.mem_ofPred_eq, inPool]
  rw [draws, rows]
  exact bijOn_sample distinct width

/-- The samples of several clauses, each drawn from the pool that the one before left. -/
def samples (pool : Array α) : (rows : List (List Nat)) → List (List α)
  | [] => []
  | draws :: rest => sample pool draws :: samples (swapPlaces 0 draws pool) rest

/-- A clause leaves a permutation of the pool. -/
theorem isPool_swapPlaces (isPool : pool.toList.Perm (List.range numVars))
    (drawn : draws ∈ drawSequences numVars width) :
    (swapPlaces 0 draws pool).toList.Perm (List.range numVars) := by
  have size : pool.size = numVars := isPool.length_eq.trans List.length_range
  exact (swapPlaces_perm (size ▸ (mem_drawSequences.mp drawn).2)).toList.trans isPool

variable {rows : List (List Nat)}

theorem mem_orderedSamples_of_mem_samples (isPool : pool.toList.Perm (List.range numVars))
    (drawn : ∀ draws ∈ rows, draws ∈ drawSequences numVars width) :
    ∀ row ∈ samples pool rows, row ∈ orderedSamples numVars width := by
  induction rows generalizing pool with
  | nil => exact nofun
  | cons draws rest ih =>
      obtain ⟨first, others⟩ := List.forall_mem_cons.mp drawn
      exact List.forall_mem_cons.mpr ⟨(bijOn_drawSequences isPool width).mapsTo first,
        ih (isPool_swapPlaces isPool first) others⟩

section Source

variable {γ : Type} [RandomSource γ]

/-- What is drawn for the places of a pool is in reach. -/
theorem exists_drawPlaces {count : Nat} (pool : Array α) (enough : place + count ≤ pool.size)
    (source : γ) :
    ∃ draws later,
      drawPlaces place count pool source = (swapPlaces place draws pool, later) ∧
        draws.length = count ∧ InReach pool.size place draws := by
  induction count generalizing place pool source with
  | zero => exact ⟨[], source, rfl, rfl, inReach_nil _ _⟩
  | succ count ih =>
      have inside := RandomSource.below_lt (show 0 < pool.size - place by omega) source
      rw [drawPlaces]
      generalize RandomSource.below (pool.size - place) source = drawn at inside
      obtain ⟨offset, next⟩ := drawn
      have enoughLater :
          place + 1 + count ≤ (pool.swapIfInBounds place (place + offset)).size := by
        rw [Array.size_swapIfInBounds]
        omega
      obtain ⟨draws, later, placed, length, reach⟩ := ih _ enoughLater next
      rw [Array.size_swapIfInBounds] at reach
      refine ⟨(place + offset) :: draws, later, placed, congrArg (· + 1) length, ?_⟩
      exact inReach_cons.mpr ⟨⟨Nat.le_add_right _ _, Nat.add_lt_of_lt_sub' inside⟩, reach⟩

theorem map_fst_drawPolarities (numbers : List Nat) (source : γ) :
    (drawPolarities numbers source).1.map Prod.fst = numbers.map variableName := by
  induction numbers generalizing source with
  | nil => rfl
  | cons number rest ih => exact congrArg _ (ih _)

/-- The clauses that are drawn are over the samples of some draws. -/
theorem exists_drawClauses (isPool : pool.toList.Perm (List.range numVars))
    (enough : width ≤ numVars) (count : Nat) (source : γ) :
    ∃ rows : List (List Nat), rows.length = count ∧
      (∀ draws ∈ rows, draws ∈ drawSequences numVars width) ∧
      (drawClauses width count pool source).1.map (List.map Prod.fst) =
        (samples pool rows).map (List.map variableName) := by
  induction count generalizing pool source with
  | zero => exact ⟨[], rfl, nofun, rfl⟩
  | succ count ih =>
      have size : pool.size = numVars := isPool.length_eq.trans List.length_range
      have inside : 0 + width ≤ pool.size := by omega
      obtain ⟨draws, later, drawn, length, reach⟩ := exists_drawPlaces pool inside source
      have inSequences : draws ∈ drawSequences numVars width :=
        mem_drawSequences.mpr ⟨length, size ▸ reach⟩
      have front : ((swapPlaces 0 draws pool).extract 0 width).toList = sample pool draws := by
        rw [sample, length, Array.toList_extract, List.extract_eq_take_drop, List.drop_zero,
          Nat.sub_zero]
      rw [drawClauses, drawn]
      simp only [front]
      have signed := map_fst_drawPolarities (sample pool draws) later
      generalize drawPolarities (sample pool draws) later = polarities at signed
      obtain ⟨literals, next⟩ := polarities
      obtain ⟨rows, lengths, others, names⟩ := ih (isPool_swapPlaces isPool inSequences) next
      refine ⟨draws :: rows, congrArg (· + 1) lengths,
        List.forall_mem_cons.mpr ⟨inSequences, others⟩, ?_⟩
      rw [List.map_cons, names, samples, List.map_cons, signed]

end Source

end ChronoSat.Sampling

namespace ChronoSat.Formula

open Sampling

variable {form : NormalForm} {formula : Formula form} {clauses : List NamedClause}

/-- There are numbers for the names of samples if there are for all the variables. -/
theorem numerable_of_orderedSamples {numVars width : Nat} {rows : List (List Nat)}
    (names : clauses.map (List.map Prod.fst) = rows.map (List.map variableName))
    (sampled : ∀ row ∈ rows, row ∈ orderedSamples numVars width)
    (fits : numVars ≤ Literal.maxVar) : Numerable clauses := by
  have known : clauses.flatten.map Prod.fst ⊆ (List.range numVars).map variableName := by
    rw [List.map_flatten, names, ← List.map_flatten]
    refine List.map_subset _ fun number member => ?_
    obtain ⟨row, there, inside⟩ := List.mem_flatten.mp member
    exact List.mem_range.mpr ((mem_orderedSamples.mp (sampled row there)).2.2 number inside)
  exact numerable_of_subset known (by simpa using fits)

/-- What is drawn is clauses over the samples of some draws, and their formula if there are
numbers for their names. -/
theorem exists_random_eq {γ : Type} [RandomSource γ] {numVars width : Nat}
    (enough : width ≤ numVars) (room : numVars * numberWidth ≤ Room.limit) (count : Nat)
    (source : γ) :
    ∃ draws rows later, draws.length = count ∧
      (∀ row ∈ draws, row ∈ drawSequences numVars width) ∧
      rows.map (List.map Prod.fst) =
        (samples (Array.range numVars) draws).map (List.map variableName) ∧
      (∀ row ∈ samples (Array.range numVars) draws, row ∈ orderedSamples numVars width) ∧
      (Numerable rows → random numVars count width source = (.ok (ofNamed rows), later)) ∧
      (¬Numerable rows →
        random numVars count width source = (.error (.fault .registryFull), later)) := by
  have isPool : (Array.range numVars).toList.Perm (List.range numVars) := by
    rw [Array.toList_range]
  obtain ⟨draws, length, drawn, names⟩ := exists_drawClauses isPool enough count source
  refine ⟨draws, _, (drawClauses width count (Array.range numVars) source).2, length, drawn,
    names, mem_orderedSamples_of_mem_samples isPool drawn, fun numerable => ?_, fun tooMany => ?_⟩
  · rw [random_eq (pool_of_le enough room)]
    dsimp only
    rw [Registry.limited_of_le (numVars_ofNamed_le_iff.mpr numerable)]
    rfl
  · rw [random_eq (pool_of_le enough room)]
    dsimp only
    rw [Registry.limited, if_neg fun fits => tooMany (numVars_ofNamed_le_iff.mp fits)]
    rfl

/-- What is drawn is a formula, or its names are more than there are numbers. -/
theorem random_ok_or_full {γ : Type} [RandomSource γ] {numVars width : Nat}
    (enough : width ≤ numVars) (room : numVars * numberWidth ≤ Room.limit) (count : Nat)
    (source : γ) :
    (∃ formula next, random numVars count width source = (.ok formula, next)) ∨
      Literal.maxVar < numVars ∧
        ∃ next, random numVars count width source = (.error (.fault .registryFull), next) := by
  obtain ⟨_, rows, later, _, _, names, sampled, made, full⟩ :=
    exists_random_eq enough room count source
  by_cases numerable : Numerable rows
  · exact .inl ⟨_, later, made numerable⟩
  · refine .inr ⟨Nat.lt_of_not_le fun fits => ?_, later, full numerable⟩
    exact numerable (numerable_of_orderedSamples names sampled fits)

end ChronoSat.Formula
