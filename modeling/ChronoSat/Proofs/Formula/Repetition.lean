/-
# Clauses that repeat earlier ones

Two clauses are equivalent if they have the same literals, whatever the order and however
often. Comparing the literals in ascending order, each once, comes to the same, and either way
equivalence is an equality of sets.

Dropping repeated clauses looks only at the clauses that were kept. That is enough: a clause
that was dropped is equivalent to one that was kept, so whoever repeats the one repeats the
other. What is kept is therefore the first clause with each set of literals, and it can be said
from the row itself, without the order in which the row is gone through. Whatever depends only
on the literals that there are, such as the first occurrences of the variables and the truth of
the formula, is not touched.
-/

import ChronoSat.Proofs.Formula.Renumbering
import Mathlib.Data.Finset.Dedup
import Mathlib.Data.List.Destutter
import Mathlib.Data.List.Sort

namespace ChronoSat

/-! ## Equivalent clauses -/

namespace Clause

/-- The literals of a clause, without order and repetition. -/
def literalSet (clause : Clause) : Finset Literal := clause.literals.toFinset

/-- The literals of a clause in ascending order of their integers, each once. -/
def sorted (clause : Clause) : List Literal :=
  (clause.literals.mergeSort fun left right => left.toInt ≤ right.toInt).destutter (· ≠ ·)

variable {left right : Clause}

theorem isEquivalent_iff : left.isEquivalent right = true ↔ left.literalSet = right.literalSet := by
  simp only [isEquivalent, Bool.and_eq_true, List.all_eq_true, contains, List.contains_iff_mem,
    literalSet, Finset.ext_iff, List.mem_toFinset]
  exact ⟨fun ⟨inRight, inLeft⟩ literal => ⟨inRight literal, inLeft literal⟩,
    fun same => ⟨fun literal => (same literal).mp, fun literal => (same literal).mpr⟩⟩

instance : Std.Antisymm fun left right : Literal => left.toInt ≤ right.toInt :=
  ⟨fun _ _ below above => Literal.toInt_inj (Int.le_antisymm below above)⟩

theorem pairwise_mergeSort (literals : List Literal) :
    (literals.mergeSort fun left right => left.toInt ≤ right.toInt).Pairwise
      fun left right => left.toInt ≤ right.toInt := by
  let below (left right : Literal) : Bool := left.toInt ≤ right.toInt
  have ascending : (literals.mergeSort below).Pairwise fun left right => below left right = true :=
    List.pairwise_mergeSort (fun _ _ _ => by simpa [below] using Int.le_trans)
      (fun _ _ => by simpa [below] using Int.le_total _ _) literals
  exact ascending.imp of_decide_eq_true

theorem mem_sorted (clause : Clause) (literal : Literal) :
    literal ∈ clause.sorted ↔ literal ∈ clause.literals := by
  rw [sorted, (pairwise_mergeSort clause.literals).destutter_eq_dedup, List.mem_dedup,
    List.mem_mergeSort]

theorem pairwise_sorted (clause : Clause) :
    clause.sorted.Pairwise fun left right => left.toInt < right.toInt := by
  have ascending := pairwise_mergeSort clause.literals
  rw [sorted, ascending.destutter_eq_dedup]
  have each := (ascending.sublist (List.dedup_sublist _)).and (List.nodup_dedup _)
  exact each.imp fun ⟨below, apart⟩ =>
    Int.lt_iff_le_and_ne.mpr ⟨below, fun same => apart (Literal.toInt_inj same)⟩

/-- Comparing the sorted literals is comparing the sets. -/
theorem sorted_eq_iff : left.sorted = right.sorted ↔ left.literalSet = right.literalSet := by
  simp only [literalSet, Finset.ext_iff, List.mem_toFinset, ← mem_sorted]
  constructor
  · intro same literal
    rw [same]
  · exact (pairwise_sorted left).eq_of_mem_iff (pairwise_sorted right)

theorem mem_iff_of_isEquivalent (equivalent : left.isEquivalent right = true)
    (literal : Literal) : literal ∈ left.literals ↔ literal ∈ right.literals := by
  have sets := Finset.ext_iff.mp (isEquivalent_iff.mp equivalent) literal
  rwa [literalSet, literalSet, List.mem_toFinset, List.mem_toFinset] at sets

theorem subset_of_isEquivalent (equivalent : left.isEquivalent right = true) :
    right.literals ⊆ left.literals :=
  fun literal => (mem_iff_of_isEquivalent equivalent literal).mpr

/-- Equivalent clauses under one connective are true together. -/
theorem evaluate_of_isEquivalent (equivalent : left.isEquivalent right = true)
    (same : left.connective = right.connective) (assignment : Assignment) :
    left.evaluate assignment = right.evaluate assignment := by
  have literals := mem_iff_of_isEquivalent equivalent
  rw [evaluate, evaluate, same, Bool.eq_iff_iff]
  cases right.connective <;> simp only [List.any_eq_true, List.all_eq_true, literals]

end Clause

namespace Formula

variable {form : NormalForm} {formula : Formula form} {earlier clauses : List Clause}

/-! ## The clauses that are kept -/

/-- Goes on to a clause. It is kept unless it is equivalent to a clause that was kept, and the
others are counted. -/
def sift (state : List Clause × Nat) (clause : Clause) : List Clause × Nat :=
  if state.1.any fun kept => kept.isEquivalent clause then (state.1, state.2 + 1)
  else (state.1 ++ [clause], state.2)

theorem exists_foldl_sift (clauses kept : List Clause) (dropped : Nat) :
    ∃ more, clauses.foldl sift (kept, dropped) =
        (kept ++ firstOfEach kept.reverse clauses, dropped + more) ∧
      more + (firstOfEach kept.reverse clauses).length = clauses.length := by
  -- What was kept stands in order here, and in the other recursion the latest first.
  induction clauses generalizing kept dropped with
  | nil => exact ⟨0, by simp [firstOfEach], rfl⟩
  | cons clause rest ih =>
      rw [List.foldl_cons, sift, firstOfEach, List.any_reverse]
      split
      · obtain ⟨more, ended, total⟩ := ih kept (dropped + 1)
        exact ⟨more + 1, by rw [ended, Nat.add_assoc, Nat.add_comm 1], by simp; omega⟩
      · obtain ⟨more, ended, total⟩ := ih (kept ++ [clause]) dropped
        rw [List.reverse_append, List.reverse_singleton, List.singleton_append] at ended total
        exact ⟨more, by rw [ended, List.append_assoc, List.singleton_append], by simp; omega⟩

/-- The clauses kept represent those passed: a clause repeats one of the former exactly if it
repeats one of the latter. -/
def Represents (earlier front : List Clause) : Prop :=
  ∀ clause, (earlier.any fun kept => kept.isEquivalent clause) = true ↔
    ∃ before ∈ front, before.literalSet = clause.literalSet

theorem represents_nil : Represents [] [] := by
  simp [Represents]

theorem Represents.dropped {front : List Clause} {clause : Clause}
    (represents : Represents earlier front)
    (repeated : (earlier.any fun kept => kept.isEquivalent clause) = true) :
    Represents earlier (front ++ [clause]) := by
  intro other
  obtain ⟨before, passed, same⟩ := (represents clause).mp repeated
  rw [represents other]
  constructor
  · rintro ⟨before, passed, equal⟩
    exact ⟨before, List.mem_append_left _ passed, equal⟩
  · rintro ⟨last, member, equal⟩
    rcases List.mem_append.mp member with passed | isClause
    · exact ⟨last, passed, equal⟩
    · obtain rfl := List.mem_singleton.mp isClause
      exact ⟨before, passed, same.trans equal⟩

theorem Represents.kept {front : List Clause} (represents : Represents earlier front)
    (clause : Clause) : Represents (clause :: earlier) (front ++ [clause]) := by
  intro other
  rw [List.any_cons, Bool.or_eq_true, represents other, Clause.isEquivalent_iff]
  simp only [List.mem_append, List.mem_singleton, or_and_right, exists_or, exists_eq_left]
  exact or_comm

/-- Whether a clause that stands at a place of a row has other literals than every clause in
front of it. -/
def isNewIn (clauses : List Clause) (placed : Clause × Nat) : Bool :=
  decide (∀ before ∈ clauses.take placed.2, before.literalSet ≠ placed.1.literalSet)

/-- Looking at the clauses kept finds the clauses that repeat none in front of them. -/
theorem firstOfEach_eq {front : List Clause} (represents : Represents earlier front)
    (clauses : List Clause) :
    firstOfEach earlier clauses =
      ((clauses.zipIdx front.length).filter (isNewIn (front ++ clauses))).map Prod.fst := by
  induction clauses generalizing earlier front with
  | nil => rfl
  | cons clause rest ih =>
      have passed : (front ++ [clause] ++ rest).take front.length = front := by simp
      have length : front.length + 1 = (front ++ [clause]).length := by simp
      have isNew : isNewIn (front ++ [clause] ++ rest) (clause, front.length) = true ↔
          ¬(earlier.any fun kept => kept.isEquivalent clause) = true := by
        rw [represents clause, isNewIn, decide_eq_true_iff, passed]
        push Not
        rfl
      rw [firstOfEach, List.append_cons, List.zipIdx_cons, length]
      split
      · next repeated =>
          rw [List.filter_cons_of_neg fun new => isNew.mp new repeated]
          exact ih (represents.dropped repeated)
      · next fresh =>
          rw [List.filter_cons_of_pos (isNew.mpr fresh), List.map_cons,
            ih (represents.kept clause)]

/-- No clause is kept that repeats another one. -/
theorem pairwise_firstOfEach (earlier clauses : List Clause) :
    (firstOfEach earlier clauses).Pairwise
        (fun before clause => before.isEquivalent clause = false) ∧
      ∀ kept ∈ earlier, ∀ clause ∈ firstOfEach earlier clauses,
        kept.isEquivalent clause = false := by
  induction clauses generalizing earlier with
  | nil => exact ⟨.nil, fun _ _ => nofun⟩
  | cons clause rest ih =>
      rw [firstOfEach]
      split
      · exact ih earlier
      · next isNew =>
          obtain ⟨apart, fromEarlier⟩ := ih (clause :: earlier)
          obtain ⟨fromClause, fromEarlier⟩ := List.forall_mem_cons.mp fromEarlier
          refine ⟨.cons fromClause apart, fun kept member => List.forall_mem_cons.mpr ⟨?_, ?_⟩⟩
          · simp only [List.any_eq_true, not_exists, not_and, Bool.not_eq_true] at isNew
            exact isNew kept member
          · exact fromEarlier kept member

/-- Where no clause repeats another one, all are kept. -/
theorem firstOfEach_eq_self
    (apart : clauses.Pairwise fun before clause => before.isEquivalent clause = false)
    (fromEarlier : ∀ kept ∈ earlier, ∀ clause ∈ clauses, kept.isEquivalent clause = false) :
    firstOfEach earlier clauses = clauses := by
  induction clauses generalizing earlier with
  | nil => rfl
  | cons clause rest ih =>
      obtain ⟨fromClause, apart⟩ := List.pairwise_cons.mp apart
      have isNew : ¬(earlier.any fun kept => kept.isEquivalent clause) = true := by
        simp only [List.any_eq_true, not_exists, not_and, Bool.not_eq_true]
        exact fun kept member => fromEarlier kept member clause List.mem_cons_self
      rw [firstOfEach, if_neg isNew, ih apart]
      refine List.forall_mem_cons.mpr ⟨fromClause, fun kept member other inRest => ?_⟩
      exact fromEarlier kept member other (List.mem_cons_of_mem _ inRest)

theorem simplify_simplify (formula : Formula form) : formula.simplify.simplify = formula.simplify :=
  congrArg (fun clauses => ({ formula with clauses := clauses } : Formula form))
    (firstOfEach_eq_self (pairwise_firstOfEach [] formula.clauses).1 nofun)

/-! ## What is not touched -/

/-- Every clause is equivalent to one that is kept. -/
theorem exists_mem_firstOfEach (earlier : List Clause) {clause : Clause}
    (member : clause ∈ clauses) :
    ∃ kept ∈ earlier ++ firstOfEach earlier clauses, kept.isEquivalent clause = true := by
  induction clauses generalizing earlier with
  | nil => cases member
  | cons first rest ih =>
      rw [firstOfEach]
      split
      · next repeated =>
          rcases List.mem_cons.mp member with rfl | inRest
          · obtain ⟨kept, inEarlier, equivalent⟩ := List.any_eq_true.mp repeated
            exact ⟨kept, List.mem_append_left _ inEarlier, equivalent⟩
          · exact ih earlier inRest
      · rcases List.mem_cons.mp member with rfl | inRest
        · exact ⟨clause, by simp, Clause.isEquivalent_iff.mpr rfl⟩
        · obtain ⟨kept, there, equivalent⟩ := ih (first :: earlier) inRest
          refine ⟨kept, ?_, equivalent⟩
          simp only [List.mem_append, List.mem_cons] at there ⊢
          tauto

/-- Dropping repeated clauses drops no first occurrence of what is read off the clauses, if
equivalent clauses have the same to read. -/
theorem eraseDups_firstOfEach {α : Type} [DecidableEq α] {read : Clause → List α}
    (subset : ∀ {kept clause : Clause}, kept.isEquivalent clause = true → read clause ⊆ read kept)
    (clauses : List Clause) {front : List α} (seen : ∀ kept ∈ earlier, read kept ⊆ front) :
    (front ++ (firstOfEach earlier clauses).flatMap read).eraseDups =
      (front ++ clauses.flatMap read).eraseDups := by
  induction clauses generalizing earlier front with
  | nil => rfl
  | cons clause rest ih =>
      rw [firstOfEach, List.flatMap_cons, ← List.append_assoc]
      split
      · next repeated =>
          obtain ⟨kept, member, equivalent⟩ := List.any_eq_true.mp repeated
          have known : read clause ⊆ front :=
            List.Subset.trans (subset equivalent) (seen kept member)
          rw [ih seen]
          exact (Occurrences.eraseDups_append_congr
            (Occurrences.eraseDups_append_of_subset known) _).symm
      · rw [List.flatMap_cons, ← List.append_assoc]
        apply ih
        intro other member
        rcases List.mem_cons.mp member with rfl | before
        · exact List.subset_append_right _ _
        · exact List.Subset.trans (seen other before) (List.subset_append_left _ _)

/-- The variables occur first in the order in which they did. -/
theorem eraseDups_occurrences_simplify (formula : Formula form) :
    formula.simplify.occurrences.eraseDups = formula.occurrences.eraseDups := by
  have subset {kept clause : Clause} (equivalent : kept.isEquivalent clause = true) :
      clause.literals.map Literal.var ⊆ kept.literals.map Literal.var :=
    List.map_subset _ (Clause.subset_of_isEquivalent equivalent)
  have nothing : ∀ kept ∈ ([] : List Clause), kept.literals.map Literal.var ⊆ [] := nofun
  exact eraseDups_firstOfEach subset formula.clauses nothing

/-- What is kept is as true as all there was, clause for clause. -/
theorem valueIn_simplify (wellFormed : formula.WellFormed) (assignment : Assignment) :
    formula.simplify.valueIn assignment = formula.valueIn assignment := by
  have kept_subset := firstOfEach_subset [] formula.clauses
  have represented : ∀ clause ∈ formula.clauses, ∃ kept ∈ formula.simplify.clauses,
      kept.evaluate assignment = clause.evaluate assignment := by
    intro clause member
    obtain ⟨kept, there, equivalent⟩ := exists_mem_firstOfEach [] member
    have connective := (wellFormed.connective_eq kept (kept_subset there)).trans
      (wellFormed.connective_eq clause member).symm
    exact ⟨kept, there, Clause.evaluate_of_isEquivalent equivalent connective assignment⟩
  rw [Bool.eq_iff_iff]
  cases form with
  | conjunctive =>
      simp only [valueIn, evaluate, List.all_eq_true]
      constructor
      · intro all clause member
        obtain ⟨kept, there, same⟩ := represented clause member
        rw [← same, all kept there]
      · exact fun all kept there => all kept (kept_subset there)
  | disjunctive =>
      simp only [valueIn, List.any_eq_true]
      constructor
      · rintro ⟨kept, there, holds⟩
        exact ⟨kept, kept_subset there, holds⟩
      · rintro ⟨clause, member, holds⟩
        obtain ⟨kept, there, same⟩ := represented clause member
        exact ⟨kept, there, same.trans holds⟩

/-- Simplifying keeps the first clause with each set of literals. A clause stays exactly if its
literals, order and repetition aside, are not those of any clause in front of it, and going
through the clauses one by one counts those that go. The names stay, the variables occur first
in the order in which they did, and under no assignment, total or partial, is there a difference
to the truth of the formula. What is left has nothing to drop. That clauses are equivalent means
that they have the same set of literals, or the same literals once these are sorted and
repetitions are dropped, and is an equivalence relation. -/
theorem simplify_first_of_each (obtained : Obtainable formula) :
    formula.simplify.clauses =
        (formula.clauses.zipIdx.filter (isNewIn formula.clauses)).map Prod.fst ∧
      (∃ dropped, formula.clauses.foldl sift ([], 0) = (formula.simplify.clauses, dropped) ∧
        dropped + formula.simplify.size = formula.size) ∧
      formula.simplify.registry = formula.registry ∧
      formula.simplify.occurrences.eraseDups = formula.occurrences.eraseDups ∧
      (∀ assignment, formula.simplify.valueIn assignment = formula.valueIn assignment) ∧
      formula.simplify.simplify = formula.simplify ∧
      (∀ left right : Clause, left.isEquivalent right = true ↔
        left.literalSet = right.literalSet) ∧
      (∀ left right : Clause, left.isEquivalent right = true ↔ left.sorted = right.sorted) ∧
      Equivalence fun left right : Clause => left.isEquivalent right = true := by
  obtain ⟨dropped, sifted, total⟩ := exists_foldl_sift formula.clauses [] 0
  rw [List.nil_append, Nat.zero_add] at sifted
  refine ⟨firstOfEach_eq represents_nil formula.clauses, ⟨dropped, sifted, total⟩, rfl,
    eraseDups_occurrences_simplify formula, valueIn_simplify obtained.wellFormed,
    simplify_simplify formula, fun _ _ => Clause.isEquivalent_iff,
    fun _ _ => Clause.isEquivalent_iff.trans Clause.sorted_eq_iff.symm, ?_⟩
  simp only [Clause.isEquivalent_iff]
  exact ⟨fun _ => rfl, Eq.symm, Eq.trans⟩

/-- A clause that comes again in another order, and one that comes again as it was. -/
def repetitive : Cnf :=
  .ofNamed [[("a", true), ("b", false)], [("b", false), ("a", true), ("a", true)], [("b", true)],
    [("a", true), ("b", false)]]

theorem obtainable_repetitive : Obtainable repetitive :=
  .addClauses [["a", "¬b"], ["¬b", "a", "a"], ["b"], ["a", "¬b"]] .empty rfl

theorem simplify_first_of_each_repetitive :
    ∃ dropped, repetitive.clauses.foldl sift ([], 0) = (repetitive.simplify.clauses, dropped) ∧
      dropped = 2 ∧ repetitive.simplify.valueIn ⟨[none, some true]⟩ = false := by
  obtain ⟨_, ⟨dropped, sifted, total⟩, _, _, same, _⟩ :=
    simplify_first_of_each obtainable_repetitive
  have sizes : repetitive.simplify.size = 2 ∧ repetitive.size = 4 := by decide
  exact ⟨dropped, sifted, by omega, (same _).trans (by decide)⟩

end Formula

end ChronoSat
