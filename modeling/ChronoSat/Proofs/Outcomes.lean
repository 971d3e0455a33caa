/-
# Computations that may fail

The library's operations return a result or say why there is none, and they run
over rows element by element. These are the laws by which a row succeeds when
every element does, and by which what one element keeps is kept by the row.
-/

import Mathlib.Data.List.Forall2

namespace ChronoSat.Outcomes

variable {α β ε : Type}

theorem bind_eq_ok {computation : Except ε α} {next : α → Except ε β} {result : β} :
    (computation >>= next) = .ok result ↔
      ∃ value, computation = .ok value ∧ next value = .ok result := by
  cases computation with
  | error problem => exact ⟨nofun, nofun⟩
  | ok value =>
      refine ⟨fun ended => ⟨value, rfl, ended⟩, ?_⟩
      rintro ⟨_, ⟨⟩, ended⟩
      exact ended

theorem bind_eq_error {computation : Except ε α} {next : α → Except ε β} {problem : ε} :
    (computation >>= next) = .error problem ↔
      computation = .error problem ∨
        ∃ value, computation = .ok value ∧ next value = .error problem := by
  cases computation with
  | error other =>
      refine ⟨fun ended => .inl (congrArg Except.error (Except.error.inj ended)), ?_⟩
      rintro (⟨⟨⟩⟩ | ⟨_, ⟨⟩, _⟩)
      rfl
  | ok value =>
      refine ⟨fun ended => .inr ⟨value, rfl, ended⟩, ?_⟩
      rintro (⟨⟨⟩⟩ | ⟨_, ⟨⟩, ended⟩)
      exact ended

theorem map_eq_ok_iff {f : α → β} {computation : Except ε α} {result : β} :
    computation.map f = .ok result ↔ ∃ value, computation = .ok value ∧ f value = result := by
  cases computation <;> simp [Except.map]

theorem map_eq_error_iff {f : α → β} {computation : Except ε α} {problem : ε} :
    computation.map f = .error problem ↔ computation = .error problem := by
  cases computation <;> simp [Except.map]

/-- Saying in other words why there is no result changes no result. -/
theorem mapError_eq_ok_iff {δ : Type} {other : ε → δ} {computation : Except ε α} {result : α} :
    computation.mapError other = .ok result ↔ computation = .ok result := by
  cases computation <;> simp [Except.mapError]

/-- A row succeeds with the results of its elements. -/
theorem mapM_eq_ok {f : α → Except ε β} {g : α → β} {row : List α}
    (each : ∀ element ∈ row, f element = .ok (g element)) :
    row.mapM f = .ok (row.map g) := by
  induction row with
  | nil => rfl
  | cons element rest ih =>
      rw [List.mapM_cons, each element List.mem_cons_self,
        ih fun other member => each other (List.mem_cons_of_mem _ member)]
      rfl

/-- A row succeeds if its elements do. -/
theorem exists_mapM_eq_ok {f : α → Except ε β} {row : List α}
    (each : ∀ element ∈ row, ∃ result, f element = .ok result) :
    ∃ results, row.mapM f = .ok results := by
  induction row with
  | nil => exact ⟨[], rfl⟩
  | cons element rest ih =>
      obtain ⟨first, taken⟩ := each element List.mem_cons_self
      obtain ⟨later, others⟩ := ih fun other member => each other (List.mem_cons_of_mem _ member)
      exact ⟨first :: later, by rw [List.mapM_cons, taken, others]; rfl⟩

/-- If a row succeeds, so does every element. -/
theorem exists_eq_ok_of_mapM {f : α → Except ε β} {row : List α} {results : List β}
    (succeeded : row.mapM f = .ok results) :
    ∀ element ∈ row, ∃ result, f element = .ok result := by
  induction row generalizing results with
  | nil => exact nofun
  | cons element rest ih =>
      rw [List.mapM_cons] at succeeded
      obtain ⟨first, taken, others⟩ := bind_eq_ok.mp succeeded
      obtain ⟨later, restTaken, _⟩ := bind_eq_ok.mp others
      intro other member
      rcases List.mem_cons.mp member with same | inRest
      · exact ⟨first, same ▸ taken⟩
      · exact ih restTaken other inRest

/-- A row succeeds exactly if its elements do. -/
theorem exists_mapM_iff {f : α → Except ε β} {row : List α} :
    (∃ results, row.mapM f = .ok results) ↔ ∀ element ∈ row, ∃ result, f element = .ok result :=
  ⟨fun ⟨_, succeeded⟩ => exists_eq_ok_of_mapM succeeded, exists_mapM_eq_ok⟩

/-- A row succeeds exactly with the results of its elements, one for one. -/
theorem mapM_eq_ok_iff {f : α → Except ε β} {row : List α} {results : List β} :
    row.mapM f = .ok results ↔
      List.Forall₂ (fun element result => f element = .ok result) row results := by
  induction row generalizing results with
  | nil => simp [pure, Except.pure, eq_comm]
  | cons element rest ih =>
      rw [List.mapM_cons, bind_eq_ok, List.forall₂_cons_left_iff]
      apply exists_congr
      intro result
      constructor
      · rintro ⟨taken, others⟩
        obtain ⟨later, restTaken, same⟩ := bind_eq_ok.mp others
        exact ⟨later, taken, ih.mp restTaken, (Except.ok.inj same).symm⟩
      · rintro ⟨later, taken, restTaken, rfl⟩
        exact ⟨taken, bind_eq_ok.mpr ⟨later, ih.mpr restTaken, rfl⟩⟩

/-- Rows are taken to each other by computations that undo each other. -/
theorem mapM_eq_ok_iff_of_inverse {f : α → Except ε β} {g : β → Except ε α} {row : List α}
    {results : List β} (inverse : ∀ element result, f element = .ok result ↔ g result = .ok element) :
    row.mapM f = .ok results ↔ results.mapM g = .ok row := by
  simp only [mapM_eq_ok_iff, inverse]
  exact ⟨List.Forall₂.flip, List.Forall₂.flip⟩

/-- Where only the reason of a failure is more than an option tells, a row succeeds exactly
if every element has a result. -/
theorem mapM_eq_ok_iff_map_eq {f : α → Except ε β} {g : α → Option β} {row : List α}
    {results : List β}
    (same : ∀ element result, f element = .ok result ↔ g element = some result) :
    row.mapM f = .ok results ↔ row.map g = results.map some := by
  rw [mapM_eq_ok_iff, ← List.forall₂_eq_eq_eq, List.forall₂_map_left_iff,
    List.forall₂_map_right_iff]
  simp only [same]

/-- A row fails as the first of its elements does that fails. -/
theorem mapM_eq_error_iff {f : α → Except ε β} {row : List α} {problem : ε} :
    row.mapM f = .error problem ↔
      ∃ before element after, row = before ++ element :: after ∧
        (∀ earlier ∈ before, ∃ result, f earlier = .ok result) ∧ f element = .error problem := by
  induction row with
  | nil => simp [pure, Except.pure]
  | cons element rest ih =>
      rw [List.mapM_cons, bind_eq_error]
      constructor
      · rintro (failed | ⟨result, taken, others⟩)
        · exact ⟨[], element, rest, rfl, nofun, failed⟩
        · rcases bind_eq_error.mp others with failed | ⟨_, _, ⟨⟩⟩
          obtain ⟨before, other, after, rfl, earlier, failed⟩ := ih.mp failed
          refine ⟨element :: before, other, after, rfl, ?_, failed⟩
          exact List.forall_mem_cons.mpr ⟨⟨result, taken⟩, earlier⟩
      · rintro ⟨before, other, after, split, earlier, failed⟩
        cases before with
        | nil =>
            obtain ⟨rfl, rfl⟩ := List.cons.inj split
            exact .inl failed
        | cons first before =>
            obtain ⟨rfl, rfl⟩ := List.cons.inj split
            rw [List.forall_mem_cons] at earlier
            obtain ⟨⟨result, taken⟩, earlier⟩ := earlier
            have later := ih.mpr ⟨before, other, after, rfl, earlier, failed⟩
            exact .inr ⟨result, taken, bind_eq_error.mpr (.inl later)⟩

/-- What holds of nothing and the start, and goes on from the elements passed so far to one
more, holds of the whole row and what it ends with. No element fails, so the row does not. -/
theorem exists_foldlM_eq_ok {f : β → α → Except ε β} {row : List α} (follows : List α → β → Prop)
    (step : ∀ passed, ∀ element ∈ row, ∀ before, follows passed before →
      ∃ after, f before element = .ok after ∧ follows (passed ++ [element]) after)
    {start : β} (initially : follows [] start) :
    ∃ result, row.foldlM f start = .ok result ∧ follows row result := by
  induction row generalizing start follows with
  | nil => exact ⟨start, rfl, initially⟩
  | cons element rest ih =>
      obtain ⟨after, taken, followsAfter⟩ := step [] element List.mem_cons_self start initially
      obtain ⟨result, ended, followsResult⟩ := ih (fun passed => follows (element :: passed))
        (fun passed other member => step (element :: passed) other (List.mem_cons_of_mem _ member))
        followsAfter
      refine ⟨result, ?_, followsResult⟩
      rw [List.foldlM_cons, taken]
      exact ended

end ChronoSat.Outcomes
