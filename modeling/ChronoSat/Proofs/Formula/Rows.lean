/-
# Formulas of named rows

Adding clauses by name has two sides. Numbers are given out, which can be said as if
there were always one more (`withRow`, `withRows`, `ofNamed`), and they may run out. As
with a single name, what adding clauses comes to is limited by the numbers of names in
the end: if literals can be made of all of them, nothing has been a fault on the way.

The clauses taken in by an intake stand in it the other way round, which is nothing to
the formula.
-/

import ChronoSat.Formula
import ChronoSat.Proofs.Registry

namespace ChronoSat

variable {form : NormalForm}

namespace Formula

/-! ## Without end -/

/-- The formula with the clause of the named literals at the end, whether there are
numbers for new names or not. -/
def withRow (formula : Formula form) (row : NamedClause) : Formula form :=
  let (literals, registry) := formula.registry.numberAll row
  ⟨formula.clauses ++ [⟨form.inner, literals⟩], registry⟩

/-- The formula with the clauses of several rows of named literals at the end, whether
there are numbers for new names or not. -/
def withRows (formula : Formula form) (rows : List NamedClause) : Formula form :=
  let (interned, registry) := formula.registry.numberRows rows
  ⟨formula.clauses ++ interned.map fun literals => ⟨form.inner, literals⟩, registry⟩

/-- The formula whose clauses are the given rows of named literals, its variables
numbered in the order of their first occurrence. -/
def ofNamed (rows : List NamedClause) : Formula form :=
  empty.withRows rows

@[simp]
theorem withRows_nil (formula : Formula form) : formula.withRows [] = formula := by
  simp [withRows, Registry.numberRows]

theorem withRows_cons (formula : Formula form) (row : NamedClause) (rest : List NamedClause) :
    formula.withRows (row :: rest) = (formula.withRow row).withRows rest := by
  simp [withRows, withRow, Registry.numberRows]

/-- Adding clauses at once is adding them one by one. -/
theorem withRows_eq_foldl (formula : Formula form) (rows : List NamedClause) :
    formula.withRows rows = rows.foldl withRow formula := by
  induction rows generalizing formula with
  | nil => exact formula.withRows_nil
  | cons row rest ih => rw [withRows_cons, ih, List.foldl_cons]

theorem withRows_append (formula : Formula form) (front back : List NamedClause) :
    formula.withRows (front ++ back) = (formula.withRows front).withRows back := by
  simp only [withRows_eq_foldl, List.foldl_append]

theorem names_prefix_withRows (formula : Formula form) (rows : List NamedClause) :
    formula.registry.names <+: (formula.withRows rows).registry.names :=
  Registry.names_prefix_numberRows formula.registry rows

/-! ## As long as there are numbers -/

section Limited

variable {formula : Formula form}

theorem addNamed_eq (fits : formula.numVars ≤ Literal.maxVar) (row : NamedClause) :
    formula.addNamed row =
      Registry.limited (formula.withRow row).numVars (formula.withRow row) := by
  rw [addNamed, Registry.registerAll_eq fits]
  exact Registry.limited_bind (Nat.le_refl _) fun room => (Registry.limited_of_le room _).symm

@[simp]
theorem formula_intake (formula : Formula form) : formula.intake.formula = formula := by
  simp [intake, Intake.formula]

theorem take_intake (fits : formula.numVars ≤ Literal.maxVar) (row : NamedClause) :
    formula.intake.take row =
      Registry.limited (formula.withRow row).numVars (formula.withRow row).intake := by
  have longer : (formula.withRow row).intake = ⟨⟨form.inner, (formula.registry.numberAll row).1⟩ ::
      formula.clauses.reverse, (formula.registry.numberAll row).2⟩ := by
    simp [withRow, intake]
  rw [Intake.take, longer, intake, Registry.registerAll_eq fits]
  exact Registry.limited_bind (Nat.le_refl _) fun room => (Registry.limited_of_le room _).symm

theorem takeAll_intake (fits : formula.numVars ≤ Literal.maxVar) (rows : List NamedClause) :
    formula.intake.takeAll rows =
      Registry.limited (formula.withRows rows).numVars (formula.withRows rows).intake := by
  induction rows generalizing formula with
  | nil =>
      rw [withRows_nil, Registry.limited_of_le fits]
      rfl
  | cons row rest ih =>
      rw [Intake.takeAll, List.foldlM_cons, take_intake fits, withRows_cons]
      exact Registry.limited_bind (names_prefix_withRows _ rest).length_le ih

/-- A clause is added by name if its texts are read and there is a number for every name. -/
theorem addClause_eq_ok_iff (fits : formula.numVars ≤ Literal.maxVar) {texts : List String}
    {longer : Formula form} :
    formula.addClause texts = .ok longer ↔
      ∃ row, texts.mapM readLiteral = .ok row ∧
        (formula.withRow row).numVars ≤ Literal.maxVar ∧ longer = formula.withRow row := by
  simp only [addClause, Outcomes.bind_eq_ok, Outcomes.mapError_eq_ok_iff, addNamed_eq fits,
    Registry.limited_eq_ok_iff]

/-- The clauses of another formula are its rows. -/
theorem append_eq (fits : formula.numVars ≤ Literal.maxVar) (other : Formula form) :
    formula.append other =
      let longer := formula.withRows (other.clauses.map (namedLiterals other.registry))
      Registry.limited longer.numVars longer := by
  rw [append, takeAll_intake fits]
  refine Registry.limited_bind (Nat.le_refl _) fun room => ?_
  rw [Registry.limited_of_le room, formula_intake]
  rfl

theorem append_eq_ok_iff (fits : formula.numVars ≤ Literal.maxVar) {other longer : Formula form} :
    formula.append other = .ok longer ↔
      longer.numVars ≤ Literal.maxVar ∧
        longer = formula.withRows (other.clauses.map (namedLiterals other.registry)) := by
  rw [append_eq fits, Registry.limited_eq_ok_iff]
  constructor <;> rintro ⟨room, rfl⟩ <;> exact ⟨room, rfl⟩

section Yield

variable {given : Yield}

/-- What was read is taken in if it ended well and literals can be made of all numbers. -/
theorem takeYield_eq_ok_iff (fits : formula.numVars ≤ Literal.maxVar) {taken : Intake form} :
    formula.intake.takeYield given = .ok taken ↔
      (formula.withRows given.rows).numVars ≤ Literal.maxVar ∧ given.ended = .ok () ∧
        taken = (formula.withRows given.rows).intake := by
  rw [Intake.takeYield, takeAll_intake fits, Registry.limited]
  by_cases room : (formula.withRows given.rows).numVars ≤ Literal.maxVar
  · cases given.ended <;>
      simp [room, Except.mapError, bind, Except.bind, pure, Except.pure, eq_comm]
  · simp [room, Except.mapError, bind, Except.bind]

/-- The clauses that were read are registered however reading ended. -/
theorem takeYield_eq_fault_iff (fits : formula.numVars ≤ Literal.maxVar) {fault : Fault} :
    formula.intake.takeYield given = .error (.fault fault) ↔
      Literal.maxVar < (formula.withRows given.rows).numVars ∧ fault = .registryFull := by
  rw [Intake.takeYield, takeAll_intake fits, Registry.limited, ← Nat.not_le]
  by_cases room : (formula.withRows given.rows).numVars ≤ Literal.maxVar
  · cases given.ended <;> simp [room, Except.mapError, bind, Except.bind, pure, Except.pure]
  · simp [room, Except.mapError, bind, Except.bind, eq_comm]

theorem takeYield_eq_error_iff (fits : formula.numVars ≤ Literal.maxVar) {problem : Error} :
    formula.intake.takeYield given = .error (.error problem) ↔
      (formula.withRows given.rows).numVars ≤ Literal.maxVar ∧ given.ended = .error problem := by
  rw [Intake.takeYield, takeAll_intake fits, Registry.limited]
  by_cases room : (formula.withRows given.rows).numVars ≤ Literal.maxVar
  · cases given.ended <;> simp [room, Except.mapError, bind, Except.bind, pure, Except.pure]
  · simp [room, Except.mapError, bind, Except.bind]

end Yield

end Limited

end Formula

end ChronoSat
