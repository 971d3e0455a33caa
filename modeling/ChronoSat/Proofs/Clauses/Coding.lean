/-
# Clauses as signed integers

A literal over a registered variable and the signed integer that stands for it are found from one
another: the magnitude is the number of the variable and the sign is the polarity. So the integers
that stand for literals are those other than zero whose magnitude has been given out as a number.
Clauses are encoded and decoded literal by literal, which makes the one the inverse of the other,
and either is refused for the first element that has no counterpart.

A registry gives out numbers only as long as literals can be made of them. That leaves out one
integer of 32 bits that is not zero, the one whose opposite takes more: whatever has been
registered, it stands for nothing.

The registry of any formula is built by registering names. Its clauses can therefore be encoded,
decoded again and added one after the other, and that is the formula.
-/

import ChronoSat.Proofs.Formula.Gathered
import ChronoSat.Proofs.Formula.Residue

namespace ChronoSat

variable {form : NormalForm} {registry : Registry} {literal : Literal} {value : Int}

/-! ## Registries that can be built -/

/-- A registry that some history of registering names and reading the texts of literals ends in. -/
inductive Registry.Built : Registry → Prop
  /-- Nothing is registered. -/
  | empty : Built .empty
  /-- A name is registered. -/
  | register {registry grown : Registry} {name : String} (before : Built registry)
      (registered : registry.register name = .ok grown) : Built grown
  /-- The text of a literal is read, and its name registered. -/
  | intern {registry grown : Registry} {text : String} {literal : Literal}
      (before : Built registry) (read : registry.intern text = .ok (literal, grown)) :
      Built grown

/-- Reading the text of a literal registers a name. -/
theorem Registry.exists_register_of_intern {grown : Registry} {text : String}
    (read : registry.intern text = .ok (literal, grown)) :
    ∃ name, registry.register name = .ok grown := by
  unfold intern at read
  split at read
  · cases read
  · next name _ _ =>
      obtain ⟨_, registered, same⟩ := Outcomes.bind_eq_ok.mp read
      obtain ⟨_, rfl⟩ := Prod.mk.inj (Except.ok.inj same)
      exact ⟨name, Outcomes.mapError_eq_ok_iff.mp registered⟩

theorem Registry.size_le_of_register {grown : Registry} {name : String}
    (fits : registry.size ≤ Literal.maxVar) (registered : registry.register name = .ok grown) :
    grown.size ≤ Literal.maxVar := by
  rw [register_eq fits, limited_eq_ok_iff] at registered
  exact registered.2 ▸ registered.1

namespace Registry.Built

/-- Every number that has been given out is one that a literal can be made of. -/
theorem size_le (built : registry.Built) : registry.size ≤ Literal.maxVar := by
  induction built with
  | empty => exact Nat.zero_le _
  | register _ registered ih => exact size_le_of_register ih registered
  | intern _ read ih =>
      obtain ⟨_, registered⟩ := exists_register_of_intern read
      exact size_le_of_register ih registered

theorem withName (built : registry.Built) {name : String}
    (fits : (registry.withName name).size ≤ Literal.maxVar) : (registry.withName name).Built :=
  built.register ((register_eq built.size_le name).trans (limited_of_le fits _))

theorem numberAll (built : registry.Built) {row : NamedClause}
    (fits : (registry.numberAll row).2.size ≤ Literal.maxVar) :
    (registry.numberAll row).2.Built := by
  induction row generalizing registry with
  | nil => exact built
  | cons named rest ih =>
      have smaller := (names_prefix_numberAll (registry.withName named.1) rest).length_le
      exact ih (built.withName (Nat.le_trans smaller fits)) fits

theorem numberRows (built : registry.Built) {rows : List NamedClause}
    (fits : (registry.numberRows rows).2.size ≤ Literal.maxVar) :
    (registry.numberRows rows).2.Built := by
  induction rows generalizing registry with
  | nil => exact built
  | cons row rest ih =>
      have smaller := (names_prefix_numberRows (registry.numberAll row).2 rest).length_le
      exact ih (built.numberAll (Nat.le_trans smaller fits)) fits

theorem ofNamed {rows : List NamedClause}
    (fits : (Formula.ofNamed rows : Formula form).numVars ≤ Literal.maxVar) :
    (Formula.ofNamed rows : Formula form).registry.Built :=
  Built.empty.numberRows fits

end Registry.Built

/-- The registry of a formula is built by registering names. -/
theorem Obtainable.built {formula : Formula form} (obtained : Obtainable formula) :
    formula.registry.Built := by
  induction obtained with
  | empty => exact .empty
  | parse read =>
      obtain ⟨rows, rfl, fits⟩ := Formula.exists_ofNamed_of_parse read
      exact .ofNamed fits
  | addClause _ added ih =>
      obtain ⟨row, _, fits, rfl⟩ := (Formula.addClause_eq_ok_iff ih.size_le).mp added
      exact ih.numberAll fits
  | pushClause _ pushed ih =>
      obtain ⟨_, _, same⟩ := Outcomes.bind_eq_ok.mp pushed
      cases same
      exact ih
  | append _ _ appended ih _ =>
      obtain ⟨fits, rfl⟩ := (Formula.append_eq_ok_iff ih.size_le).mp appended
      exact ih.numberRows fits
  | simplify _ ih => exact ih
  | reduce _ applied ih => rwa [Formula.registry_of_reduce applied]
  | distribute _ ih => exact ih
  | readDimacs read =>
      obtain ⟨rows, rfl, fits⟩ := Formula.exists_ofNamed_of_readLines Formula.counted_start read
      exact .ofNamed fits
  | random drawn =>
      obtain ⟨_, _, rfl, fits⟩ := Formula.random_eq_ok drawn
      exact .ofNamed fits

/-! ## Literals -/

namespace Registry

/-- A signed integer stands for a literal over a registered variable. -/
def Stands (registry : Registry) (value : Int) : Prop :=
  value ≠ 0 ∧ value.natAbs ≤ registry.size

instance : Decidable (registry.Stands value) :=
  inferInstanceAs (Decidable (value ≠ 0 ∧ value.natAbs ≤ registry.size))

theorem stands_toInt_iff :
    registry.Stands literal.toInt ↔ registry.contains literal.var = true := by
  rw [Stands, literal.natAbs_toInt, contains_iff]
  exact and_congr_left fun _ => iff_of_true literal.toInt_ne_zero literal.var_pos

theorem encode_eq (registry : Registry) (literal : Literal) :
    registry.encode literal =
      if registry.Stands literal.toInt then .ok literal.toInt
      else .error (.unregisteredId literal.toInt) := by
  simp only [encode, stands_toInt_iff]

theorem decode_toInt (registry : Registry) (literal : Literal) :
    registry.decode literal.toInt =
      if registry.Stands literal.toInt then .ok literal
      else .error (.unregisteredId literal.toInt) := by
  simp only [decode, literal.ofInt?_toInt, stands_toInt_iff]

/-- An integer is zero, or it stands for a literal as far as no registry is asked. -/
theorem eq_zero_or_exists_toInt (value : Int) :
    value = 0 ∨ ∃ literal : Literal, literal.toInt = value := by
  by_cases zero : value = 0
  · exact .inl zero
  · have made : Literal.ofInt? value = some _ := dif_neg zero
    exact .inr ⟨_, Literal.ofInt?_eq_some_iff.mp made⟩

theorem exists_encode_iff :
    (∃ value, registry.encode literal = .ok value) ↔ registry.contains literal.var = true := by
  rw [encode_eq, ← stands_toInt_iff]
  split <;> simp_all

theorem encode_eq_error_iff {problem : Error} :
    registry.encode literal = .error problem ↔
      registry.contains literal.var = false ∧ problem = .unregisteredId literal.toInt := by
  rw [encode_eq, ← Bool.not_eq_true, ← stands_toInt_iff]
  split <;> simp_all [eq_comm]

theorem exists_decode_iff :
    (∃ literal, registry.decode value = .ok literal) ↔ registry.Stands value := by
  rcases eq_zero_or_exists_toInt value with rfl | ⟨literal, rfl⟩
  · simp [decode, Literal.ofInt?, Stands]
  · rw [decode_toInt]
    split <;> simp_all

theorem decode_eq_error_iff {problem : Error} :
    registry.decode value = .error problem ↔
      ¬registry.Stands value ∧ problem = .unregisteredId value := by
  rcases eq_zero_or_exists_toInt value with rfl | ⟨literal, rfl⟩
  · simp [decode, Literal.ofInt?, Stands, eq_comm]
  · rw [decode_toInt]
    split <;> simp_all [eq_comm]

/-- Decoding a value gives the literal that is encoded as the value. -/
theorem decode_eq_ok_iff :
    registry.decode value = .ok literal ↔ registry.encode literal = .ok value := by
  rw [encode_eq]
  constructor
  · intro decoded
    have stands := exists_decode_iff.mp ⟨literal, decoded⟩
    obtain ⟨other, rfl⟩ := (eq_zero_or_exists_toInt value).resolve_left stands.1
    rw [decode_toInt, if_pos stands] at decoded
    cases decoded
    rw [if_pos stands]
  · intro encoded
    split at encoded
    · next stands =>
        obtain rfl := Except.ok.inj encoded
        rw [decode_toInt, if_pos stands]
    · cases encoded

end Registry

/-! ## Clauses -/

namespace Clause

variable {connective : Connective} {values : List Int} {clause : Clause} {problem : Error}

theorem decode_eq_ok_iff_mapM :
    decode connective registry values = .ok clause ↔
      clause.connective = connective ∧ values.mapM registry.decode = .ok clause.literals := by
  rw [decode, Outcomes.bind_eq_ok]
  constructor
  · rintro ⟨literals, decoded, ⟨⟩⟩
    exact ⟨rfl, decoded⟩
  · rintro ⟨rfl, decoded⟩
    exact ⟨_, decoded, rfl⟩

/-- Decoding is the inverse of encoding, but for the connective, which integers say nothing of. -/
theorem decode_eq_ok_iff :
    decode connective registry values = .ok clause ↔
      clause.connective = connective ∧ clause.encode registry = .ok values := by
  rw [decode_eq_ok_iff_mapM, encode,
    Outcomes.mapM_eq_ok_iff_of_inverse fun _ _ => Registry.decode_eq_ok_iff]

theorem exists_decode_iff :
    (∃ clause, decode connective registry values = .ok clause) ↔
      ∀ value ∈ values, registry.Stands value := by
  simp only [← Registry.exists_decode_iff, ← Outcomes.exists_mapM_iff, decode_eq_ok_iff_mapM]
  exact ⟨fun ⟨clause, _, decoded⟩ => ⟨_, decoded⟩,
    fun ⟨literals, decoded⟩ => ⟨⟨connective, literals⟩, rfl, decoded⟩⟩

/-- Decoding is refused for the first value that stands for nothing. -/
theorem decode_eq_error_iff :
    decode connective registry values = .error problem ↔
      ∃ before value after, values = before ++ value :: after ∧
        (∀ earlier ∈ before, registry.Stands earlier) ∧ ¬registry.Stands value ∧
        problem = .unregisteredId value := by
  have stopped : decode connective registry values = .error problem ↔
      values.mapM registry.decode = .error problem := by
    rw [decode, Outcomes.bind_eq_error]
    exact or_iff_left fun ⟨_, _, ended⟩ => nomatch ended
  simp only [stopped, Outcomes.mapM_eq_error_iff, Registry.exists_decode_iff,
    Registry.decode_eq_error_iff]

theorem exists_encode_iff :
    (∃ values, clause.encode registry = .ok values) ↔
      ∀ literal ∈ clause.literals, registry.contains literal.var = true := by
  simp only [← Registry.exists_encode_iff, ← Outcomes.exists_mapM_iff, encode]

/-- Encoding is refused for the first literal whose variable is not registered. -/
theorem encode_eq_error_iff :
    clause.encode registry = .error problem ↔
      ∃ before literal after, clause.literals = before ++ literal :: after ∧
        (∀ earlier ∈ before, registry.contains earlier.var = true) ∧
        registry.contains literal.var = false ∧ problem = .unregisteredId literal.toInt := by
  simp only [encode, Outcomes.mapM_eq_error_iff, Registry.exists_encode_iff,
    Registry.encode_eq_error_iff]

end Clause

/-! ## Formulas -/

namespace Formula

/-- Clauses over registered variables are added under the connective of the form. -/
theorem foldlM_pushClause {clauses : List Clause}
    (registered : ∀ clause ∈ clauses, ∃ values, clause.encode registry = .ok values)
    (earlier : List Clause) :
    clauses.foldlM pushClause (⟨earlier, registry⟩ : Formula form) =
      .ok ⟨earlier ++ clauses.map fun clause => ⟨form.inner, clause.literals⟩, registry⟩ := by
  induction clauses generalizing earlier with
  | nil => exact congrArg (fun row => Except.ok (Formula.mk row registry)) earlier.append_nil.symm
  | cons clause rest ih =>
      obtain ⟨⟨values, encoded⟩, others⟩ := List.forall_mem_cons.mp registered
      have pushed : pushClause (⟨earlier, registry⟩ : Formula form) clause =
          .ok ⟨earlier ++ [⟨form.inner, clause.literals⟩], registry⟩ := by
        rw [pushClause, encoded]
        rfl
      rw [List.foldlM_cons, pushed, List.map_cons]
      refine (ih others (earlier ++ [⟨form.inner, clause.literals⟩])).trans ?_
      rw [List.append_assoc, List.singleton_append]

/-- The clauses of a formula can be encoded, decoded and added again. -/
theorem WellFormed.rebuilt {formula : Formula form} (wellFormed : formula.WellFormed) :
    ∃ rows, formula.encode = .ok rows ∧ ∀ connective, ∃ clauses,
      rows.mapM (Clause.decode connective formula.registry) = .ok clauses ∧
        clauses.foldlM pushClause ({ formula with clauses := [] } : Formula form) =
          .ok formula := by
  have encoded (clause : Clause) (member : clause ∈ formula.clauses) :
      clause.encode formula.registry = .ok (clause.literals.map Literal.toInt) := by
    have each := Outcomes.mapM_eq_ok_iff.mp wellFormed.encode_eq_ok
    rw [List.forall₂_map_right_iff, List.forall₂_same] at each
    exact each clause member
  refine ⟨_, wellFormed.encode_eq_ok, fun connective => ?_⟩
  let decoded := formula.clauses.map fun clause => (⟨connective, clause.literals⟩ : Clause)
  have registered : ∀ clause ∈ decoded, ∃ values, clause.encode formula.registry = .ok values :=
    List.forall_mem_map.mpr fun clause member => ⟨_, encoded clause member⟩
  refine ⟨decoded, ?_, ?_⟩
  · rw [Outcomes.mapM_eq_ok_iff, List.forall₂_map_left_iff, List.forall₂_map_right_iff,
      List.forall₂_same]
    exact fun clause member => Clause.decode_eq_ok_iff.mpr ⟨rfl, encoded clause member⟩
  · have clauses := wellFormed.clauses_eq
    rw [List.map_map] at clauses
    rw [foldlM_pushClause registered, List.nil_append, List.map_map]
    exact congrArg (fun row => Except.ok (Formula.mk row formula.registry)) clauses.symm

end Formula

/-! ## The correspondence -/

namespace Clause

/-- Signed integers and clauses over a registry that can be built correspond to each other, but for
the connective. Integers are decoded exactly if each of them stands for a literal, so never if one
of them is the integer of 32 bits whose opposite takes more, and otherwise the first that does not
is reported. Clauses are encoded exactly if the variables of all literals are registered, and
otherwise the first literal is reported whose variable is not. What is decoded is encoded as what it
was decoded from, and what is encoded is decoded as what it was. So the clauses of a formula can be
encoded, decoded with any connective and added one after the other to what is left of the formula
without them, and that is the formula again. -/
theorem coding_bijective (built : registry.Built) :
    (∀ (connective : Connective) (values : List Int),
      ((∃ clause, decode connective registry values = .ok clause) ↔
        ∀ value ∈ values, registry.Stands value) ∧
      (-2147483648 ∈ values → ∃ problem, decode connective registry values = .error problem) ∧
      ∀ problem, decode connective registry values = .error problem ↔
        ∃ before value after, values = before ++ value :: after ∧
          (∀ earlier ∈ before, registry.Stands earlier) ∧ ¬registry.Stands value ∧
          problem = .unregisteredId value) ∧
    (∀ clause : Clause,
      ((∃ values, clause.encode registry = .ok values) ↔
        ∀ literal ∈ clause.literals, registry.contains literal.var = true) ∧
      ∀ problem, clause.encode registry = .error problem ↔
        ∃ before literal after, clause.literals = before ++ literal :: after ∧
          (∀ earlier ∈ before, registry.contains earlier.var = true) ∧
          registry.contains literal.var = false ∧ problem = .unregisteredId literal.toInt) ∧
    (∀ (connective : Connective) (values : List Int) (clause : Clause),
      decode connective registry values = .ok clause ↔
        clause.connective = connective ∧ clause.encode registry = .ok values) ∧
    ∀ (form : NormalForm) (formula : Formula form), Obtainable formula →
      formula.registry.Built ∧ ∃ rows, formula.encode = .ok rows ∧ ∀ connective, ∃ clauses,
        rows.mapM (decode connective formula.registry) = .ok clauses ∧
          clauses.foldlM Formula.pushClause ({ formula with clauses := [] } : Formula form) =
            .ok formula := by
  refine ⟨fun connective values => ⟨exists_decode_iff, fun member => ?_, fun _ =>
    decode_eq_error_iff⟩, fun clause => ⟨exists_encode_iff, fun _ => encode_eq_error_iff⟩,
    fun _ _ _ => decode_eq_ok_iff,
    fun form formula obtained => ⟨obtained.built, obtained.wellFormed.rebuilt⟩⟩
  cases decoded : decode connective registry values with
  | error problem => exact ⟨problem, rfl⟩
  | ok clause =>
      have stands := exists_decode_iff.mp ⟨clause, decoded⟩ _ member
      exact absurd (Nat.le_trans stands.2 built.size_le) (by decide)

/-- A name that no literal can be read with has a number all the same. Of two integers that stand
for nothing the first is reported. -/
theorem coding_bijective_twoNames :
    let registry : Registry := ⟨["x y", "c"]⟩
    registry.Built ∧
      (∃ clause, decode .conj registry [-2, 1, -2] = .ok clause ∧
        clause.encode registry = .ok [-2, 1, -2]) ∧
      decode .conj registry [1, -3, 0] = .error (.unregisteredId (-3)) ∧
      (∃ problem, decode .disj registry [1, -2147483648] = .error problem) ∧
      ∃ rows clauses, (Formula.ofNamed [[("b", true), ("a", false)]] : Cnf).encode = .ok rows ∧
        rows.mapM (decode .conj ⟨["b", "a"]⟩) = .ok clauses ∧
        clauses.foldlM Formula.pushClause (⟨[], ⟨["b", "a"]⟩⟩ : Cnf) =
          .ok (Formula.ofNamed [[("b", true), ("a", false)]]) := by
  intro registry
  have registered : Registry.empty.register "x y" = .ok ⟨["x y"]⟩ := rfl
  have read : Registry.intern ⟨["x y"]⟩ "¬c" = .ok (⟨2, false, by decide⟩, registry) := by decide
  have built : registry.Built := (Registry.Built.empty.register registered).intern read
  obtain ⟨decodes, _, inverse, rebuilds⟩ := coding_bijective built
  obtain ⟨clause, decoded⟩ := (decodes .conj [-2, 1, -2]).1.mpr (by decide)
  have refused := ((decodes .conj [1, -3, 0]).2.2 _).mpr
    ⟨[1], -3, [0], rfl, by decide, by decide, rfl⟩
  obtain ⟨_, rows, encoded, again⟩ :=
    rebuilds .conjunctive _ Formula.gathered_twoLiterals.obtainable
  obtain ⟨clauses, read, pushed⟩ := again .conj
  exact ⟨built, ⟨clause, decoded, ((inverse _ _ _).mp decoded).2⟩, refused,
    (decodes .disj [1, -2147483648]).2.1 (by decide), rows, clauses, encoded, read, pushed⟩

end Clause

end ChronoSat
