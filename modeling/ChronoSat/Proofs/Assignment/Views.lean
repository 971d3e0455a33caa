/-
# The views of an assignment

What an assignment says number by number can also be read as a map from names to values, as
the literals that it makes true, and as a line with their texts. Each view has all of it. The
entries of the map can be assigned again, which leads to the same values. The words of the line
can be looked up one by one, and they are the literals, in the order of their numbers: a name has
no blank and no sign in it, so the line falls apart into the words that it was joined from, and a
word into its sign and its name.

Of assignments not all have a map and a line: if a number is assigned that is not registered, both
are refused for the first such number.

Entries are assigned from left to right. So whatever entries are listed for registered names, each
name ends up with the value that is listed last for it, which a search from the right finds at
once.
-/

import ChronoSat.Proofs.Assignment.Spelling
import ChronoSat.Proofs.Formula.Residue
import ChronoSat.Proofs.Infix.RoundTrip

namespace ChronoSat

variable {registry : Registry} {assignment : Assignment}

/-! ## Looking up what is written -/

/-- A literal's text is one word. -/
theorem Registry.Spellable.unbroken (spellable : registry.Spellable) {literal : Literal}
    (inside : literal.var ≤ registry.size) :
    Text.Unbroken Text.blankBreak (registry.spellingOf literal) := by
  have known := Registry.name?_eq_some_iff.mp
    (Assignment.name?_eq_some_nameOf ⟨literal.var_pos, inside⟩)
  have valid := spellable _ (List.mem_of_getElem? known.2)
  obtain ⟨nonempty, within⟩ := Infix.unbroken_spell valid literal.polarity
  refine ⟨nonempty, fun character member => ?_⟩
  have token := within character member
  unfold Infix.tokenBreak at token
  split_ifs at token with _ _ blank
  rw [Text.blankBreak, if_neg blank]

/-- A literal's text is looked up as the literal. -/
theorem Registry.Spellable.lookUp_spellingOf (spellable : registry.Spellable)
    (distinct : registry.names.Nodup) {literal : Literal} (inside : literal.var ≤ registry.size) :
    registry.lookUp (registry.spellingOf literal) = .ok literal := by
  have known := List.mem_of_getElem? (Registry.name?_eq_some_iff.mp
    (Assignment.name?_eq_some_nameOf ⟨literal.var_pos, inside⟩)).2
  rw [Registry.lookUp, Registry.spellingOf, Literal.split?_spell (spellable _ known)]
  dsimp only
  rw [if_pos known, Formula.literalFor_nameOf distinct inside]

/-- The words of an assignment's line are looked up as the literals that it makes true. -/
theorem Formula.exists_modelLine {formula : Cnf} (distinct : formula.registry.names.Nodup)
    (spellable : formula.registry.Spellable) {literals : List Literal}
    (read : assignment.toLiterals = .ok literals) (within : assignment.Within formula.numVars) :
    ∃ line, formula.modelLine assignment = .ok line ∧
      line = " ".intercalate (Text.words line) ∧
      (Text.words line).mapM formula.registry.lookUp = .ok literals := by
  have inside (literal : Literal) (member : literal ∈ literals) :
      literal.var ≤ formula.registry.size :=
    (within _ _ ((Assignment.mem_toLiterals read).mp member)).2
  have words : Text.words (" ".intercalate (literals.map formula.registry.spellingOf)) =
      literals.map formula.registry.spellingOf := by
    refine Text.words_eq_iff.mpr (Text.isWords_intercalate fun word member => ?_)
    obtain ⟨literal, there, rfl⟩ := List.mem_map.mp member
    exact spellable.unbroken (inside literal there)
  refine ⟨_, modelLine_eq_ok read within, by rw [words], ?_⟩
  rw [words, Outcomes.mapM_eq_ok_iff, List.forall₂_map_left_iff, List.forall₂_same]
  exact fun literal member => spellable.lookUp_spellingOf distinct (inside literal member)

/-! ## Maps from names to values -/

/-- The value that is listed last for a name. -/
def lastValue (entries : List (String × Bool)) (name : String) : Option Bool :=
  entries.reverse.lookup name

theorem lastValue_concat (entries : List (String × Bool)) (name : String) (value : Bool) :
    lastValue (entries ++ [(name, value)]) =
      Function.update (lastValue entries) name (some value) := by
  funext other
  rw [lastValue, List.reverse_append, List.reverse_singleton, List.singleton_append,
    List.lookup_cons]
  by_cases same : other = name
  · subst same
    simp
  · rw [Function.update_of_ne same, beq_false_of_ne same]
    rfl

theorem mem_of_lastValue {entries : List (String × Bool)} {name : String} {value : Bool}
    (listed : lastValue entries name = some value) : (name, value) ∈ entries := by
  obtain ⟨later, earlier, split, _⟩ := List.lookup_eq_some_iff.mp listed
  rw [← List.mem_reverse, split]
  simp

/-- The entries of a map from names to values, in the order of the names. -/
structure Lists (entries : List (String × Bool)) (values : String → Option Bool) : Prop where
  ascending : entries.Pairwise fun earlier later => earlier.1 < later.1
  mem_iff : ∀ name value, (name, value) ∈ entries ↔ values name = some value

/-- In a map there is one value for a name, so it does not matter from where it is looked for. -/
theorem Lists.lastValue_eq {entries : List (String × Bool)} {values : String → Option Bool}
    (lists : Lists entries values) : lastValue entries = values := by
  funext name
  refine Option.ext fun value => ?_
  rw [← lists.mem_iff]
  refine ⟨mem_of_lastValue, fun member => ?_⟩
  obtain ⟨before, after, rfl⟩ := List.append_of_mem member
  have later := (List.pairwise_cons.mp (List.pairwise_append.mp lists.ascending).2.1).1
  refine List.lookup_eq_some_iff.mpr ⟨after.reverse, before.reverse, by simp, ?_⟩
  intro entry inside
  exact bne_iff_ne.mpr (String.ne_of_lt (later entry (List.mem_reverse.mp inside)))

namespace Assignment

/-! ## Reading by name -/

/-- The value of a name's number. -/
def valueOf? (assignment : Assignment) (registry : Registry) (name : String) : Option Bool :=
  (registry.id? name).bind assignment.value?

theorem valueOf?_eq_some_iff (distinct : registry.names.Nodup) {name : String} {value : Bool} :
    assignment.valueOf? registry name = some value ↔
      ∃ var, registry.name? var = some name ∧ assignment.value? var = some value := by
  simp only [valueOf?, Option.bind_eq_some_iff, Registry.id?_eq_some_iff_name? distinct]

theorem length_pairs (assignment : Assignment) :
    assignment.pairs.length = assignment.numAssigned := by
  have slots : assignment.slots.zipIdx.map Prod.fst = assignment.slots := by simp
  rw [pairs, List.length_filterMap_eq_countP, numAssigned]
  conv_rhs => rw [← slots, List.countP_map]
  simp [Function.comp_def]

/-- Numbers with a name each have a name of their own. -/
theorem Within.pairwise_entries (within : assignment.Within registry.size)
    (distinct : registry.names.Nodup) :
    (assignment.pairs.map (entryOf registry)).Pairwise fun earlier later =>
      earlier.1 ≠ later.1 := by
  rw [List.pairwise_map]
  refine assignment.pairwise_pairs.imp_of_mem fun {earlier later} front back before same => ?_
  have number {pair : Nat × Bool} (member : pair ∈ assignment.pairs) :
      registry.idFor (nameOf registry pair.1) = pair.1 :=
    Formula.idFor_nameOf distinct (within _ _ (mem_pairs.mp member))
  have equal : earlier.1 = later.1 := by
    rw [← number front, ← number back]
    exact congrArg registry.idFor same
  omega

/-- An assignment to registered numbers is read as the map of the names' values. -/
theorem Within.exists_toNamed_lists (within : assignment.Within registry.size)
    (distinct : registry.names.Nodup) :
    ∃ named, assignment.toNamed registry = .ok named ∧
      named.length = assignment.numAssigned ∧ Lists named (assignment.valueOf? registry) := by
  obtain ⟨named, read, entries, ascending⟩ := within.exists_toNamed
  have apart : named.Pairwise fun earlier later => earlier.1 ≠ later.1 :=
    (entries.pairwise_iff fun different same => different same.symm).mpr
      (within.pairwise_entries distinct)
  refine ⟨named, read, ?_, ?_, fun name value => ?_⟩
  · rw [entries.length_eq, List.length_map, length_pairs]
  · exact (ascending.and apart).imp fun ⟨below, different⟩ => Std.lt_of_le_of_ne below different
  · rw [entries.mem_iff, within.mem_entries, valueOf?_eq_some_iff distinct]

theorem exists_namedPair_iff {pair : Nat × Bool} :
    (∃ entry, namedPair registry pair = .ok entry) ↔ registry.contains pair.1 = true := by
  rw [Registry.contains_iff, ← Registry.exists_name?_iff, namedPair]
  cases registry.name? pair.1 <;> simp

theorem exists_modelWord_iff {literal : Literal} :
    (∃ word, modelWord registry literal = .ok word) ↔ registry.contains literal.var = true := by
  rw [Registry.contains_iff, ← Registry.exists_name?_iff, modelWord, Registry.render]
  cases registry.name? literal.var <;> simp

/-- If a number is assigned that is not registered, the map and the line are refused for the first
such number. -/
theorem InRange.exists_refused {formula : Cnf} (inRange : assignment.InRange)
    (beyond : ∃ var value, assignment.value? var = some value ∧
      formula.registry.contains var = false) :
    ∃ literal : Literal, assignment.value? literal.var = some literal.polarity ∧
      formula.registry.contains literal.var = false ∧
      (∀ var value, assignment.value? var = some value → var < literal.var →
        formula.registry.contains var = true) ∧
      assignment.toNamed formula.registry = .error (.unregisteredId literal.var) ∧
      formula.modelLine assignment = .error (.error (.unregisteredId literal.toInt)) := by
  obtain ⟨literals, read⟩ := exists_toLiterals inRange
  have literalOf {var : Nat} {value : Bool} (said : assignment.value? var = some value) :
      ⟨var, value, (inRange var value said).1⟩ ∈ literals := (mem_toLiterals read).mpr said
  have search : (literals.find? fun literal => !formula.registry.contains literal.var).isSome := by
    obtain ⟨var, value, said, unknown⟩ := beyond
    exact List.find?_isSome.mpr ⟨_, literalOf said, by simp [unknown]⟩
  obtain ⟨literal, found⟩ := Option.isSome_iff_exists.mp search
  obtain ⟨refused, before, after, split, earlier⟩ := List.find?_eq_some_iff_append.mp found
  have unknown : formula.registry.contains literal.var = false := by simpa using refused
  have nameless := Registry.name?_eq_none_iff.mpr unknown
  have front (other : Literal) (member : other ∈ before) :
      formula.registry.contains other.var = true := by simpa using earlier other member
  refine ⟨literal, (mem_toLiterals read).mp (by simp [split]), unknown, ?_, ?_, ?_⟩
  · intro var value said below
    have member := literalOf said
    have ascending := pairwise_toLiterals read
    rw [split] at member ascending
    rcases List.mem_append.mp member with inFront | behind
    · exact front _ inFront
    · -- What stands behind the literal has a larger number.
      rcases List.mem_cons.mp behind with same | inBack
      · exact absurd below (same ▸ Nat.lt_irrefl _)
      · have above := (List.pairwise_cons.mp (List.pairwise_append.mp ascending).2.1).1 _ inBack
        exact absurd below (Nat.lt_asymm above)
  · have pairs := map_toLiterals read
    rw [split, List.map_append, List.map_cons] at pairs
    have stopped : assignment.pairs.mapM (namedPair formula.registry) =
        .error (.unregisteredId literal.var) := by
      refine Outcomes.mapM_eq_error_iff.mpr ⟨_, _, _, pairs.symm, ?_, by rw [namedPair, nameless]⟩
      intro pair member
      obtain ⟨other, inFront, rfl⟩ := List.mem_map.mp member
      exact exists_namedPair_iff.mpr (front other inFront)
    rw [toNamed, stopped]
    rfl
  · have stopped : literals.mapM (modelWord formula.registry) =
        .error (.error (.unregisteredId literal.toInt)) :=
      Outcomes.mapM_eq_error_iff.mpr ⟨before, literal, after, split,
        fun other member => exists_modelWord_iff.mpr (front other member),
        by rw [modelWord, Registry.render, nameless]⟩
    rw [Formula.modelLine, read]
    dsimp only
    rw [stopped]
    rfl

/-! ## Assigning by name -/

theorem within_through (registry : Registry) (values : String → Option Bool) :
    (through registry values).Within registry.size := by
  intro var value said
  rw [value?_through_eq_bind] at said
  obtain ⟨name, named, _⟩ := Option.bind_eq_some_iff.mp said
  exact Registry.exists_name?_iff.mp ⟨name, named⟩

/-- A name that the values are given for is read with its value. -/
theorem valueOf?_through {values : String → Option Bool}
    (known : ∀ name value, values name = some value → name ∈ registry.names) :
    (through registry values).valueOf? registry = values := by
  funext name
  by_cases registered : name ∈ registry.names
  · rw [valueOf?, Registry.id?_eq_some_iff.mpr ⟨registered, rfl⟩, Option.bind_some,
      value?_through values (Registry.name?_idFor registered)]
  · rw [valueOf?, Registry.id?_eq_none_iff.mpr registered, Option.bind_none]
    exact (Option.eq_none_iff_forall_ne_some.mpr fun value given =>
      registered (known name value given)).symm

/-- The values of the names say what the assignment says. -/
theorem Within.value?_through_valueOf? (within : assignment.Within registry.size)
    (distinct : registry.names.Nodup) :
    (through registry (assignment.valueOf? registry)).value? = assignment.value? := by
  funext var
  rw [value?_through_eq_bind]
  cases named : registry.name? var with
  | some name =>
      rw [Option.bind_some, valueOf?, (Registry.id?_eq_some_iff_name? distinct).mpr named,
        Option.bind_some]
  | none =>
      refine (Option.eq_none_iff_forall_ne_some.mpr fun value said => ?_).symm
      obtain ⟨name, found⟩ := Registry.exists_name?_iff.mpr (within var value said)
      simp [named] at found

theorem assign_through (distinct : registry.names.Nodup) {name : String}
    (known : name ∈ registry.names) (values : String → Option Bool) (value : Bool) :
    (through registry values).assign (registry.idFor name) value =
      through registry (Function.update values name (some value)) := by
  have number := Registry.name?_idFor known
  have inside := Registry.exists_name?_iff.mp ⟨name, number⟩
  have room (given : String → Option Bool) : (through registry given).room = registry.size + 1 := by
    simp [Assignment.room, through, Registry.size]
  apply eq_of_value?_eq
  · rw [assign, room_setSlot_of_lt _ (by rw [room]; omega), room, room]
  · funext var
    rw [value?_assign, value?_through_eq_bind]
    by_cases same : var = registry.idFor name
    · rw [same, Function.update_self, number, Option.bind_some, Function.update_self]
    · rw [Function.update_of_ne same, value?_through_eq_bind]
      cases named : registry.name? var with
      | none => rfl
      | some other =>
          have different : other ≠ name := fun equal =>
            same (Registry.idFor_of_name? distinct (equal ▸ named)).symm
          rw [Option.bind_some, Option.bind_some, Function.update_of_ne different]

/-- Entries for registered names give each name the value that is listed last for it. -/
theorem ofNamed_eq_ok (distinct : registry.names.Nodup) {entries : List (String × Bool)}
    (known : ∀ entry ∈ entries, entry.1 ∈ registry.names) :
    ofNamed registry entries = .ok (through registry (lastValue entries)) := by
  induction entries using List.reverseRecOn with
  | nil =>
      have nothing : lastValue [] = fun _ => none := rfl
      rw [nothing, through, List.map_const']
      rfl
  | append_singleton entries entry ih =>
      have last := known entry (List.mem_append_right _ (List.mem_singleton_self entry))
      have others := ih fun other member => known other (List.mem_append_left _ member)
      rw [ofNamed] at others ⊢
      have assigned : assignNamed registry (through registry (lastValue entries)) entry =
          .ok (through registry (lastValue (entries ++ [entry]))) := by
        rw [assignNamed, Registry.id?_eq_some_iff.mpr ⟨last, rfl⟩]
        exact congrArg Except.ok
          ((assign_through distinct last _ _).trans (by rw [lastValue_concat]))
      rw [List.foldlM_append, others]
      refine Outcomes.bind_eq_ok.mpr ⟨_, rfl, ?_⟩
      rw [List.foldlM_cons, assigned]
      rfl

/-- An entry for a name that is not registered is refused, and the first such entry is reported. -/
theorem exists_ofNamed_eq_error (distinct : registry.names.Nodup)
    {entries : List (String × Bool)} (beyond : ∃ entry ∈ entries, entry.1 ∉ registry.names) :
    ∃ before entry after, entries = before ++ entry :: after ∧
      (∀ earlier ∈ before, earlier.1 ∈ registry.names) ∧ entry.1 ∉ registry.names ∧
      ofNamed registry entries = .error (.unknownVariable entry.1) := by
  have search : (entries.find? fun entry => entry.1 ∉ registry.names).isSome := by
    obtain ⟨entry, member, unknown⟩ := beyond
    exact List.find?_isSome.mpr ⟨entry, member, decide_eq_true unknown⟩
  obtain ⟨entry, found⟩ := Option.isSome_iff_exists.mp search
  obtain ⟨refused, before, after, rfl, earlier⟩ := List.find?_eq_some_iff_append.mp found
  have unknown := of_decide_eq_true refused
  have front (other : String × Bool) (member : other ∈ before) : other.1 ∈ registry.names := by
    simpa using earlier other member
  refine ⟨before, entry, after, rfl, front, unknown, ?_⟩
  have taken := ofNamed_eq_ok distinct front
  rw [ofNamed] at taken ⊢
  rw [List.foldlM_append, taken]
  show List.foldlM (assignNamed registry) _ (entry :: after) = _
  rw [List.foldlM_cons, assignNamed, Registry.id?_eq_none_iff.mpr unknown]
  rfl

/-! ## The views together -/

/-- The views of an assignment determine each other. If all assigned numbers are registered, the
assignment is read as a map with an entry for each of them, and the entries assign the same values
again. The assigned numbers make literals in ascending order, and these are what the words of the
line are looked up as. If a number is assigned that is not registered, the map and the line are
refused for the first such number. And entries for names can be assigned if all names are
registered, which is read as the map of the values listed last. Otherwise the first entry is
refused whose name is not registered. -/
theorem views_determine {formula : Cnf} (obtained : Obtainable formula) :
    (∀ assignment : Assignment, assignment.InRange →
      ((∀ var value, assignment.value? var = some value →
          formula.registry.contains var = true) →
        ∃ named again literals line,
          assignment.toNamed formula.registry = .ok named ∧
          named.length = assignment.numAssigned ∧
          Lists named (assignment.valueOf? formula.registry) ∧
          ofNamed formula.registry named = .ok again ∧
          again.value? = assignment.value? ∧
          assignment.toLiterals = .ok literals ∧
          (literals.Pairwise fun earlier later => earlier.var < later.var) ∧
          formula.modelLine assignment = .ok line ∧
          line = " ".intercalate (Text.words line) ∧
          (Text.words line).mapM formula.registry.lookUp = .ok literals) ∧
      ((∃ var value, assignment.value? var = some value ∧
          formula.registry.contains var = false) →
        ∃ literal : Literal, assignment.value? literal.var = some literal.polarity ∧
          formula.registry.contains literal.var = false ∧
          (∀ var value, assignment.value? var = some value → var < literal.var →
            formula.registry.contains var = true) ∧
          assignment.toNamed formula.registry = .error (.unregisteredId literal.var) ∧
          formula.modelLine assignment = .error (.error (.unregisteredId literal.toInt)))) ∧
    ∀ entries : List (String × Bool),
      ((∀ entry ∈ entries, entry.1 ∈ formula.registry.names) →
        ∃ assignment named, ofNamed formula.registry entries = .ok assignment ∧
          assignment.toNamed formula.registry = .ok named ∧ Lists named (lastValue entries)) ∧
      ((∃ entry ∈ entries, entry.1 ∉ formula.registry.names) →
        ∃ before entry after, entries = before ++ entry :: after ∧
          (∀ earlier ∈ before, earlier.1 ∈ formula.registry.names) ∧
          entry.1 ∉ formula.registry.names ∧
          ofNamed formula.registry entries = .error (.unknownVariable entry.1)) := by
  have distinct := obtained.wellFormed.names_nodup
  refine ⟨fun assignment inRange => ⟨fun registered => ?_, inRange.exists_refused⟩,
    fun entries => ⟨fun known => ?_, exists_ofNamed_eq_error distinct⟩⟩
  · have within : assignment.Within formula.registry.size := fun var value said =>
      Registry.contains_iff.mp (registered var value said)
    obtain ⟨named, read, length, lists⟩ := within.exists_toNamed_lists distinct
    obtain ⟨literals, made⟩ := exists_toLiterals inRange
    obtain ⟨line, written, spaced, found⟩ :=
      Formula.exists_modelLine distinct obtained.spellable made within
    have known (entry : String × Bool) (member : entry ∈ named) :
        entry.1 ∈ formula.registry.names := by
      obtain ⟨var, found, _⟩ := Option.bind_eq_some_iff.mp ((lists.mem_iff _ _).mp member)
      exact (Registry.id?_eq_some_iff.mp found).1
    have again := ofNamed_eq_ok distinct known
    rw [lists.lastValue_eq] at again
    exact ⟨named, _, literals, line, read, length, lists, again,
      within.value?_through_valueOf? distinct, made, pairwise_toLiterals made, written, spaced,
      found⟩
  · obtain ⟨named, read, _, lists⟩ :=
      (within_through formula.registry (lastValue entries)).exists_toNamed_lists distinct
    rw [valueOf?_through fun name value listed => known _ (mem_of_lastValue listed)] at lists
    exact ⟨_, named, ofNamed_eq_ok distinct known, read, lists⟩

/-- The map has the order of the names and the line that of the numbers. A number without a name
spoils both, and of two values for a name the later one counts. -/
theorem views_determine_twoLiterals :
    let formula : Cnf := .ofNamed [[("b", true), ("a", false)]]
    let model : Assignment := ⟨[none, some false, some true, none]⟩
    let stray : Assignment := ⟨[none, some false, none, some false]⟩
    (∃ named again literals, model.toNamed formula.registry = .ok named ∧ named.length = 2 ∧
      ("a", true) ∈ named ∧ ofNamed formula.registry named = .ok again ∧
      again.value? = model.value? ∧ model.toLiterals = .ok literals ∧
      formula.modelLine model = .ok "¬b a" ∧
      (Text.words "¬b a").mapM formula.registry.lookUp = .ok literals) ∧
    stray.toNamed formula.registry = .error (.unregisteredId 3) ∧
    ∃ assignment named,
      ofNamed formula.registry [("a", true), ("b", true), ("a", false)] = .ok assignment ∧
        assignment.toNamed formula.registry = .ok named ∧ ("a", false) ∈ named := by
  intro formula model stray
  obtain ⟨ofNumbers, ofNames⟩ := views_determine Formula.gathered_twoLiterals.obtainable
  have registered : ∀ pair ∈ model.pairs, formula.registry.contains pair.1 = true := by decide
  obtain ⟨named, again, literals, line, read, length, lists, assigned, same, made, _, written, _,
    found⟩ := (ofNumbers model (by decide)).1 fun var value said =>
      registered (var, value) (mem_pairs.mpr said)
  have text : formula.modelLine model = .ok "¬b a" := by decide
  obtain rfl := Except.ok.inj (written.symm.trans text)
  obtain ⟨literal, said, unknown, _, refused, _⟩ :=
    (ofNumbers stray (by decide)).2 ⟨3, false, by decide, by decide⟩
  have nameless : ∀ pair ∈ stray.pairs, formula.registry.contains pair.1 = false → pair.1 = 3 := by
    decide
  have third : literal.var = 3 := nameless (_, literal.polarity) (mem_pairs.mpr said) unknown
  rw [third] at refused
  obtain ⟨assignment, last, taken, view, ends⟩ :=
    (ofNames [("a", true), ("b", true), ("a", false)]).1 (by decide)
  exact ⟨⟨named, again, literals, read, length, (lists.mem_iff _ _).mpr (by decide), assigned, same,
    made, text, found⟩, refused, assignment, last, taken, view, (ends.mem_iff _ _).mpr (by decide)⟩

end Assignment

end ChronoSat
