/-
# Searches under other numbers

Renumbering the variables of a formula makes no difference to a search. Two searches by value
on formulas that are the same but for their numbers stay side by side: at every node the clauses
correspond, and a variable that occurs in the formula has the value that its counterpart has. What
a node tests does not depend on numbers, units and proposals correspond, and making corresponding
literals true leads to corresponding nodes. All other variables keep the value that they had to
begin with, in whatever number they are registered.

So the two searches count the same, draw the same and give models that correspond. Solvers that
follow a policy of the library end as the search by value does, with any nesting that is enough,
and there is one that is enough for both. The two-clause policy asks for the order of the numbers
to be kept. Writing a formula to a clause file and reading it back renumbers the variables as they
occur, which in general does not keep the order.
-/

import ChronoSat.Proofs.Branching.Renaming
import ChronoSat.Proofs.Dimacs.RoundTrip
import ChronoSat.Proofs.Search.Refinement
import ChronoSat.Proofs.Search.Verdict

namespace ChronoSat

open List Relator

variable {σ : Type} {vars : Set Nat} {rename : Nat → Nat}

/-- Renumbering that keeps variables apart and makes variables of them. -/
structure Renumbering (vars : Set Nat) (rename : Nat → Nat) : Prop where
  apart : Set.InjOn rename vars
  inRange : ∀ var ∈ vars, 0 < var ∧ var ≤ Literal.maxVar
  imageInRange : ∀ var ∈ vars, 0 < rename var ∧ rename var ≤ Literal.maxVar

/-- Choices that correspond make literals true that correspond. -/
theorem Renumbering.exists_literals (renumbering : Renumbering vars rename) {choice image : Choice}
    (same : choice.Renamed vars rename image) :
    ∃ literal imageLiteral : Literal, literal.choice = choice ∧ imageLiteral.choice = image ∧
      literal.Renamed vars rename imageLiteral := by
  obtain ⟨inside, image_eq⟩ := same.renames
  have positive := (renumbering.inRange _ inside).1
  have imagePositive := (renumbering.imageInRange _ inside).1
  rw [← image_eq] at imagePositive
  exact ⟨⟨choice.var, choice.value, positive⟩, ⟨image.var, image.value, imagePositive⟩, rfl, rfl,
    same.renames, same.value_eq⟩

/-- Values under either numbering: the renamed variables have the same ones, and the others those
that they had to begin with. -/
structure Assignment.Renamed (vars : Set Nat) (rename : Nat → Nat) (start imageStart : Assignment)
    (values imageValues : Assignment) : Prop where
  value?_eq : ∀ var ∈ vars, imageValues.value? (rename var) = values.value? var
  others : ∀ var ∉ vars, values.value? var = start.value? var
  imageOthers : ∀ var ∉ rename '' vars, imageValues.value? var = imageStart.value? var

theorem Assignment.Renamed.assign {start imageStart values imageValues : Assignment}
    (same : Assignment.Renamed vars rename start imageStart values imageValues)
    (apart : Set.InjOn rename vars) {choice image : Choice}
    (choices : choice.Renamed vars rename image) :
    Assignment.Renamed vars rename start imageStart (values.assign choice.var choice.value)
      (imageValues.assign image.var image.value) := by
  obtain ⟨inside, image_eq⟩ := choices.renames
  rw [choices.value_eq, image_eq]
  constructor
  · intro var member
    rw [value?_assign, value?_assign]
    by_cases here : var = choice.var
    · rw [here, Function.update_self, Function.update_self]
    · rw [Function.update_of_ne here, Function.update_of_ne fun equal =>
        here (apart member inside equal), same.value?_eq var member]
  · intro var outside
    have other : var ≠ choice.var := fun here => outside (here ▸ inside)
    rw [value?_assign, Function.update_of_ne other, same.others var outside]
  · intro var outside
    have other : var ≠ rename choice.var := fun here => outside ⟨_, inside, here.symm⟩
    rw [value?_assign, Function.update_of_ne other, same.imageOthers var outside]

namespace Search

variable {start imageStart values imageValues : Assignment} {formula image : Cnf}
  {notes imageNotes : Notes σ}

/-! ## Nodes and endings -/

/-- Nodes of two searches that are the same but for the numbers of their variables. -/
structure NodesAlike (vars : Set Nat) (rename : Nat → Nat) (start imageStart : Assignment)
    (formula : Cnf) (values : Assignment) (image : Cnf) (imageValues : Assignment) : Prop where
  clauses : Clauses.Renamed vars rename (formula.clauses.map Clause.literals)
    (image.clauses.map Clause.literals)
  values : Assignment.Renamed vars rename start imageStart values imageValues
  registered : formula.remaining.Registered
  imageRegistered : image.remaining.Registered

/-- Two searches remember and count the same. -/
structure NotesAlike (notes imageNotes : Notes σ) : Prop where
  memory_eq : imageNotes.memory = notes.memory
  stats_eq : imageNotes.stats = notes.stats

/-- Two searches answer alike: with models that correspond, or with the same if there is none. -/
inductive AnswersAlike (vars : Set Nat) (rename : Nat → Nat) (start imageStart : Assignment) :
    Except Failure (Option Assignment) → Except Failure (Option Assignment) → Prop
  | model {model imageModel : Assignment}
      (values : Assignment.Renamed vars rename start imageStart model imageModel) :
      AnswersAlike vars rename start imageStart (.ok (some model)) (.ok (some imageModel))
  | noModel : AnswersAlike vars rename start imageStart (.ok none) (.ok none)
  | failure (failure : Failure) :
      AnswersAlike vars rename start imageStart (.error failure) (.error failure)

/-- Two searches end alike. -/
structure EndsAlike (vars : Set Nat) (rename : Nat → Nat) (start imageStart : Assignment)
    (ended imageEnded : Except Failure (Option Assignment) × Notes σ) : Prop where
  answers : AnswersAlike vars rename start imageStart ended.1 imageEnded.1
  notes : NotesAlike ended.2 imageEnded.2

theorem NotesAlike.count (same : NotesAlike notes imageNotes) (change : Stats → Stats) :
    NotesAlike (notes.count change) (imageNotes.count change) :=
  ⟨same.memory_eq, congrArg change same.stats_eq⟩

theorem NotesAlike.ask (same : NotesAlike notes imageNotes) (query imageQuery : Query)
    (memory : σ) : NotesAlike (notes.ask query memory) (imageNotes.ask imageQuery memory) :=
  ⟨rfl, same.stats_eq⟩

namespace NodesAlike

theorem isEmpty_iff
    (nodes : NodesAlike vars rename start imageStart formula values image imageValues) :
    formula.clauses.isEmpty = true ↔ image.clauses.isEmpty = true := by
  have sizes := Forall₂.length_eq nodes.clauses
  rw [List.length_map, List.length_map] at sizes
  rw [List.isEmpty_iff_length_eq_zero, List.isEmpty_iff_length_eq_zero, sizes]

theorem hasEmptyClause_iff (apart : Set.InjOn rename vars)
    (nodes : NodesAlike vars rename start imageStart formula values image imageValues) :
    formula.hasEmptyClause = true ↔ image.hasEmptyClause = true := by
  rw [formula.hasEmptyClause_iff, image.hasEmptyClause_iff, nodes.clauses.nil_mem_iff apart]

theorem firstUnit
    (nodes : NodesAlike vars rename start imageStart formula values image imageValues) :
    Option.Rel (Literal.Renamed vars rename) formula.firstUnit image.firstUnit := by
  rw [Formula.firstUnit_eq_findSome?, Formula.firstUnit_eq_findSome?]
  exact nodes.clauses.firstUnit

theorem registered_of_reduce {reduced : Cnf} {literal : Literal}
    (registered : formula.remaining.Registered) (names : reduced.registry = formula.registry)
    (clauses : reduced.clauses.map Clause.literals =
      Clauses.reduced literal (formula.clauses.map Clause.literals)) :
    reduced.remaining.Registered := by
  intro var occurs
  rw [Formula.remaining, clauses] at occurs
  rw [Formula.remaining, Formula.numVars, names]
  exact registered var (Clauses.mem_vars_of_mem_reduced occurs)

/-- Corresponding choices lead to corresponding nodes. -/
theorem exists_reduce (renumbering : Renumbering vars rename)
    (nodes : NodesAlike vars rename start imageStart formula values image imageValues)
    {choice imageChoice : Choice} (choices : choice.Renamed vars rename imageChoice) :
    ∃ reduced imageReduced, formula.reduce choice.alone = .ok reduced ∧
      image.reduce imageChoice.alone = .ok imageReduced ∧
      NodesAlike vars rename start imageStart
        reduced (values.assign choice.var choice.value)
        imageReduced (imageValues.assign imageChoice.var imageChoice.value) := by
  have assigned := nodes.values.assign renumbering.apart choices
  obtain ⟨literal, imageLiteral, rfl, rfl, literals⟩ := renumbering.exists_literals choices
  obtain ⟨inside, image_eq⟩ := literals.renames
  have imageInRange := (renumbering.imageInRange _ inside).2
  rw [← image_eq] at imageInRange
  obtain ⟨reduced, applied, names, clauses⟩ :=
    formula.exists_reduce_alone (renumbering.inRange _ inside).2
  obtain ⟨imageReduced, imageApplied, imageNames, imageClauses⟩ :=
    image.exists_reduce_alone imageInRange
  refine ⟨reduced, imageReduced, applied, imageApplied, ?_, assigned,
    registered_of_reduce nodes.registered names clauses,
    registered_of_reduce nodes.imageRegistered imageNames imageClauses⟩
  rw [clauses, imageClauses]
  exact nodes.clauses.reduced renumbering.apart literals

end NodesAlike

/-! ## Subtrees -/

section Subtree

variable {below imageBelow : Cnf → Assignment → Notes σ →
  Except Failure (Option Assignment) × Notes σ}

/-- Two searches go on alike below nodes that are alike. -/
def BelowAlike (vars : Set Nat) (rename : Nat → Nat) (start imageStart : Assignment)
    (below imageBelow : Cnf → Assignment → Notes σ →
      Except Failure (Option Assignment) × Notes σ) : Prop :=
  ∀ {formula image : Cnf} {values imageValues : Assignment} {notes imageNotes : Notes σ},
    NodesAlike vars rename start imageStart formula values image imageValues →
      NotesAlike notes imageNotes →
        EndsAlike vars rename start imageStart (below formula values notes)
          (imageBelow image imageValues imageNotes)

theorem tryByValue_alike (renumbering : Renumbering vars rename)
    (goesOn : BelowAlike vars rename start imageStart below imageBelow)
    (nodes : NodesAlike vars rename start imageStart formula values image imageValues)
    (same : NotesAlike notes imageNotes) {choice imageChoice : Choice}
    (choices : choice.Renamed vars rename imageChoice) :
    EndsAlike vars rename start imageStart (tryByValue below formula values choice notes)
      (tryByValue imageBelow image imageValues imageChoice imageNotes) := by
  obtain ⟨reduced, imageReduced, applied, imageApplied, next⟩ :=
    nodes.exists_reduce renumbering choices
  have ended := goesOn next
    (same.count fun stats => { stats with decisions := stats.decisions + 1 })
  unfold tryByValue
  simp only [applied, imageApplied]
  generalize below reduced _ _ = result at ended ⊢
  generalize imageBelow imageReduced _ _ = imageResult at ended ⊢
  obtain ⟨answer, after⟩ := result
  obtain ⟨imageAnswer, imageAfter⟩ := imageResult
  obtain ⟨answers, notesAfter⟩ := ended
  cases answers with
  | model values => exact ⟨.model values, notesAfter⟩
  | noModel =>
      exact ⟨.noModel,
        notesAfter.count fun stats => { stats with backtracks := stats.backtracks + 1 }⟩
  | failure failure => exact ⟨.failure failure, notesAfter⟩

theorem branchByValue_alike (renumbering : Renumbering vars rename)
    (goesOn : BelowAlike vars rename start imageStart below imageBelow)
    (nodes : NodesAlike vars rename start imageStart formula values image imageValues)
    (same : NotesAlike notes imageNotes) {choice imageChoice : Choice}
    (choices : choice.Renamed vars rename imageChoice) :
    EndsAlike vars rename start imageStart (branchByValue below formula values choice notes)
      (branchByValue imageBelow image imageValues imageChoice imageNotes) := by
  have tried := tryByValue_alike renumbering goesOn nodes same choices
  unfold branchByValue
  generalize tryByValue below formula values choice notes = result at tried ⊢
  generalize tryByValue imageBelow image imageValues imageChoice imageNotes = imageResult
    at tried ⊢
  obtain ⟨answer, after⟩ := result
  obtain ⟨imageAnswer, imageAfter⟩ := imageResult
  obtain ⟨answers, notesAfter⟩ := tried
  cases answers with
  | model values => exact ⟨.model values, notesAfter⟩
  | noModel => exact tryByValue_alike renumbering goesOn nodes notesAfter choices.opposite
  | failure failure => exact ⟨.failure failure, notesAfter⟩

/-- Searches by value that are alike at their root end alike. -/
theorem byValue_alike (renumbering : Renumbering vars rename) {policy : Policy σ}
    (equivariant : policy.Equivariant vars rename) (frames depth : Nat) :
    BelowAlike vars rename start imageStart (byValue policy frames depth)
      (byValue policy frames depth) := by
  -- The nesting left is the same on both sides, so one induction takes both searches down.
  induction frames generalizing depth with
  | zero => exact fun _ same => ⟨.failure _, same⟩
  | succ frames ih =>
      intro formula image values imageValues notes imageNotes nodes same
      have solved_iff := nodes.isEmpty_iff
      have empty_iff := nodes.hasEmptyClause_iff renumbering.apart
      by_cases solved : formula.clauses.isEmpty = true
      · rw [byValue, byValue, if_pos solved, if_pos (solved_iff.mp solved)]
        exact ⟨.model nodes.values, same⟩
      by_cases empty : formula.hasEmptyClause = true
      · rw [byValue, byValue, if_neg solved, if_neg (mt solved_iff.mpr solved), if_pos empty,
          if_pos (empty_iff.mp empty)]
        exact ⟨.noModel,
          same.count fun stats => { stats with conflicts := stats.conflicts + 1 }⟩
      have imageUnsolved := mt solved_iff.mpr solved
      have imageNonempty := mt empty_iff.mpr empty
      have units := nodes.firstUnit
      generalize unit : formula.firstUnit = found at units
      generalize imageUnit : image.firstUnit = imageFound at units
      cases units with
      | some literals =>
          obtain ⟨reduced, imageReduced, applied, imageApplied, next⟩ :=
            nodes.exists_reduce renumbering literals.choice
          rw [byValue_forced solved empty unit applied,
            byValue_forced imageUnsolved imageNonempty imageUnit imageApplied]
          exact ih depth next (same.count _)
      | none =>
          obtain ⟨answer, imageAnswer, later, proposed, imageProposed, choices⟩ :=
            equivariant notes.memory nodes.registered nodes.imageRegistered nodes.clauses
          rw [← same.memory_eq] at imageProposed
          cases choices with
          | none =>
              rw [byValue_silent solved empty unit proposed,
                byValue_silent imageUnsolved imageNonempty imageUnit imageProposed]
              exact ⟨.failure _, same.ask _ _ later⟩
          | some choices =>
              rw [byValue_decided solved empty unit proposed,
                byValue_decided imageUnsolved imageNonempty imageUnit imageProposed]
              exact branchByValue_alike renumbering (ih (depth + 1)) nodes
                ((same.ask _ _ later).count _) choices

end Subtree

end Search

/-! ## Formulas -/

namespace Formula

/-- A formula has the clauses of another one in order, with the variables renumbered by a function
that keeps those apart that occur. Either registry may hold further variables. -/
structure RenumberedBy (formula : Cnf) (rename : Nat → Nat) (image : Cnf) : Prop where
  apart : Set.InjOn rename {var | var ∈ formula.occurrences}
  clauses : Forall₂ (fun clause other =>
      Forall₂ (fun literal imageLiteral => imageLiteral.var = rename literal.var ∧
        imageLiteral.polarity = literal.polarity) clause.literals other.literals)
    formula.clauses image.clauses

variable {formula image : Cnf}

theorem RenumberedBy.renamed (renumbered : formula.RenumberedBy rename image) :
    Clauses.Renamed {var | var ∈ formula.occurrences} rename
      (formula.clauses.map Clause.literals) (image.clauses.map Clause.literals) := by
  rw [Clauses.Renamed, forall₂_map_left_iff, forall₂_map_right_iff]
  have among := (forall₂_and_left _ _).mpr ⟨fun clause member => member, renumbered.clauses⟩
  refine among.imp fun clause other ⟨there, literals⟩ => ?_
  have amongLiterals := (forall₂_and_left _ _).mpr ⟨fun literal inside => inside, literals⟩
  refine amongLiterals.imp fun literal imageLiteral ⟨inside, var_eq, polarity_eq⟩ => ?_
  exact ⟨⟨mem_occurrences.mpr ⟨clause, there, literal, inside, rfl⟩, var_eq⟩, polarity_eq⟩

theorem mem_vars_iff_mem_occurrences {var : Nat} :
    var ∈ Clauses.vars (formula.clauses.map Clause.literals) ↔ var ∈ formula.occurrences := by
  rw [Clauses.mem_vars, mem_occurrences]
  simp only [List.mem_map, exists_exists_and_eq_and]

/-- The counterpart of a variable that occurs does so, too. -/
theorem RenumberedBy.rename_mem_occurrences (renumbered : formula.RenumberedBy rename image)
    {var : Nat} (occurs : var ∈ formula.occurrences) : rename var ∈ image.occurrences := by
  obtain ⟨imageVar, imageOccurs, _, rfl⟩ :=
    renumbered.renamed.exists_mem_vars (mem_vars_iff_mem_occurrences.mpr occurs)
  exact mem_vars_iff_mem_occurrences.mp imageOccurs

theorem inRange_of_mem_occurrences (obtained : Obtainable formula) {var : Nat}
    (occurs : var ∈ formula.occurrences) : 0 < var ∧ var ≤ formula.numVars :=
  obtained.wellFormed.of_mem_vars (mem_vars_iff_mem_occurrences.mpr occurs)

theorem RenumberedBy.renumbering (renumbered : formula.RenumberedBy rename image)
    (obtained : Obtainable formula) (imageObtained : Obtainable image) :
    Renumbering {var | var ∈ formula.occurrences} rename where
  apart := renumbered.apart
  inRange _ occurs :=
    have ⟨positive, le⟩ := inRange_of_mem_occurrences obtained occurs
    ⟨positive, le.trans obtained.numVars_le⟩
  imageInRange _ occurs :=
    have ⟨positive, le⟩ :=
      inRange_of_mem_occurrences imageObtained (renumbered.rename_mem_occurrences occurs)
    ⟨positive, le.trans imageObtained.numVars_le⟩

/-- Searches begin at nodes that are alike: all registered variables are true at first. -/
theorem RenumberedBy.nodesAlike (renumbered : formula.RenumberedBy rename image)
    (obtained : Obtainable formula) (imageObtained : Obtainable image) :
    Search.NodesAlike {var | var ∈ formula.occurrences} rename
      (.uniform formula.numVars true) (.uniform image.numVars true)
      formula (.uniform formula.numVars true) image (.uniform image.numVars true) where
  clauses := renumbered.renamed
  values :=
    { value?_eq := by
        intro var occurs
        have imageOccurs := renumbered.rename_mem_occurrences occurs
        rw [Assignment.value?_uniform, Assignment.value?_uniform,
          if_pos (inRange_of_mem_occurrences obtained occurs),
          if_pos (inRange_of_mem_occurrences imageObtained imageOccurs)]
      others := fun _ _ => rfl
      imageOthers := fun _ _ => rfl }
  registered _ occurs := (obtained.wellFormed.of_mem_vars occurs).2
  imageRegistered _ occurs := (imageObtained.wellFormed.of_mem_vars occurs).2

/-- Naming the variables after their numbers renumbers a formula. -/
theorem renumberedBy_renumbered (formula : Cnf) :
    formula.RenumberedBy (fun var => formula.renumbered.registry.idFor (numberedName var))
      formula.renumbered where
  apart := by
    have named {var : Nat} (occurs : var ∈ formula.occurrences) :
        formula.renumbered.registry.name?
          (formula.renumbered.registry.idFor (numberedName var)) = some (numberedName var) := by
      apply Registry.name?_idFor
      rw [names_renumbered]
      exact List.mem_map_of_mem (List.mem_eraseDups.mpr occurs)
    intro first inFirst second inSecond same
    have names := named inFirst
    rw [show formula.renumbered.registry.idFor _ = _ from same, named inSecond] at names
    exact (numberedName_inj.mp (Option.some.inj names)).symm
  clauses := by
    rw [clauses_renumbered, forall₂_map_right_iff, forall₂_same]
    intro clause _
    rw [forall₂_map_right_iff, forall₂_same]
    exact fun _ _ => ⟨rfl, rfl⟩

end Formula

/-! ## Solvers -/

/-- Two formulas are answered alike: both have no model, or the models agree about every variable
that occurs and its counterpart, and all variables that do not occur are true. -/
inductive AnsweredAlike (rename : Nat → Nat) (formula image : Cnf) :
    Except Failure (Option Assignment) → Except Failure (Option Assignment) → Prop
  | satisfiable {model imageModel : Assignment}
      (same : ∀ var ∈ formula.occurrences, ∃ value, model.value? var = some value ∧
        imageModel.value? (rename var) = some value)
      (unused : ∀ var ∈ formula.registry.vars, var ∉ formula.occurrences →
        model.value? var = some true)
      (imageUnused : ∀ var ∈ image.registry.vars, var ∉ image.occurrences →
        imageModel.value? var = some true) :
      AnsweredAlike rename formula image (.ok (some model)) (.ok (some imageModel))
  | unsatisfiable : AnsweredAlike rename formula image (.ok none) (.ok none)

/-- A solver does the same on two formulas, by whatever clocks: it answers alike, counts the same,
and remembers the same afterwards. -/
structure Solver.SolvesAlike (solver : Solver σ) (rename : Nat → Nat) (formula image : Cnf) :
    Prop where
  answers : ∀ clock imageClock, AnsweredAlike rename formula image
    (solver.solve clock formula).1.answer (solver.solve imageClock image).1.answer
  stats_eq : ∀ clock imageClock,
    (solver.solve imageClock image).1.stats = (solver.solve clock formula).1.stats
  memory_eq : ∀ clock imageClock,
    (solver.solve imageClock image).2.memory = (solver.solve clock formula).2.memory

namespace Solver

variable {γ : Type} [RandomSource γ] {formula image : Cnf} {selection : Selection}

/-- A solver of the library searches as is done by value with any nesting from its own on. -/
theorem searchesAs_of_frames_le (obtained : Obtainable formula) (selection : Selection)
    (source : γ) (idleProposals : Nat) {frames : Nat}
    (enough : (builtIn selection source idleProposals).frames formula ≤ frames) :
    (builtIn selection source idleProposals).SearchesAs formula
      (formula.searchByValue selection.policy source frames) := by
  have registers := (selection.honours (γ := γ)).proposesRegistered formula.numVars
  have alike : (builtIn selection source idleProposals).SearchesAs formula _ :=
    searchesAs_searchByValue obtained registers trivial idleProposals
  have inside : (formula.searchByValue selection.policy source
      ((builtIn selection source idleProposals).frames formula)).1 ≠
        .error (.fault .nestingLimit) := by
    intro limit
    have settles := settles_builtIn obtained selection source idleProposals .still
    rw [(alike.answer_eq .still).trans limit] at settles
    cases settles
  rw [searchByValue_of_le obtained registers trivial inside enough]
  exact alike

/-- Models with values that correspond answer alike, if one of them has a value for every
variable. -/
theorem answeredAlike_of_renamed (renumbered : formula.RenumberedBy rename image)
    (obtained : Obtainable formula) {model imageModel : Assignment}
    (covers : model.Covers formula.numVars)
    (values : Assignment.Renamed {var | var ∈ formula.occurrences} rename
      (.uniform formula.numVars true) (.uniform image.numVars true) model imageModel) :
    AnsweredAlike rename formula image (.ok (some model)) (.ok (some imageModel)) := by
  refine .satisfiable (fun var occurs => ?_) (fun var registered unused => ?_)
    (fun var registered unused => ?_)
  · obtain ⟨value, said⟩ := Option.isSome_iff_exists.mp
      ((covers var).mpr (Formula.inRange_of_mem_occurrences obtained occurs))
    exact ⟨value, said, (values.value?_eq var occurs).trans said⟩
  · have inRange : 0 < var ∧ var ≤ formula.numVars := Formula.mem_vars_iff.mp registered
    rw [values.others var unused, Assignment.value?_uniform, if_pos inRange]
  · have outside : var ∉ rename '' {var | var ∈ formula.occurrences} := by
      rintro ⟨original, occurs, rfl⟩
      exact unused (renumbered.rename_mem_occurrences occurs)
    have inRange : 0 < var ∧ var ≤ image.numVars := Formula.mem_vars_iff.mp registered
    rw [values.imageOthers var outside, Assignment.value?_uniform, if_pos inRange]

theorem solvesAlike_builtIn (obtained : Obtainable formula) (imageObtained : Obtainable image)
    (renumbered : formula.RenumberedBy rename image) (source : γ)
    (idleProposals : Nat) (ascending : selection = .twoClause →
      StrictMonoOn rename {var | var ∈ formula.occurrences}) :
    (builtIn selection source idleProposals).SolvesAlike rename formula image := by
  let solver := builtIn selection source idleProposals
  -- The nesting of a solver depends on how many variables are registered, and that may differ.
  -- Any nesting from its own on will do, so both formulas are searched with the larger one.
  let frames := max (solver.frames formula) (solver.frames image)
  have alike := searchesAs_of_frames_le obtained selection source idleProposals
    (Nat.le_max_left (solver.frames formula) (solver.frames image))
  have imageAlike := searchesAs_of_frames_le imageObtained selection source idleProposals
    (Nat.le_max_right (solver.frames formula) (solver.frames image))
  have ended := Search.byValue_alike (renumbered.renumbering obtained imageObtained)
    (selection.equivariant renumbered.apart ascending) frames 0
    (renumbered.nodesAlike obtained imageObtained)
    (⟨rfl, rfl⟩ : Search.NotesAlike ⟨source, .zero, []⟩ ⟨source, .zero, []⟩)
  constructor <;> intro clock imageClock
  · have settles := settles_builtIn obtained selection source idleProposals clock
    rw [alike.answer_eq] at settles ⊢
    rw [imageAlike.answer_eq]
    have answers := ended.answers
    change Search.AnswersAlike _ _ _ _ (formula.searchByValue _ _ _).1
      (image.searchByValue _ _ _).1 at answers
    generalize (formula.searchByValue selection.policy source frames).1 = answer at *
    generalize (image.searchByValue selection.policy source frames).1 = imageAnswer at *
    cases answers with
    | model values =>
        cases settles with
        | satisfiable _ covers _ => exact answeredAlike_of_renamed renumbered obtained covers values
    | noModel => exact .unsatisfiable
    | failure failure => cases settles
  · rw [alike.stats_eq, imageAlike.stats_eq]
    exact ended.notes.stats_eq
  · rw [alike.memory_eq, imageAlike.memory_eq]
    exact ended.notes.memory_eq

/-- Solving does not depend on numbers. Let one formula have the clauses of another one with the
variables renumbered, whatever else is registered. A solver of the library with no budget of time
gives the same verdict on both, with models that agree about every variable that occurs and its
counterpart, counts the same and leaves the same source of draws. Variables that do not occur are
true in the models. The two-clause policy does so if the order of the numbers is kept, the others in
any case. In particular it makes no difference to the others if a formula is written to a clause
file and read back. -/
theorem solvesAlike_renumbered :
    (∀ (formula image : Cnf) (rename : Nat → Nat), Obtainable formula → Obtainable image →
      formula.RenumberedBy rename image →
        ∀ {γ : Type} [RandomSource γ] (selection : Selection) (source : γ) (idleProposals : Nat),
          (selection = .twoClause → StrictMonoOn rename {var | var ∈ formula.occurrences}) →
            (builtIn selection source idleProposals).SolvesAlike rename formula image) ∧
    ∀ formula : Cnf, Obtainable formula → formula.size ≤ Text.unsignedLimit →
      ∃ text reread warnings rename, Dimacs.write formula .zero = .ok text ∧
        Dimacs.read text.toUTF8.toList = ⟨.ok reread, warnings⟩ ∧
        formula.RenumberedBy rename reread ∧
        ∀ {γ : Type} [RandomSource γ] (selection : Selection) (source : γ) (idleProposals : Nat),
          selection ≠ .twoClause →
            (builtIn selection source idleProposals).SolvesAlike rename formula reread := by
  constructor
  · intro formula image rename obtained imageObtained renumbered γ _ selection source
      idleProposals ascending
    exact solvesAlike_builtIn obtained imageObtained renumbered source idleProposals ascending
  · intro formula obtained sizeFits
    have wellFormed := obtained.wellFormed
    have renumbered := formula.renumberedBy_renumbered
    obtain ⟨text, ended, written⟩ := Dimacs.exists_write_eq_fileText wellFormed .zero
    have read := Dimacs.read_toUTF8 wellFormed obtained.numVars_le sizeFits written
    have reread : Obtainable formula.renumbered :=
      .readDimacs (congrArg Dimacs.Reading.result read)
    refine ⟨text, formula.renumbered, _, _, ended, read, renumbered, ?_⟩
    intro γ _ selection source idleProposals other
    exact solvesAlike_builtIn obtained reread renumbered source idleProposals
      fun twoClause => absurd twoClause other

/-- One clause of two literals over the names of a registry. -/
def pairOver (names : Registry) : Cnf :=
  ⟨[⟨.disj, [names.literalFor "b" true, names.literalFor "a" false]⟩], names⟩

/-- The numbers are shifted by a name that an assignment has left without an occurrence. -/
theorem obtainable_pairOver_shifted : Obtainable (pairOver ⟨["c", "b", "a"]⟩) := by
  have whole : Obtainable (.ofNamed [[("c", true)], [("b", true), ("a", false)]] : Cnf) :=
    .addClauses [["c"], ["b", "¬a"]] .empty rfl
  exact @Obtainable.reduce _ _ ⟨[none, some true]⟩ whole (by decide)

/-- The numbers change places around such a name. -/
theorem obtainable_pairOver_swapped : Obtainable (pairOver ⟨["a", "c", "b"]⟩) := by
  have whole :
      Obtainable (.ofNamed [[("a", true), ("c", true)], [("b", true), ("a", false)]] : Cnf) :=
    .addClauses [["a", "c"], ["b", "¬a"]] .empty rfl
  exact @Obtainable.reduce _ _ ⟨[none, none, some true]⟩ whole (by decide)

/-- The two-clause policy goes along with the numbers that are shifted, the modal policy with
those that change places, and the random policy with a clause file. -/
theorem solvesAlike_renumbered_pairOver :
    let source : Generator := ⟨7⟩
    (builtIn .twoClause source 0).SolvesAlike (· + 1) (pairOver ⟨["b", "a"]⟩)
        (pairOver ⟨["c", "b", "a"]⟩) ∧
      (builtIn .modal source 0).SolvesAlike (5 - 2 * ·) (pairOver ⟨["b", "a"]⟩)
        (pairOver ⟨["a", "c", "b"]⟩) ∧
      ∃ text reread rename, Dimacs.write (pairOver ⟨["a", "c", "b"]⟩) .zero = .ok text ∧
        (Dimacs.read text.toUTF8.toList).result = .ok reread ∧
        (builtIn .random source 0).SolvesAlike rename (pairOver ⟨["a", "c", "b"]⟩) reread := by
  intro source
  have obtained : Obtainable (pairOver ⟨["b", "a"]⟩) := Formula.gathered_twoLiterals.obtainable
  have occurring : (pairOver ⟨["b", "a"]⟩).occurrences = [1, 2] := by decide
  have shifted : (pairOver ⟨["b", "a"]⟩).RenumberedBy (· + 1) (pairOver ⟨["c", "b", "a"]⟩) :=
    ⟨fun _ _ _ _ => Nat.add_right_cancel, by decide⟩
  have swapped :
      (pairOver ⟨["b", "a"]⟩).RenumberedBy (5 - 2 * ·) (pairOver ⟨["a", "c", "b"]⟩) := by
    refine ⟨?_, by decide⟩
    intro first inFirst second inSecond same
    simp only [Set.mem_ofPred_eq, occurring, List.mem_cons, List.not_mem_nil, or_false]
      at inFirst inSecond same
    omega
  obtain ⟨text, reread, _, rename, ended, read, _, alike⟩ :=
    solvesAlike_renumbered.2 _ obtainable_pairOver_swapped (by decide)
  refine ⟨?_, ?_, text, reread, rename, ended, congrArg Dimacs.Reading.result read,
    alike .random source 0 nofun⟩
  · exact solvesAlike_renumbered.1 _ _ _ obtained obtainable_pairOver_shifted shifted .twoClause
      source 0 fun _ _ _ _ _ less => Nat.add_lt_add_right less 1
  · exact solvesAlike_renumbered.1 _ _ _ obtained obtainable_pairOver_swapped swapped .modal
      source 0 nofun

end Solver

end ChronoSat
