/-
# How a sweep counts

The formulas of a sweep come from one source of draws and the policies draw from another,
so which formulas are looked at is settled before any of them is solved. A row of draws
(`Draws`) says which they are. What is counted of each formula depends on the formula
alone: a solver without a budget of time decides it, whatever it remembers from the
formulas before and whatever the clock shows, and a solver with no time at all decides
nothing. So the counts are sums over the formulas, with whatever policy and from whatever
seed they were solved, and checking the models changes nothing because they are right.

Two rows are given room before the first formula is drawn, and a formula needs room for
its pool of variables. There are counts for which there cannot be that much room, and then
a sweep fails that would have nothing else in its way. So it does where a formula is drawn
with more names than there are numbers.
-/

import ChronoSat.CommandLine.Sweeping
import ChronoSat.Proofs.Formula.Sampling
import ChronoSat.Proofs.Instruments
import ChronoSat.Proofs.Search.Verdict
import Mathlib.Algebra.BigOperators.Group.List.Basic
import Mathlib.Algebra.Group.Prod
import Mathlib.Algebra.GroupWithZero.Nat

namespace ChronoSat

namespace Sweep

variable {World γ : Type}

/-! ## Draws -/

section Draws

variable [RandomSource γ]

/-- Formulas of one shape drawn one after the other, with the source before and after. -/
inductive Draws (numVars clauses width : Nat) : γ → List Cnf → γ → Prop
  | done {source : γ} : Draws numVars clauses width source [] source
  | more {source next last : γ} {formula : Cnf} {formulas : List Cnf}
      (first : Formula.random numVars clauses width source = (.ok formula, next))
      (rest : Draws numVars clauses width next formulas last) :
      Draws numVars clauses width source (formula :: formulas) last

/-- The next draw is a fault, as there are more names in it than there are numbers. -/
def Overdrawn (numVars clauses width : Nat) (source : γ) : Prop :=
  ∃ next, Formula.random numVars clauses width source = (.error (.fault .registryFull), next)

/-- So many formulas are drawn, or fewer and then a draw is a fault. -/
theorem exists_draws {numVars width : Nat} (enough : width ≤ numVars) {count : Nat}
    (room : 0 < count → numVars * Sampling.numberWidth ≤ Room.limit) (clauses : Nat)
    (source : γ) :
    ∃ formulas after, Draws numVars clauses width source formulas after ∧
      (formulas.length = count ∨ formulas.length < count ∧ Literal.maxVar < numVars ∧
        Overdrawn numVars clauses width after) := by
  induction count generalizing source with
  | zero => exact ⟨[], source, .done, .inl rfl⟩
  | succ count ih =>
      have large := room (Nat.succ_pos count)
      rcases Formula.random_ok_or_full enough large clauses source with
        ⟨formula, next, first⟩ | ⟨exceeds, overdrawn⟩
      · obtain ⟨formulas, after, rest, ends⟩ := ih (fun _ => large) next
        refine ⟨formula :: formulas, after, .more first rest, ?_⟩
        exact ends.imp (congrArg (· + 1)) (And.imp_left Nat.succ_lt_succ)
      · exact ⟨[], source, .done, .inr ⟨Nat.succ_pos count, exceeds, overdrawn⟩⟩

end Draws

/-! ## Counts -/

/-- How many formulas were satisfiable, how many were decided, and how many ran out of
time. -/
def Tally.counts (tally : Tally) : Nat × Nat × Nat :=
  (tally.satisfiable, tally.calls.length, tally.timeouts)

open Classical in
/-- How many of some formulas are satisfiable. -/
noncomputable def numSatisfiable (formulas : List Cnf) : Nat :=
  formulas.countP fun formula => formula.Satisfiable

open Classical in
/-- What a formula adds to the counts when it is decided. -/
noncomputable def decidedCounts (formula : Cnf) : Nat × Nat × Nat :=
  (if formula.Satisfiable then 1 else 0, 1, 0)

/-- What a formula adds to the counts when there is no time for it. -/
def expiredCounts : Nat × Nat × Nat := (0, 0, 1)

theorem sum_decidedCounts (formulas : List Cnf) :
    (formulas.map decidedCounts).sum = (numSatisfiable formulas, formulas.length, 0) := by
  induction formulas with
  | nil => rfl
  | cons formula rest ih =>
      rw [List.map_cons, List.sum_cons, ih, decidedCounts, numSatisfiable, numSatisfiable,
        List.countP_cons]
      by_cases satisfiable : formula.Satisfiable <;> simp [satisfiable, Nat.add_comm]

theorem sum_expiredCounts (formulas : List Cnf) :
    (formulas.map fun _ => expiredCounts).sum = (0, 0, formulas.length) := by
  induction formulas with
  | nil => rfl
  | cons formula rest ih =>
      rw [List.map_cons, List.sum_cons, ih]
      simp [expiredCounts, Nat.add_comm]

/-- A settled formula is counted as what it is. No check of a model fails. -/
theorem Tally.exists_take_of_settles {formula : Cnf} {report : Report}
    (settles : Settles formula report.answer) (verify : Bool) (elapsed : Measured)
    (tally : Tally) :
    ∃ taken, tally.take verify formula report elapsed = .ok taken ∧
      taken.counts = tally.counts + decidedCounts formula := by
  unfold take
  generalize report.answer = answer at settles
  cases settles with
  | satisfiable holds _ _ =>
      have satisfiable : formula.Satisfiable := ⟨_, holds⟩
      refine ⟨tally.noteDecided true report.stats.decisions elapsed, ?_, ?_⟩
      · simp [holds]
      · simp [counts, noteDecided, decidedCounts, satisfiable]
  | unsatisfiable refuted =>
      refine ⟨tally.noteDecided false report.stats.decisions elapsed, rfl, ?_⟩
      simp [counts, noteDecided, decidedCounts, refuted]

/-! ## Weights -/

/-- Solvers that take in each of some formulas for what it weighs, whatever they remember and
whatever the clock shows. -/
structure Weighs (verify : Bool) (weight : Cnf → Nat × Nat × Nat) (formulas : List Cnf)
    (kept : Solver γ → Prop) : Prop where
  keeps : ∀ {solver}, kept solver → ∀ clock, ∀ formula ∈ formulas,
    kept (solver.solve clock formula).2
  takes : ∀ {solver}, kept solver → ∀ clock, ∀ formula ∈ formulas, ∀ elapsed tally, ∃ taken,
    Tally.take verify formula (solver.solve clock formula).1 elapsed tally = .ok taken ∧
      taken.counts = tally.counts + weight formula

theorem Weighs.tail {verify : Bool} {weight : Cnf → Nat × Nat × Nat} {formula : Cnf}
    {formulas : List Cnf} {kept : Solver γ → Prop}
    (weighs : Weighs verify weight (formula :: formulas) kept) :
    Weighs verify weight formulas kept where
  keeps isKept clock := fun other member =>
    weighs.keeps isKept clock other (List.mem_cons_of_mem _ member)
  takes isKept clock := fun other member =>
    weighs.takes isKept clock other (List.mem_cons_of_mem _ member)

/-- With no time at all no solver decides anything. -/
theorem weighs_expired (verify : Bool) (formulas : List Cnf) :
    Weighs verify (fun _ => expiredCounts) formulas fun solver : Solver γ =>
      solver.timeout = some .zero where
  keeps := by
    intro solver expired clock formula _
    rw [(Solver.solve_of_noTime expired clock formula).2]
    exact expired
  takes := by
    intro solver expired clock formula _ elapsed tally
    refine ⟨tally.noteTimeout, ?_, rfl⟩
    rw [Tally.take, (Solver.solve_of_noTime expired clock formula).1]
    rfl

variable [RandomSource γ]

/-- Without a budget of time the solvers of the library decide what they are given. -/
theorem weighs_builtIn (verify : Bool) {formulas : List Cnf}
    (obtained : ∀ formula ∈ formulas, Obtainable formula) (selection : Selection) :
    Weighs verify decidedCounts formulas fun solver : Solver γ =>
      ∃ source, solver = .builtIn selection source 0 where
  keeps := by
    rintro _ ⟨source, rfl⟩ clock formula _
    exact Solver.exists_solve_builtIn selection source 0 clock formula
  takes := by
    rintro _ ⟨source, rfl⟩ clock formula member elapsed tally
    have settles := Solver.settles_builtIn (obtained formula member) selection source 0 clock
    exact tally.exists_take_of_settles settles verify elapsed

/-! ## The loop -/

/-- What comes after a draw: the formula is solved by some clock, which takes some time, and
is taken in. -/
theorem exists_solveInstances_succ {instruments : Instruments (StateM World) γ}
    (faithful : instruments.Faithful) {plan : Plan} {source next : γ} {formula : Cnf}
    (first : Formula.random plan.numVars plan.clauses plan.width source = (.ok formula, next))
    (count : Nat) (solver : Solver γ) (tally : Tally) (world : World) :
    ∃ clock elapsed later,
      let report := (solver.solve clock formula).1
      let noted := tally.noteLog (report.log elapsed.durationText)
      solveInstances instruments plan (count + 1) solver tally source world =
        (match noted.take plan.verify formula report elapsed with
          | .error problem =>
            (pure ⟨.error problem, noted.log, next⟩ : StateM World (Result γ Tally))
          | .ok taken =>
            solveInstances instruments plan count (solver.solve clock formula).2 taken next)
          later := by
  let begun := instruments.now world
  let solved :=
    instruments.timed solver.timeout (fun clock => solver.solve clock formula) begun.2
  obtain ⟨clock, known⟩ := faithful.exists_clock solver.timeout
    (fun clock => solver.solve clock formula) begun.2
  let finished := instruments.now solved.2
  refine ⟨clock, Measured.between begun.1 finished.1, finished.2, ?_⟩
  rw [solveInstances, first, ← known]
  rfl

section Loop

variable {instruments : Instruments (StateM World) γ} {verify : Bool}
  {weight : Cnf → Nat × Nat × Nat} {formulas : List Cnf} {kept : Solver γ → Prop}
  {solver : Solver γ} {source after : γ}

/-- Once some formulas are drawn and solved, what remains to be done starts with their sum,
from where their draws have left the source. -/
theorem Draws.exists_solveInstances_eq {numVars clauses width : Nat}
    (draws : Draws numVars clauses width source formulas after)
    (faithful : instruments.Faithful) (weighs : Weighs verify weight formulas kept)
    (starts : kept solver) (count : Nat) (tally : Tally) (world : World) :
    let plan : Plan := ⟨numVars, clauses, width, verify⟩
    ∃ reached ended later,
      solveInstances instruments plan (formulas.length + count) solver tally source world =
          solveInstances instruments plan count reached ended after later ∧
        ended.counts = tally.counts + (formulas.map weight).sum := by
  intro plan
  induction draws generalizing solver tally world with
  | done => exact ⟨solver, tally, world, by rw [List.length_nil, Nat.zero_add], rfl⟩
  | @more source next last formula formulas first rest ih =>
      have drawn : Formula.random plan.numVars plan.clauses plan.width source = _ := first
      obtain ⟨clock, elapsed, between, step⟩ :=
        exists_solveInstances_succ faithful drawn (formulas.length + count) solver tally world
      let log := (solver.solve clock formula).1.log elapsed.durationText
      obtain ⟨taken, taking, counted⟩ :=
        weighs.takes starts clock formula List.mem_cons_self elapsed (tally.noteLog log)
      dsimp only at step
      rw [taking] at step
      have keeps := weighs.keeps starts clock formula List.mem_cons_self
      obtain ⟨reached, ended, later, loop, counts⟩ := ih weighs.tail keeps taken between
      refine ⟨reached, ended, later, ?_, ?_⟩
      · rw [List.length_cons, Nat.add_right_comm]
        exact step.trans loop
      · rw [counts, counted, List.map_cons, List.sum_cons, ← add_assoc]
        rfl

/-- With room for what is counted, a ratio leads to what its formulas lead to. -/
theorem solveRatio_eq {instances : Nat} (room : instances * entryWidth ≤ Room.limit)
    (numVars width : Nat) (ratio : Double) (world : World) :
    let plan : Plan := ⟨numVars, clauseCount ratio numVars, width, verify⟩
    let result := (solveInstances instruments plan instances solver .start source world).1
    (solveRatio instruments numVars width instances ratio verify solver source world).1 =
      ⟨result.outcome.map fun tally => tally.toRow ratio plan.clauses, result.log,
        result.source⟩ := by
  rw [solveRatio, Room.reserve_of_le room]
  rfl

/-- The row of a ratio holds the sum over the formulas that are drawn for it. -/
theorem Draws.exists_solveRatio_eq {numVars width : Nat} {ratio : Double}
    (draws : Draws numVars (clauseCount ratio numVars) width source formulas after)
    (room : formulas.length * entryWidth ≤ Room.limit) (faithful : instruments.Faithful)
    (weighs : Weighs verify weight formulas kept) (starts : kept solver) (world : World) :
    ∃ row log,
      (solveRatio instruments numVars width formulas.length ratio verify solver source world).1 =
          ⟨.ok row, log, after⟩ ∧
        row.clauses = clauseCount ratio numVars ∧
        (row.satisfiable, row.finished, row.timeouts) = (formulas.map weight).sum := by
  obtain ⟨_, ended, later, loop, counts⟩ :=
    draws.exists_solveInstances_eq faithful weighs starts 0 .start world
  refine ⟨ended.toRow ratio (clauseCount ratio numVars), ended.log, ?_, rfl,
    counts.trans (zero_add _)⟩
  rw [solveRatio_eq room]
  rw [Nat.add_zero] at loop
  dsimp only
  rw [loop]
  rfl

/-- If a draw is a fault, so is the ratio, whatever has been counted before. -/
theorem Draws.solveRatio_of_overdrawn {numVars width instances : Nat} {ratio : Double}
    (draws : Draws numVars (clauseCount ratio numVars) width source formulas after)
    (overdrawn : Overdrawn numVars (clauseCount ratio numVars) width after)
    (short : formulas.length < instances) (room : instances * entryWidth ≤ Room.limit)
    (faithful : instruments.Faithful) (weighs : Weighs verify weight formulas kept)
    (starts : kept solver) (world : World) :
    (solveRatio instruments numVars width instances ratio verify solver source world).1.outcome =
      .error (.failure (.fault .registryFull)) := by
  obtain ⟨count, rfl⟩ := Nat.exists_eq_add_of_lt short
  obtain ⟨_, ended, later, loop, _⟩ :=
    draws.exists_solveInstances_eq faithful weighs starts (count + 1) .start world
  obtain ⟨next, faulted⟩ := overdrawn
  rw [solveRatio_eq room]
  dsimp only
  rw [Nat.add_assoc, loop, solveInstances, faulted]
  rfl

end Loop

/-! ## One ratio -/

/-- Formulas that are drawn can be obtained. -/
theorem Draws.obtainable {numVars clauses width : Nat} {source after : γ} {formulas : List Cnf}
    (draws : Draws numVars clauses width source formulas after) :
    ∀ formula ∈ formulas, Obtainable formula := by
  induction draws with
  | done => exact nofun
  | more first _ ih => exact List.forall_mem_cons.mpr ⟨.random (congrArg Prod.fst first), ih⟩

/-- With fewer variables than a clause has literals, nothing is drawn. -/
theorem solveRatio_of_lt (instruments : Instruments (StateM World) γ) {numVars width : Nat}
    (tooFew : numVars < width) (instances : Nat) (ratio : Double) (verify : Bool)
    (solver : Solver γ) (source : γ) (world : World) :
    (∃ problem, (solveRatio instruments numVars width instances ratio verify solver source
      world).1.outcome = .error problem) ↔ 0 < instances := by
  have nothing := Formula.random_of_lt (clauseCount ratio numVars) source tooFew
  cases instances with
  | zero =>
      have room : Room.reserve 0 entryWidth = .ok () := rfl
      rw [solveRatio, room]
      exact ⟨nofun, nofun⟩
  | succ count =>
      refine ⟨fun _ => Nat.succ_pos count, fun _ => ?_⟩
      rw [solveRatio]
      cases Room.reserve (count + 1) entryWidth with
      | error fault => exact ⟨_, rfl⟩
      | ok _ =>
          refine ⟨.failure (.error (.tooFewVariables numVars width)), ?_⟩
          dsimp only
          rw [StateM.bind_apply, solveInstances, nothing]
          rfl

end Sweep

namespace CommandLine

open Sweep

variable {World γ : Type} [RandomSource γ]

/-- Once the solver is built a row is what its ratio leads to. -/
theorem sweepRatio_eq {instruments : Instruments (StateM World) γ} {common : CommonOptions}
    {config : SolverConfig} (valid : common.solverConfig = .ok config) (options : SweepOptions)
    (ratio : Double) (source : γ) (world : World) :
    ∃ fresh begun,
      let result := (solveRatio instruments options.numVars options.width options.instances ratio
        common.verify (config.build fresh) source begun).1
      (sweepRatio instruments options common ratio source world).1 =
        (result.outcome.mapError troubleOf, result.log, result.source) := by
  refine ⟨(instruments.freshSource world).1, (instruments.freshSource world).2, ?_⟩
  rw [sweepRatio, valid]
  rfl

section Ratio

variable {instruments : Instruments (StateM World) γ} {options : SweepOptions}
  {common : CommonOptions} {config : SolverConfig} {ratio : Double}
  {weight : Cnf → Nat × Nat × Nat} {formulas : List Cnf} {kept : Solver γ → Prop}
  {source after : γ}

theorem exists_row_of_weighs (faithful : instruments.Faithful)
    (valid : common.solverConfig = .ok config)
    (draws : Draws options.numVars (clauseCount ratio options.numVars) options.width source
      formulas after)
    (length : formulas.length = options.instances)
    (room : options.instances * entryWidth ≤ Room.limit)
    (weighs : Weighs common.verify weight formulas kept)
    (starts : ∀ fresh, kept (config.build fresh)) (world : World) :
    let ended := (sweepRatio instruments options common ratio source world).1
    ended.2.2 = after ∧ ∃ row, ended.1 = .ok row ∧
      row.clauses = clauseCount ratio options.numVars ∧
      (row.satisfiable, row.finished, row.timeouts) = (formulas.map weight).sum := by
  intro ended
  obtain ⟨fresh, begun, same⟩ := sweepRatio_eq valid options ratio source world
  rw [← length] at room same
  obtain ⟨row, log, solved, clauses, counts⟩ :=
    draws.exists_solveRatio_eq room faithful weighs (starts fresh) begun
  dsimp only at same
  rw [solved] at same
  have ends : ended = (.ok row, log, after) := same
  rw [ends]
  exact ⟨rfl, row, rfl, clauses, counts⟩

theorem sweepRatio_of_overdrawn (faithful : instruments.Faithful)
    (valid : common.solverConfig = .ok config)
    (draws : Draws options.numVars (clauseCount ratio options.numVars) options.width source
      formulas after)
    (overdrawn : Overdrawn options.numVars (clauseCount ratio options.numVars) options.width after)
    (short : formulas.length < options.instances)
    (room : options.instances * entryWidth ≤ Room.limit)
    (weighs : Weighs common.verify weight formulas kept)
    (starts : ∀ fresh, kept (config.build fresh)) (world : World) :
    (sweepRatio instruments options common ratio source world).1.1 =
      .error (.fault .registryFull) := by
  obtain ⟨fresh, begun, same⟩ := sweepRatio_eq valid options ratio source world
  have faulted :=
    draws.solveRatio_of_overdrawn overdrawn short room faithful weighs (starts fresh) begun
  dsimp only at same
  rw [same, faulted]
  rfl

end Ratio

/-- The counts of a sweep's row do not depend on how its formulas are solved. There are
formulas that are drawn from the source, one for each instance unless a draw is a fault, which
it can only be if there are more variables than numbers for them. With whatever policy, seed
and checks the same row comes of them: without a budget of time all of them are decided and as
many are satisfiable as there are satisfiable ones among them; with a budget that is nothing
all of them run out of time. Either way the source is left where the draws leave it. If a draw
is a fault, so is the sweep. This takes room for what is noted of each instance and for the
pool of variables. With too few variables for a clause a sweep fails exactly if there is an
instance. -/
theorem sweepRatio_counts {instruments : Instruments (StateM World) γ}
    (faithful : instruments.Faithful) (options : SweepOptions) (ratio : Double) (source : γ) :
    (options.width ≤ options.numVars →
      options.instances * entryWidth ≤ Room.limit →
      (0 < options.instances → options.numVars * Sampling.numberWidth ≤ Room.limit) →
      ∃ formulas after,
        Draws options.numVars (clauseCount ratio options.numVars) options.width source
          formulas after ∧
        (formulas.length = options.instances ∧
            (∀ (common : CommonOptions) (config : SolverConfig) (world : World),
              common.solverConfig = .ok config →
              let ended := (sweepRatio instruments options common ratio source world).1
              (config.timeout = none →
                ended.2.2 = after ∧ ∃ row, ended.1 = .ok row ∧
                  row.clauses = clauseCount ratio options.numVars ∧
                  row.satisfiable = numSatisfiable formulas ∧
                  row.finished = options.instances ∧ row.timeouts = 0) ∧
              (config.timeout = some .zero →
                ended.2.2 = after ∧ ∃ row, ended.1 = .ok row ∧
                  row.clauses = clauseCount ratio options.numVars ∧ row.satisfiable = 0 ∧
                  row.finished = 0 ∧ row.timeouts = options.instances)) ∨
          formulas.length < options.instances ∧ Literal.maxVar < options.numVars ∧
            Overdrawn options.numVars (clauseCount ratio options.numVars) options.width after ∧
            ∀ (common : CommonOptions) (config : SolverConfig) (world : World),
              common.solverConfig = .ok config →
              config.timeout = none ∨ config.timeout = some .zero →
              (sweepRatio instruments options common ratio source world).1.1 =
                .error (.fault .registryFull))) ∧
    (options.numVars < options.width →
      ∀ (common : CommonOptions) (config : SolverConfig) (world : World),
        common.solverConfig = .ok config →
        ((∃ trouble, (sweepRatio instruments options common ratio source world).1.1 =
          .error trouble) ↔ 0 < options.instances)) := by
  constructor
  · intro enough roomForCounts roomForPool
    obtain ⟨formulas, after, draws, ends⟩ :=
      exists_draws enough roomForPool (clauseCount ratio options.numVars) source
    refine ⟨formulas, after, draws, ends.imp ?_ ?_⟩
    · intro length
      refine ⟨length, fun common config world valid => ⟨fun unlimited => ?_, fun expired => ?_⟩⟩
      · have weighs :=
          weighs_builtIn (γ := γ) common.verify draws.obtainable config.selection
        obtain ⟨left, row, made, clauses, counts⟩ :=
          exists_row_of_weighs faithful valid draws length roomForCounts weighs
            (fun fresh => ⟨_, Solver.build_eq_builtIn unlimited fresh⟩) world
        rw [sum_decidedCounts, Prod.mk.injEq, Prod.mk.injEq, length] at counts
        exact ⟨left, row, made, clauses, counts⟩
      · have weighs := weighs_expired (γ := γ) common.verify formulas
        obtain ⟨left, row, made, clauses, counts⟩ :=
          exists_row_of_weighs faithful valid draws length roomForCounts weighs
            (fun _ => expired) world
        rw [sum_expiredCounts, Prod.mk.injEq, Prod.mk.injEq, length] at counts
        exact ⟨left, row, made, clauses, counts⟩
    · rintro ⟨short, exceeds, overdrawn⟩
      refine ⟨short, exceeds, overdrawn, fun common config world valid noWait => ?_⟩
      rcases noWait with unlimited | expired
      · exact sweepRatio_of_overdrawn faithful valid draws overdrawn short roomForCounts
          (weighs_builtIn common.verify draws.obtainable config.selection)
          (fun fresh => ⟨_, Solver.build_eq_builtIn unlimited fresh⟩) world
      · exact sweepRatio_of_overdrawn faithful valid draws overdrawn short roomForCounts
          (weighs_expired common.verify formulas) (fun _ => expired) world
  · intro tooFew common config world valid
    obtain ⟨fresh, begun, same⟩ := sweepRatio_eq valid options ratio source world
    have fails := solveRatio_of_lt instruments tooFew options.instances ratio
      common.verify (config.build fresh) source begun
    rw [same, ← fails]
    cases (solveRatio instruments options.numVars options.width options.instances ratio
      common.verify (config.build fresh) source begun).1.outcome with
    | ok row => exact ⟨nofun, nofun⟩
    | error problem => exact ⟨fun _ => ⟨problem, rfl⟩, fun _ => ⟨troubleOf problem, rfl⟩⟩

/-- One formula of two clauses, whatever solves it and whether there is time for it or not,
and none with too few variables. -/
theorem sweepRatio_counts_oneFormula :
    let common (selection : Selection) (seconds : Option Double) : CommonOptions :=
      ⟨false, true, true, false, selection, seconds, none⟩
    let source : Generator := ⟨3⟩
    let ended (options : SweepOptions) (selection : Selection) (seconds : Option Double) :=
      (sweepRatio (.none (StateM Unit) source .still) options (common selection seconds) (.ofNat 1)
        source ()).1
    let one : SweepOptions := ⟨2, 1, .zero, .zero, .zero, 1⟩
    let tooFew : SweepOptions := ⟨0, 1, .zero, .zero, .zero, 1⟩
    (∃ formulas after, Draws 2 2 1 source formulas after ∧ ∀ selection,
      ((ended one selection none).2.2 = after ∧
        ∃ row, (ended one selection none).1 = .ok row ∧
          row.satisfiable = numSatisfiable formulas ∧ row.finished = 1 ∧ row.timeouts = 0) ∧
      (ended one selection (some .zero)).2.2 = after ∧
        ∃ row, (ended one selection (some .zero)).1 = .ok row ∧
          row.satisfiable = 0 ∧ row.finished = 0 ∧ row.timeouts = 1) ∧
      ∀ selection, ∃ trouble, (ended tooFew selection none).1 = .error trouble := by
  intro common source ended one tooFew
  have faithful : (Instruments.none (StateM Unit) source .still).Faithful :=
    Instruments.faithful_none source .still
  have unlimited (selection : Selection) :
      (common selection none).solverConfig = .ok ⟨selection, none, none⟩ := rfl
  have expired (selection : Selection) :
      (common selection (some .zero)).solverConfig = .ok ⟨selection, some .zero, none⟩ := by
    have nothing : readBudget (some .zero) = .ok (some .zero) := by decide +kernel
    rw [CommonOptions.solverConfig, nothing]
    rfl
  have clauses : clauseCount (.ofNat 1) 2 = 2 := by decide +kernel
  obtain ⟨formulas, after, draws, ends⟩ :=
    (sweepRatio_counts faithful one (.ofNat 1) source).1 (by decide) (by decide) (by decide)
  have fails := (sweepRatio_counts faithful tooFew (.ofNat 1) source).2 (by decide)
  obtain ⟨_, counts⟩ := ends.resolve_right fun full => absurd full.2.1 (by decide)
  -- Without the name for it the run itself would be evaluated to see that it is the same one.
  have same (options : SweepOptions) (selection : Selection) (seconds : Option Double) :
      (sweepRatio (.none (StateM Unit) source .still) options (common selection seconds)
        (.ofNat 1) source ()).1 = ended options selection seconds := rfl
  refine ⟨⟨formulas, after, clauses ▸ draws, fun selection => ⟨?_, ?_⟩⟩, fun selection => ?_⟩
  · have decided := (counts _ _ () (unlimited selection)).1 rfl
    rw [same] at decided
    obtain ⟨left, row, made, _, tallied⟩ := decided
    exact ⟨left, row, made, tallied⟩
  · have undecided := (counts _ _ () (expired selection)).2 rfl
    rw [same] at undecided
    obtain ⟨left, row, made, _, tallied⟩ := undecided
    exact ⟨left, row, made, tallied⟩
  · rw [← same]
    exact (fails _ _ () (unlimited selection)).mpr Nat.one_pos

/-- There cannot be room for what is noted of so many instances, or for a pool of so many
variables, though nothing would be drawn from it. -/
theorem sweepRatio_noRoom :
    let source : Generator := ⟨1⟩
    let ended (options : SweepOptions) :=
      (sweepRatio (.none (StateM Unit) source .still) options .default .zero source ()).1
    CommonOptions.default.solverConfig = .ok ⟨.naive, none, none⟩ ∧
      (ended ⟨0, 0, .zero, .zero, .zero, 2 ^ 60⟩).1 = .error (.fault (.noRoom (2 ^ 60))) ∧
      (ended ⟨2 ^ 60, 0, .zero, .zero, .zero, 1⟩).1 = .error (.fault (.noRoom (2 ^ 60))) :=
  ⟨rfl, rfl, rfl⟩

end CommandLine

end ChronoSat
