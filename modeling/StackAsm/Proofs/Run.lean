import StackAsm.Machine.Run
import StackAsm.Proofs.Program
import StackAsm.Proofs.Step

set_option autoImplicit false

/-!
# Runs, step by step

What a run does is found by induction on its steps: each of them leaves a machine with the same
program, budget and sinks, and the run goes on from there until it comes to an end or fails. A run
may also never end.

## Main definitions

* `StackAsm.Machine.setup` — what stays the same whatever a machine executes.
* `StackAsm.Machine.Visits` — the machines that a run comes by.
* `StackAsm.Machine.Affords` — for how many steps a budget pays.
* `StackAsm.Machine.RunEnds` — the ways in which a run ends.
* `StackAsm.Machine.StaysWithin`, `StackAsm.Machine.OutgrowsAt` — whether the stacks of a run exceed
  a bound, and at which machine they do so first.

## Main results

* `StackAsm.Machine.Visits.exists_first_loss` — a property that a run loses is lost in a first step.
* `StackAsm.Machine.staysWithin_or_outgrowsAt` — stacks that exceed a bound do so a first time.
* `StackAsm.Machine.Visits.runFrom_add` — a run goes on from every machine that it comes to.
* `StackAsm.Machine.runEnds_of_runFrom`, `StackAsm.Machine.RunEnds.exists_runFrom` — how a run ends.
* `StackAsm.Machine.runFrom_eq_none_iff` — when a run is not over.
-/

namespace StackAsm

namespace Sink

/-- All that is written fits a sink without a limit. -/
lemma fits_of_unlimited {s : Sink} (unlimited : s.capacity = none) (bytes : Bytes) :
    s.fits bytes := by
  simp [fits, unlimited]

/-- A sink without a limit has all that is written to it. -/
lemma written_write_of_unlimited {s : Sink} (unlimited : s.capacity = none) (bytes : Bytes) :
    (s.write bytes).written.toList = s.written.toList ++ bytes := by
  rw [written_write, fitting_of_fits (fits_of_unlimited unlimited bytes)]

end Sink

namespace Machine

variable {m m' next n : Machine} {o : Outcome} {e : RuntimeError}

/-! ## What no instruction changes -/

/-- What two parts keep is kept by both, one behind the other. -/
lemma andThen_kept {α : Type} {f : Machine → α} {a : α} {g : Machine → Outcome}
    (first : f o.machine = a) (second : ∀ m : Machine, f m = a → f (g m).machine = a) :
    f (o.andThen g).machine = a := by
  cases o with
  | done m => exact second m first
  | failed e m => exact first

/-- What stays the same whatever a machine executes: its program, its budget and how many bytes its
sinks take. -/
def setup (m : Machine) : Program × Option Nat × Option Nat × Option Nat :=
  (m.code, m.budget, m.output.capacity, m.diagnostics.capacity)

/-- A write that succeeds changes the output alone. -/
lemma eq_of_write {bytes : Bytes} (done : m.write bytes = .done m') :
    m' = { m with output := m.output.write bytes } := by
  unfold write at done
  split at done
  · exact (Outcome.done.inj done).symm
  · cases done

/-- A write to the output keeps the setup. -/
@[simp] lemma setup_write (m : Machine) (bytes : Bytes) :
    (m.write bytes).machine.setup = m.setup := by
  unfold write
  split <;> rfl

/-- A report on the diagnostics keeps the setup. -/
@[simp] lemma setup_report (m : Machine) (bytes : Bytes) :
    (m.report bytes).machine.setup = m.setup := by
  unfold report
  split <;> rfl

/-- A branch keeps the setup. -/
@[simp] lemma setup_branch (m : Machine) (taken : Bool) (target : Address) (s : List Word) :
    (m.branch taken target s).machine.setup = m.setup := by
  unfold branch
  split <;> rfl

/-- An instruction keeps the setup, whether it succeeds or fails. -/
lemma setup_execute (m : Machine) (i : Instruction) (l : Location) :
    (m.execute i l).machine.setup = m.setup := by
  unfold execute
  split
  · rfl
  · split
    -- the opcodes with a test or a stream of their own; the others go on or fail at once
    case h_4 | h_10 | h_11 => split <;> rfl
    case h_6 | h_7 | h_8 | h_9 => exact setup_branch _ _ _ _
    case h_17 => exact andThen_kept (setup_report _ _) fun _ same => same
    case h_18 | h_19 => exact andThen_kept (setup_write _ _) fun _ same => same
    case h_20 =>
      unfold readInteger
      dsimp only
      split <;> rfl
    case h_21 =>
      unfold readByte
      split <;> rfl
    all_goals rfl

/-- A step keeps the setup, whether it succeeds or fails. -/
lemma setup_step (m : Machine) : m.step.machine.setup = m.setup := by
  unfold step
  split
  · exact setup_execute m _ _
  · rfl

/-- A step that succeeds keeps the setup. -/
lemma setup_of_step (h : m.step = .done m') : m'.setup = m.setup := by
  rw [← setup_step m, h]
  rfl

/-- A step keeps the program, whether it succeeds or fails. -/
lemma code_step (m : Machine) : m.step.machine.code = m.code := congrArg Prod.fst (setup_step m)

/-- A step that succeeds keeps the program. -/
lemma code_of_step (h : m.step = .done m') : m'.code = m.code :=
  congrArg Prod.fst (setup_of_step h)

/-- A step that succeeds keeps the budget. -/
lemma budget_of_step (h : m.step = .done m') : m'.budget = m.budget :=
  congrArg (fun setup => setup.2.1) (setup_of_step h)

/-- A machine at an instruction executes it. -/
lemma step_of_running (wf : m.code.WellFormed) (running : m.isRunning) :
    ∃ i l, m.instruction? = some i ∧ m.step = m.execute i l := by
  obtain ⟨i, instruction⟩ : ∃ i, m.instruction? = some i :=
    Option.isSome_iff_exists.1 (Program.isSome_instructionAt?_iff.2 running)
  obtain ⟨l, location⟩ : ∃ l, m.location? = some l :=
    Option.isSome_iff_exists.1 (wf.isSome_locationAt?_iff.2 running)
  exact ⟨i, l, instruction, step_eq_execute instruction location⟩

/-! ## Sinks without a limit -/

/-- A machine whose sinks take all that is written. -/
structure Unlimited (m : Machine) : Prop where
  /-- There is no limit to the output. -/
  output : m.output.capacity = none
  /-- There is no limit to the diagnostics. -/
  diagnostics : m.diagnostics.capacity = none

/-- A machine with the setup of one whose sinks take all has such sinks, too. -/
lemma Unlimited.of_setup (unlimited : m.Unlimited) (same : m'.setup = m.setup) :
    m'.Unlimited :=
  ⟨(congrArg (fun setup => setup.2.2.1) same).trans unlimited.output,
    (congrArg (fun setup => setup.2.2.2) same).trans unlimited.diagnostics⟩

/-- A write without a limit succeeds. -/
lemma write_of_unlimited {m : Machine} (unlimited : m.Unlimited) (bytes : Bytes) :
    m.write bytes = .done { m with output := m.output.write bytes } :=
  if_pos (Sink.fits_of_unlimited unlimited.output bytes)

/-- A report without a limit succeeds. -/
lemma report_of_unlimited {m : Machine} (unlimited : m.Unlimited) (bytes : Bytes) :
    m.report bytes = .done { m with diagnostics := m.diagnostics.write bytes } :=
  if_pos (Sink.fits_of_unlimited unlimited.diagnostics bytes)

/-! ## The machines of a run -/

/-- A run without a budget comes from one machine to another by `k` steps. -/
inductive Visits : (k : Nat) → Machine → Machine → Prop where
  /-- It takes no step. -/
  | start {m : Machine} : Visits 0 m m
  /-- It takes a step and then `k` more. -/
  | step {k : Nat} {m next n : Machine} (running : m.isRunning) (step : m.step = .done next)
    (more : Visits k next n) : Visits (k + 1) m n

/-- No stack of a run holds more than `size` values. -/
def StaysWithin (size : Nat) (m : Machine) : Prop :=
  ∀ k n, Visits k m n → n.stack.length ≤ size

/-- In a run that starts at `m`, the step at `before` is the first one that leaves more than `size`
values on the stack. -/
def OutgrowsAt (size : Nat) (m before : Machine) : Prop :=
  ∃ k, Visits k m before ∧ (∀ j ≤ k, ∀ n, Visits j m n → n.stack.length ≤ size) ∧
    before.isRunning ∧ ∃ after, before.step = .done after ∧ size < after.stack.length

/-- All machines of a run have the same setup. -/
lemma Visits.setup_eq {k : Nat} (visits : Visits k m n) : n.setup = m.setup := by
  induction visits with
  | start => rfl
  | step running step more ih => rw [ih, setup_of_step step]

/-- All machines of a run have the same program. -/
lemma Visits.code_eq {k : Nat} (visits : Visits k m n) : n.code = m.code :=
  congrArg Prod.fst visits.setup_eq

/-- The steps to a machine and those from it on are steps of one run. -/
lemma Visits.trans {k j : Nat} (visits : Visits k m n) (more : Visits j n next) :
    Visits (k + j) m next := by
  induction visits with
  | start =>
    rw [Nat.zero_add]
    exact more
  | step running step _ ih =>
    rw [Nat.add_right_comm]
    exact .step running step (ih more)

/-- A run has only one way to go. -/
lemma Visits.of_step {k : Nat} (visits : Visits (k + 1) m n) (step : m.step = .done next) :
    Visits k next n := by
  cases visits with
  | step running first more =>
    rw [step] at first
    cases first
    exact more

/-- The stack that a run starts with holds no more values than those behind it may. -/
lemma StaysWithin.start {size : Nat} (within : StaysWithin size m) : m.stack.length ≤ size :=
  within 0 m .start

/-- Behind a step, the rest of a run stays within the same size. -/
lemma StaysWithin.of_step {size : Nat} (within : StaysWithin size m) (running : m.isRunning)
    (step : m.step = .done next) : StaysWithin size next := by
  intro k n visits
  exact within (k + 1) n (.step running step visits)

/-- **What a run loses, it loses first in one of its steps.** If it begins with a property and comes
to a machine without it, there is a step that loses it, and up to there every machine has it. -/
theorem Visits.exists_first_loss {P : Machine → Prop} {k : Nat} (visits : Visits k m n)
    (first : P m) (lost : ¬ P n) :
    ∃ j rest before after, Visits j m before ∧ (∀ i ≤ j, ∀ other, Visits i m other → P other) ∧
      before.isRunning ∧ before.step = .done after ∧ ¬ P after ∧ Visits rest after n ∧
      j + 1 + rest = k := by
  induction visits with
  | start => exact absurd first lost
  | @step k m next n running step more ih =>
    by_cases kept : P next
    · obtain ⟨j, rest, before, after, visits, all, runs, loses, without, behind, sum⟩ :=
        ih kept lost
      refine ⟨j + 1, rest, before, after, .step running step visits, ?_, runs, loses, without,
        behind, by omega⟩
      intro i le other visits
      cases i with
      | zero =>
        cases visits
        exact first
      | succ i => exact all i (Nat.le_of_succ_le_succ le) other (visits.of_step step)
    · refine ⟨0, k, m, next, .start, ?_, running, step, kept, more, by omega⟩
      intro i le other visits
      rw [Nat.le_zero.1 le] at visits
      cases visits
      exact first

/-- Stacks that exceed a bound which the first one meets do so a first time. -/
theorem staysWithin_or_outgrowsAt {size : Nat} (few : m.stack.length ≤ size) :
    StaysWithin size m ∨ ∃ before, OutgrowsAt size m before := by
  by_cases within : StaysWithin size m
  · exact .inl within
  refine .inr ?_
  simp only [StaysWithin, Classical.not_forall, exists_prop] at within
  obtain ⟨k, n, visits, many⟩ := within
  obtain ⟨j, _, before, after, visits, bounded, running, step, exceeds, -⟩ :=
    visits.exists_first_loss (P := fun n => n.stack.length ≤ size) few many
  exact ⟨before, j, visits, bounded, running, after, step, Nat.not_le.1 exceeds⟩

/-! ## Budgets -/

/-- A budget pays for `k` steps. -/
def Affords (budget : Option Nat) (k : Nat) : Prop := ∀ limit, budget = some limit → k ≤ limit

/-- Every budget pays for no steps. -/
lemma affords_zero (budget : Option Nat) : Affords budget 0 := fun _ _ => Nat.zero_le _

/-- Without a budget every number of steps is paid for. -/
lemma affords_of_unlimited {budget : Option Nat} (free : budget = none) (k : Nat) :
    Affords budget k := by
  intro limit budget
  cases free.symm.trans budget

/-- A budget pays for as many steps as it has. -/
lemma affords_of_le {limit k : Nat} (le : k ≤ limit) : Affords (some limit) k := by
  rintro _ ⟨⟩
  exact le

/-- A budget that pays for some steps pays for fewer. -/
lemma Affords.mono {budget : Option Nat} {j k : Nat} (paid : Affords budget k) (le : j ≤ k) :
    Affords budget j := fun limit same => le.trans (paid limit same)

/-- A budget is used up by as many steps as it has, or more. -/
lemma spent?_eq_some_iff {taken limit : Nat} :
    m.spent? taken = some limit ↔ m.budget = some limit ∧ limit ≤ taken := by
  simp [spent?, Option.filter_eq_some_iff]

/-- The budget of a run is not used up as long as it pays for the next step. -/
lemma spent?_eq_none_iff {taken : Nat} :
    m.spent? taken = none ↔ Affords m.budget (taken + 1) := by
  simp only [spent?, Option.filter_eq_none_iff, decide_eq_true_eq, Nat.not_le]
  exact Iff.rfl

/-- Without a budget nothing is used up. -/
lemma spent?_of_unlimited (free : m.budget = none) (taken : Nat) : m.spent? taken = none :=
  spent?_eq_none_iff.2 (affords_of_unlimited free _)

/-! ## How a run ends -/

/-- A run that is over stays as it is if more states are allowed. -/
lemma run_mono {fuel more : Nat} {o : Outcome} (run : m.run fuel = some o) (le : fuel ≤ more) :
    m.run more = some o := by
  obtain ⟨rest, rfl⟩ := Nat.exists_eq_add_of_le le
  exact runFrom_mono run rest

/-- All machines of a run have the same budget. -/
lemma Visits.budget_eq {k : Nat} (visits : Visits k m n) : n.budget = m.budget :=
  congrArg (fun setup => setup.2.1) visits.setup_eq

/-- **A run goes on from every machine that it comes to**, as long as its budget pays for the steps
up to there. -/
theorem Visits.runFrom_add {k taken : Nat} (visits : Visits k m n)
    (paid : Affords m.budget (taken + k)) (fuel : Nat) :
    m.runFrom (k + fuel) taken = n.runFrom fuel (taken + k) := by
  induction visits generalizing taken with
  | start => rw [Nat.zero_add, Nat.add_zero]
  | @step k m next n running step more ih =>
    have spent : m.spent? taken = none := spent?_eq_none_iff.2 (paid.mono (by omega))
    have behind : Affords next.budget (taken + 1 + k) :=
      budget_of_step step ▸ paid.mono (by omega)
    have count : taken + (k + 1) = taken + 1 + k := by omega
    rw [Nat.add_right_comm k 1 fuel, count, ← ih behind]
    conv => lhs; unfold Machine.runFrom
    rw [if_pos running, spent]
    simp only [step]

/-- The ways in which a run ends of which `taken` steps are taken already. -/
inductive RunEnds (taken : Nat) (m : Machine) : Outcome → Prop where
  /-- It comes to a machine that is at no instruction. -/
  | stopped {k : Nat} {n : Machine} (visits : Visits k m n)
    (paid : Affords m.budget (taken + k)) (stopped : ¬ n.isRunning) : RunEnds taken m (.done n)
  /-- It comes to a machine whose step fails. -/
  | failed {k : Nat} {n last : Machine} {e : RuntimeError} (visits : Visits k m n)
    (paid : Affords m.budget (taken + k + 1)) (running : n.isRunning)
    (step : n.step = .failed e last) : RunEnds taken m (.failed e last)
  /-- It comes to a machine that is at an instruction when its budget is used up. -/
  | spent {k limit : Nat} {n : Machine} (visits : Visits k m n) (budget : m.budget = some limit)
    (used : taken + k = limit) (running : n.isRunning) :
    RunEnds taken m (.failed (.stepLimitExceeded limit) n)

/-- A run that ends behind its next step ends so from that step on. -/
lemma RunEnds.of_step {taken : Nat} (running : m.isRunning) (step : m.step = .done next)
    (ends : RunEnds (taken + 1) next o) : RunEnds taken m o := by
  have budget := budget_of_step step
  cases ends with
  | @stopped k n visits paid stopped =>
    refine .stopped (.step running step visits) ?_ stopped
    rw [← budget]
    exact paid.mono (by omega)
  | @failed k n last e visits paid runs fails =>
    refine .failed (.step running step visits) ?_ runs fails
    rw [← budget]
    exact paid.mono (by omega)
  | @spent k limit n visits limited used runs =>
    exact .spent (.step running step visits) (budget.symm.trans limited) (by omega) runs

/-- **A run ends in one of these ways.** -/
theorem runEnds_of_runFrom {fuel taken : Nat} (run : m.runFrom fuel taken = some o)
    (paid : Affords m.budget taken) : RunEnds taken m o := by
  induction fuel generalizing taken m with
  | zero => cases run
  | succ fuel ih =>
    unfold runFrom at run
    split at run
    · rename_i running
      cases spent : m.spent? taken with
      | some limit =>
        simp only [spent] at run
        cases run
        obtain ⟨budget, le⟩ := spent?_eq_some_iff.1 spent
        exact .spent .start budget (Nat.le_antisymm (paid limit budget) le) running
      | none =>
        have next_paid := spent?_eq_none_iff.1 spent
        simp only [spent] at run
        cases step : m.step with
        | done next =>
          simp only [step] at run
          exact (ih run (budget_of_step step ▸ next_paid)).of_step running step
        | failed e last =>
          simp only [step] at run
          cases run
          exact .failed .start next_paid running step
    · rename_i stopped
      cases run
      exact .stopped .start paid stopped

/-- A run that can end in one of these ways does, when it looks at one state more than it takes
steps. -/
theorem RunEnds.exists_runFrom {taken : Nat} (ends : RunEnds taken m o) :
    ∃ fuel, m.runFrom fuel taken = some o := by
  cases ends with
  | @stopped k n visits paid stopped =>
    refine ⟨k + 1, ?_⟩
    rw [visits.runFrom_add paid]
    unfold Machine.runFrom
    rw [if_neg stopped]
  | @failed k n last e visits paid running step =>
    refine ⟨k + 1, ?_⟩
    rw [visits.runFrom_add (paid.mono (Nat.le_succ _))]
    unfold Machine.runFrom
    rw [if_pos running, spent?_eq_none_iff.2 (visits.budget_eq ▸ paid)]
    simp only [step]
  | @spent k limit n visits budget used running =>
    have paid : Affords m.budget (taken + k) := budget ▸ affords_of_le used.le
    refine ⟨k + 1, ?_⟩
    rw [visits.runFrom_add paid]
    unfold Machine.runFrom
    rw [if_pos running, spent?_eq_some_iff.2 ⟨visits.budget_eq.trans budget, used.ge⟩]

/-- A run is not over when it has taken as many steps as it may look at states. -/
theorem runFrom_eq_none_iff {fuel taken : Nat} (paid : Affords m.budget taken) :
    m.runFrom fuel taken = none ↔ Affords m.budget (taken + fuel) ∧ ∃ n, Visits fuel m n := by
  constructor
  · intro run
    induction fuel generalizing taken m with
    | zero => exact ⟨paid, m, .start⟩
    | succ fuel ih =>
      unfold runFrom at run
      split at run
      · rename_i running
        cases spent : m.spent? taken with
        | some limit => simp only [spent, reduceCtorEq] at run
        | none =>
          simp only [spent] at run
          cases step : m.step with
          | done next =>
            simp only [step] at run
            have budget := budget_of_step step
            obtain ⟨afforded, n, visits⟩ := ih (budget ▸ spent?_eq_none_iff.1 spent) run
            refine ⟨?_, n, .step running step visits⟩
            rw [← budget]
            exact afforded.mono (by omega)
          | failed e last => simp only [step, reduceCtorEq] at run
      · cases run
  · rintro ⟨afforded, n, visits⟩
    exact visits.runFrom_add afforded 0

/-! ### Without a budget -/

/-- A run without a budget ends at a machine that it comes to and that is at no instruction. -/
lemma visits_of_run_done (free : m.budget = none) {fuel taken : Nat}
    (run : m.runFrom fuel taken = some (.done m')) : ∃ k, Visits k m m' ∧ ¬ m'.isRunning := by
  cases runEnds_of_runFrom run (affords_of_unlimited free taken) with
  | stopped visits _ stopped => exact ⟨_, visits, stopped⟩

/-- A run ends at a machine that it comes to and that is at no instruction. -/
lemma Visits.runFrom_eq {k : Nat} (visits : Visits k m n) (free : m.budget = none)
    (stopped : ¬ n.isRunning) (taken : Nat) : m.runFrom (k + 1) taken = some (.done n) := by
  rw [visits.runFrom_add (affords_of_unlimited free _)]
  unfold Machine.runFrom
  rw [if_neg stopped]

/-- A run without a budget fails where the step at a machine that it comes to fails. -/
lemma visits_of_run_failed (free : m.budget = none) {fuel taken : Nat}
    (run : m.runFrom fuel taken = some (.failed e m')) :
    ∃ k n, Visits k m n ∧ n.isRunning ∧ n.step = .failed e m' := by
  cases runEnds_of_runFrom run (affords_of_unlimited free taken) with
  | failed visits _ running step => exact ⟨_, _, visits, running, step⟩
  | spent _ budget => exact absurd (free.symm.trans budget) nofun

/-- A run that never ends takes a step and does not end after it. -/
lemma step_of_run_none (free : m.budget = none) {taken : Nat}
    (run : ∀ fuel, m.runFrom fuel taken = none) :
    m.isRunning ∧ ∃ next, m.step = .done next ∧ ∀ fuel, next.runFrom fuel (taken + 1) = none := by
  have first (fuel : Nat) := run (fuel + 1)
  unfold runFrom at first
  rw [spent?_of_unlimited free] at first
  by_cases running : m.isRunning
  · simp only [if_pos running] at first
    cases step : m.step with
    | done next =>
      simp only [step] at first
      exact ⟨running, next, rfl, first⟩
    | failed e last =>
      simp only [step] at first
      cases first 0
  · simp only [if_neg running] at first
    cases first 0

end Machine

end StackAsm
