import StackAsm.Proofs.Effect.Unnoticed

set_option autoImplicit false

/-!
# Runs within a budget

A run takes one step after the other. It looks whether the program counter is still in the program,
then whether its budget pays for another step, and only then does it take the step. So a program
that ends when its budget is used up has ended, and an instruction that would fail behind the last
step that is paid for is not executed. Each run has the whole budget, so a run that is cut off can
be taken up again; several runs in a row with one budget come to where a single run with the sum of
their budgets comes.

## Main definitions

* `StackAsm.Machine.Ends` — a run ends, whatever number of states it takes.
* `StackAsm.Machine.IteratesStep` — how the runs of a machine end, in terms of its steps.
* `StackAsm.Machine.runAgain` — run after run, as long as the budget is used up.
* `StackAsm.Outcome.asOf` — the outcome of a run, told by a machine with another budget.

## Main results

* `StackAsm.Machine.ends_iff` — the runs that end are those that can end.
* `StackAsm.Machine.iteratesStep_of_wellFormed` — a run is an iteration of steps.
* `StackAsm.Machine.RunEnds.behind` — steps that are taken may be left out of account.
* `StackAsm.Machine.exists_runAgain` — budgets add up.
* `StackAsm.Machine.run_iterates_step` — both for every machine that can be reached.
-/

namespace StackAsm

namespace Machine

/-- A machine with another budget. -/
def withBudget (m : Machine) (budget : Option Nat) : Machine := { m with budget := budget }

/-- The run of a machine ends with the outcome `o`. -/
def Ends (m : Machine) (o : Outcome) : Prop := ∃ fuel, m.run fuel = some o

/-- The runs of a machine are iterations of steps that its budget bounds. -/
structure IteratesStep (m : Machine) : Prop where
  /-- A run succeeds exactly if the program counter leaves the program behind steps that the budget
  pays for. -/
  done (n : Machine) : m.Ends (.done n) ↔
    ∃ k, Visits k m n ∧ ¬ n.isRunning ∧ Affords m.budget k
  /-- It fails with the error of a step exactly if this step fails and is paid for, too. Then all
  but the streams is as it was in front of that step. -/
  failed (e : RuntimeError) (n : Machine) (other : ∀ limit, e ≠ .stepLimitExceeded limit) :
    m.Ends (.failed e n) ↔
      ∃ k last, Visits k m last ∧ last.isRunning ∧ last.step = .failed e n ∧
        n.stack = last.stack ∧ n.pc = last.pc ∧ n.code = last.code ∧ Affords m.budget (k + 1)
  /-- It fails for lack of budget exactly if the program counter is in the program when all the
  steps that the budget pays for are taken. -/
  spent (limit : Nat) (n : Machine) : m.Ends (.failed (.stepLimitExceeded limit) n) ↔
    m.budget = some limit ∧ Visits limit m n ∧ n.isRunning
  /-- It never takes a step outside the program. -/
  inside (pc : Address) (n : Machine) : ¬ m.Ends (.failed (.endOfProgram pc) n)
  /-- It does not end exactly if there is no budget and it can go on for ever. -/
  endless : (∀ o, ¬ m.Ends o) ↔ m.budget = none ∧ ∀ k, ∃ n, Visits k m n

/-- Runs a machine and, as long as its budget is used up, runs it again, `more` times at most. Each
run looks at `fuel` states at most. -/
def runAgain (fuel : Nat) : (more : Nat) → Machine → Option Outcome
  | 0, m => m.run fuel
  | more + 1, m =>
    match m.run fuel with
    | some (.failed (.stepLimitExceeded _) n) => runAgain fuel more n
    | o => o

end Machine

/-- The outcome of a run, told by a machine with the budget `limit`: if the budget is used up, it is
this one. -/
def Outcome.asOf (limit : Nat) : Outcome → Outcome
  | done m => done (m.withBudget (some limit))
  | failed (.stepLimitExceeded _) m =>
    failed (.stepLimitExceeded limit) (m.withBudget (some limit))
  | failed e m => failed e (m.withBudget (some limit))

/-- The error of a step is told alike with any budget. -/
lemma Outcome.asOf_failed {e : RuntimeError} (ofStep : e.IsOfStep) (limit : Nat) (m : Machine) :
    (failed e m).asOf limit = failed e (m.withBudget (some limit)) := by
  cases e with
  | stepLimitExceeded other => exact ofStep.elim
  | _ => rfl

/-- Of two budgets with which an outcome is told, the last one counts. -/
lemma Outcome.asOf_asOf (limit other : Nat) (o : Outcome) :
    (o.asOf other).asOf limit = o.asOf limit := by
  cases o with
  | done m => rfl
  | failed e m => cases e <;> rfl

namespace Machine

variable {m n m' : Machine} {o o' : Outcome} {e : RuntimeError}

/-! ## Steps that fail -/

/-- A step fails with an error that is not about the budget. -/
lemma isOfStep_of_step_failed (failed : m.step = .failed e n) : e.IsOfStep := by
  rcases fails_of_step failed with ⟨i, l, -, -, fails⟩ | ⟨-, rfl, -⟩
  · exact fails.isOfStep
  · trivial

/-- A step that fails changes at most the streams. -/
lemma kept_of_step_failed (failed : m.step = .failed e n) :
    n.stack = m.stack ∧ n.pc = m.pc ∧ n.code = m.code := by
  rcases fails_of_step failed with ⟨i, l, -, -, fails⟩ | ⟨-, -, rfl⟩
  · obtain ⟨stack, pc, code, -⟩ := fails.kept
    exact ⟨stack, pc, code⟩
  · exact ⟨rfl, rfl, rfl⟩

/-- At an instruction a step does not run out of the program. -/
lemma ne_endOfProgram_of_step_failed (wf : m.code.WellFormed) (running : m.isRunning)
    (failed : m.step = .failed e n) (pc : Address) : e ≠ .endOfProgram pc := by
  obtain ⟨i, l, -, executes⟩ := step_of_running wf running
  rintro rfl
  cases fails_of_execute (executes.symm.trans failed)

/-! ## A run is an iteration of steps -/

/-- **The runs that end are those that can end.** -/
theorem ends_iff : m.Ends o ↔ RunEnds 0 m o := by
  constructor
  · rintro ⟨fuel, run⟩
    exact runEnds_of_runFrom run (affords_zero _)
  · exact RunEnds.exists_runFrom

/-- A run succeeds exactly if the steps that lead out of the program are paid for. -/
lemma ends_done_iff :
    m.Ends (.done n) ↔ ∃ k, Visits k m n ∧ ¬ n.isRunning ∧ Affords m.budget k := by
  rw [ends_iff]
  constructor
  · intro ends
    cases ends with
    | stopped visits paid stopped => exact ⟨_, visits, stopped, by simpa using paid⟩
  · rintro ⟨k, visits, stopped, paid⟩
    exact .stopped visits (by simpa using paid) stopped

/-- A run fails with another error than that of the budget exactly if a step that is paid for
fails with it. -/
lemma ends_failed_iff (other : ∀ limit, e ≠ .stepLimitExceeded limit) :
    m.Ends (.failed e n) ↔
      ∃ k last, Visits k m last ∧ last.isRunning ∧ last.step = .failed e n ∧
        Affords m.budget (k + 1) := by
  rw [ends_iff]
  constructor
  · intro ends
    cases ends with
    | failed visits paid running step =>
      exact ⟨_, _, visits, running, step, by simpa using paid⟩
    | spent => exact absurd rfl (other _)
  · rintro ⟨k, last, visits, running, step, paid⟩
    exact .failed visits (by simpa using paid) running step

/-- A run is cut off exactly if the program goes on behind the last step that is paid for. -/
lemma ends_spent_iff {limit : Nat} :
    m.Ends (.failed (.stepLimitExceeded limit) n) ↔
      m.budget = some limit ∧ Visits limit m n ∧ n.isRunning := by
  rw [ends_iff]
  constructor
  · intro ends
    cases ends with
    | failed _ _ _ step => exact (isOfStep_of_step_failed step).elim
    | spent visits budget used running =>
      rw [Nat.zero_add] at used
      exact ⟨budget, used ▸ visits, running⟩
  · rintro ⟨budget, visits, running⟩
    exact .spent visits budget (Nat.zero_add limit) running

/-- A run does not end exactly if it has no budget and there is always another step. -/
lemma endless_iff : (∀ o, ¬ m.Ends o) ↔ m.budget = none ∧ ∀ k, ∃ n, Visits k m n := by
  have unfinished (fuel : Nat) :
      m.run fuel = none ↔ Affords m.budget fuel ∧ ∃ n, Visits fuel m n := by
    rw [run, runFrom_eq_none_iff (affords_zero _), Nat.zero_add]
  constructor
  · intro endless
    have never (fuel : Nat) : m.run fuel = none :=
      Option.eq_none_iff_forall_ne_some.2 fun o ends => endless o ⟨fuel, ends⟩
    refine ⟨?_, fun k => ((unfinished k).1 (never k)).2⟩
    cases budget : m.budget with
    | none => rfl
    | some limit =>
      have paid := ((unfinished (limit + 1)).1 (never _)).1 limit budget
      omega
  · rintro ⟨free, visits⟩ o ⟨fuel, ends⟩
    rw [(unfinished fuel).2 ⟨affords_of_unlimited free fuel, visits fuel⟩] at ends
    cases ends

/-- **A run is an iteration of steps that its budget bounds.** -/
theorem iteratesStep_of_wellFormed (wf : m.code.WellFormed) : m.IteratesStep where
  done n := ends_done_iff
  failed e n other := by
    rw [ends_failed_iff other]
    constructor
    · rintro ⟨k, last, visits, running, step, paid⟩
      obtain ⟨stack, pc, code⟩ := kept_of_step_failed step
      exact ⟨k, last, visits, running, step, stack, pc, code, paid⟩
    · rintro ⟨k, last, visits, running, step, -, -, -, paid⟩
      exact ⟨k, last, visits, running, step, paid⟩
  spent limit n := ends_spent_iff
  inside pc n := by
    rw [ends_failed_iff (by simp)]
    rintro ⟨k, last, visits, running, step, -⟩
    have last_wf : last.code.WellFormed := visits.code_eq ▸ wf
    exact ne_endOfProgram_of_step_failed last_wf running step pc rfl
  endless := endless_iff

/-! ## Other budgets -/

/-- No instruction notices the budget. -/
lemma unnoticed_withBudget (budget : Option Nat) : Unnoticed fun n => n.withBudget budget :=
  ⟨fun _ => rfl, fun _ => rfl, fun _ => rfl, fun _ => rfl, fun _ => rfl, fun _ _ _ => rfl,
    fun _ _ => rfl, fun _ _ => rfl⟩

/-- A step does not look at the budget. -/
lemma step_withBudget (m : Machine) (budget : Option Nat) :
    (m.withBudget budget).step = m.step.map fun n => n.withBudget budget := by
  refine (unnoticed_withBudget budget).step fun i l _ _ reads => ?_
  have input : (m.withBudget budget).input = m.input := rfl
  rcases Instruction.reads_iff.1 reads with rfl | rfl
  · simp only [execute, readInteger, input]
    split <;> rfl
  · simp only [execute, readByte, input]
    split <;> rfl

/-- With another budget a run comes by the same machines. -/
lemma Visits.withBudget {k : Nat} (visits : Visits k m n) (budget : Option Nat) :
    Visits k (m.withBudget budget) (n.withBudget budget) := by
  induction visits with
  | start => exact .start
  | @step k m next n running step more ih =>
    refine .step running ?_ ih
    rw [step_withBudget, step]
    rfl

/-- **Steps that are taken may be left out of account.** A run goes on behind `k` steps as if it had
only what is left of its budget, or less, as long as it does not use that up.

**Proof sketch.** Both come by the same machines and look at their budgets after the same steps but
for these `k`, which the larger budget pays for. -/
theorem RunEnds.behind {k limit total : Nat} {budget : Option Nat}
    (visits : Visits k (m.withBudget budget) n) (ends : RunEnds 0 (n.withBudget (some limit)) o)
    (le : k + limit ≤ total)
    (used_up : ∀ other last, o = .failed (.stepLimitExceeded other) last → k + limit = total) :
    RunEnds 0 (m.withBudget (some total)) (o.asOf total) := by
  have first : Visits k (m.withBudget (some total)) (n.withBudget (some total)) :=
    visits.withBudget _
  have paid {j : Nat} (afforded : Affords (some limit) (0 + j)) :
      Affords (some total) (0 + (k + j)) := by
    rintro _ ⟨⟩
    have within := afforded limit rfl
    omega
  cases ends with
  | stopped more afforded stopped =>
    exact .stopped (first.trans (more.withBudget _)) (paid afforded) stopped
  | @failed j last left e more afforded running step =>
    rw [Outcome.asOf_failed (isOfStep_of_step_failed step)]
    refine .failed (first.trans (more.withBudget _)) (paid (j := j + 1) afforded) running ?_
    rw [step_withBudget, step]
    rfl
  | @spent j other last more same used running =>
    obtain rfl : limit = other := Option.some.inj same
    refine .spent (first.trans (more.withBudget _)) rfl ?_ running
    rw [← used_up _ _ rfl, ← used]
    omega

/-! ## Budgets add up -/

/-- A run has one outcome, whatever the fuel that is enough for it. -/
lemma run_unique {fuel fuel' : Nat} (run : m.run fuel = some o) (run' : m.run fuel' = some o') :
    o = o' := by
  have later := run_mono run (Nat.le_max_left fuel fuel')
  rw [run_mono run' (Nat.le_max_right fuel fuel')] at later
  exact (Option.some.inj later).symm

section Limited

variable {limit fuel : Nat} (budget : m.budget = some limit) (enough : limit < fuel)
include budget enough

/-- A run with a budget is over when it has looked at more states than the budget has steps. -/
lemma exists_run_of_budget : ∃ o, m.run fuel = some o := by
  rw [← Option.ne_none_iff_exists', run, ne_eq, runFrom_eq_none_iff (affords_zero _), Nat.zero_add]
  rintro ⟨paid, -⟩
  exact absurd (paid limit budget) (Nat.not_le.2 enough)

/-- With whatever fuel a run ends, its outcome is the one that the steps lead to. -/
lemma RunEnds.run_eq (ends : RunEnds 0 m o) : m.run fuel = some o := by
  obtain ⟨o', run⟩ := exists_run_of_budget budget enough
  obtain ⟨fuel', run'⟩ := ends.exists_runFrom
  rw [run, run_unique run run']

end Limited

/-- After a run that does not use its budget up there is no other. -/
lemma runAgain_of_run {fuel : Nat} (run : m.run fuel = some o)
    (uncut : ∀ other n, o ≠ .failed (.stepLimitExceeded other) n) (more : Nat) :
    runAgain fuel more m = some o := by
  cases more with
  | zero => exact run
  | succ more =>
    rw [runAgain, run]
    split
    · rename_i other n cut_off
      exact absurd (Option.some.inj cut_off) (uncut other n)
    · rfl

/-- **Budgets add up.** Runs with the budget `limit`, one after the other as long as it is used up,
come to where one run with the sum of their budgets comes.

**Proof sketch.** Induction on the runs that may follow the first one. If the first one is cut off,
it has taken `limit` steps, and the single run has taken them, too; behind them it has as much
budget as the other runs have together. Otherwise the first run is the last one, and with a larger
budget it ends in the same way. -/
theorem exists_runAgain (m : Machine) (more : Nat) {limit fuel : Nat} (enough : limit < fuel) :
    ∃ o, runAgain fuel more (m.withBudget (some limit)) = some o ∧
      RunEnds 0 (m.withBudget (some ((more + 1) * limit))) (o.asOf ((more + 1) * limit)) := by
  induction more generalizing m with
  | zero =>
    rw [Nat.zero_add, Nat.one_mul]
    obtain ⟨o, run⟩ := exists_run_of_budget (m := m.withBudget (some limit)) rfl enough
    have ends : RunEnds 0 (m.withBudget (some limit)) o := ends_iff.1 ⟨fuel, run⟩
    exact ⟨o, run, .behind (.start (m := m.withBudget none)) ends (by omega) (by simp)⟩
  | succ more ih =>
    obtain ⟨o, run⟩ := exists_run_of_budget (m := m.withBudget (some limit)) rfl enough
    have ends : RunEnds 0 (m.withBudget (some limit)) o := ends_iff.1 ⟨fuel, run⟩
    have total : (more + 1 + 1) * limit = limit + (more + 1) * limit := by ring
    rw [total]
    by_cases uncut : ∀ other n, o ≠ .failed (.stepLimitExceeded other) n
    · refine ⟨o, runAgain_of_run run uncut _, ?_⟩
      have larger : 0 + limit ≤ limit + (more + 1) * limit := by omega
      exact .behind (.start (m := m.withBudget none)) ends larger fun other last cut_off =>
        absurd cut_off (uncut other last)
    · push Not at uncut
      obtain ⟨other, n, rfl⟩ := uncut
      obtain ⟨same, visits, -⟩ := ends_spent_iff.1 ⟨fuel, run⟩
      obtain rfl : limit = other := Option.some.inj same
      have cut_off : n.withBudget (some limit) = n := by
        rw [← visits.budget_eq.trans same]
        rfl
      obtain ⟨last, again, alone⟩ := ih n
      refine ⟨last, ?_, ?_⟩
      · rw [runAgain, run, ← again, cut_off]
      · have behind := RunEnds.behind visits alone le_rfl fun _ _ _ => rfl
        rwa [Outcome.asOf_asOf] at behind

/-! ## The machines of a session -/

/-- **A run is a bounded iteration of steps, and budgets add up.** For every machine that a program
can reach, with any budget: its run is an iteration of steps that the budget bounds
(`IteratesStep`). And runs with the budget `limit`, one after the other as long as it is used up,
`more + 1` of them at most, come to the same end as one run with the budget `(more + 1) * limit`,
which leaves the same machine but for its budget and tells its own budget if it is used up. All
these runs end; they look at `fuel` states at most, if that is more than the large budget. -/
theorem run_iterates_step (reachable : Reachable m) :
    (∀ budget, (m.withBudget budget).IteratesStep) ∧
      ∀ limit more fuel, (more + 1) * limit < fuel →
        ∃ o, runAgain fuel more (m.withBudget (some limit)) = some o ∧
          (m.withBudget (some ((more + 1) * limit))).run fuel =
            some (o.asOf ((more + 1) * limit)) := by
  constructor
  · intro budget
    have wf := wellFormed_of_reachable reachable
    exact iteratesStep_of_wellFormed (m := m.withBudget budget) wf
  · intro limit more fuel enough
    have single : limit ≤ (more + 1) * limit := Nat.le_mul_of_pos_left limit more.succ_pos
    obtain ⟨o, again, ends⟩ := exists_runAgain m more (single.trans_lt enough)
    exact ⟨o, again, ends.run_eq rfl enough⟩

/-- Three pushes. Without a budget for any step the run is cut off at once; two runs of one step end
like one run of two steps; with a third one the program ends where the budget does. -/
theorem run_iterates_step_pushes :
    ∃ m n last : Machine, Reachable m ∧
      (m.withBudget (some 0)).Ends (.failed (.stepLimitExceeded 0) (m.withBudget (some 0))) ∧
      n.stack = [6, 5] ∧
      runAgain 4 1 (m.withBudget (some 1)) = some (.failed (.stepLimitExceeded 1) n) ∧
      (m.withBudget (some 2)).run 4 =
        some (.failed (.stepLimitExceeded 2) (n.withBudget (some 2))) ∧
      last.stack = [7, 6, 5] ∧ runAgain 4 2 (m.withBudget (some 1)) = some (.done last) ∧
      (m.withBudget (some 3)).run 4 = some (.done (last.withBudget (some 3))) := by
  let l : Location := ⟨"f", 1, 1⟩
  let p : Program := ⟨0, #[.push 5, .push 6, .push 7], #[l, l, l]⟩
  let m : Machine := ⟨p, 0, [], none, [], {}, {}⟩
  have permitted : Operation.Permitted (.load p) := rfl
  have loaded : Reachable m := Reachable.perform (.fresh none [] {} {}) permitted rfl
  obtain ⟨iterates, sums⟩ := run_iterates_step loaded
  have at_once := ((iterates (some 0)).spent 0 _).2 ⟨rfl, .start, by decide +kernel⟩
  have two : runAgain 4 1 (m.withBudget (some 1)) = some (.failed (.stepLimitExceeded 1)
      ⟨p, 2, [6, 5], some 1, [], {}, {}⟩) := by decide +kernel
  have three : runAgain 4 2 (m.withBudget (some 1)) =
      some (.done ⟨p, 3, [7, 6, 5], some 1, [], {}, {}⟩) := by decide +kernel
  obtain ⟨o, again, alone⟩ := sums 1 1 4 (by decide)
  obtain ⟨o', again', alone'⟩ := sums 1 2 4 (by decide)
  obtain rfl := Option.some.inj (two.symm.trans again)
  obtain rfl := Option.some.inj (three.symm.trans again')
  exact ⟨m, _, _, loaded, at_once, rfl, two, alone, rfl, three, alone'⟩

end Machine

end StackAsm
