import StackAsm.Proofs.Budget
import StackAsm.Proofs.Session.Debugging

set_option autoImplicit false

/-!
# The debugger and the budget

A run counts its steps against the budget of its machine. The debugger has a loop of its own, which
does not look at the budget: it does the same with every budget, it is never cut off, and without
input a program that goes round for ever keeps it going for ever. So a budget bounds the debugger
only where the program ends of itself while the budget lasts.

## Main definitions

* `StackAsm.Machine.DebugTurn`, `StackAsm.Machine.DebugVisits` — one turn of the debugger, and the
  machines that it comes by.
* `StackAsm.Machine.DebugExecutes` — the instructions that the debugger executes, counted.
* `StackAsm.Machine.DebugWithin` — the debugger stays within a budget.

## Main results

* `StackAsm.Machine.debugStepsAt_iff` — the instructions counted are those at which the debugger
  takes a step.
* `StackAsm.Machine.debugFrom_eq_none_iff` — when the debugger is not over.
* `StackAsm.Machine.debugFrom_withBudget` — the debugger does the same with every budget.
* `StackAsm.Machine.debugWithin_iff` — when the debugger stays within a budget.
* `StackAsm.Machine.debug_disregards_budget` — all of this for the debugger as it is started.
-/

namespace StackAsm.Machine

variable {m n next last : Machine} {o : Outcome} {e : RuntimeError} {i : Instruction}
  {waiting typed : Bool} {fuel j k limit : Nat}

/-! ## Turns of the debugger -/

/-- In one turn the debugger, waiting for a line or not, shows an instruction, learns whether a line
was `typed`, and executes the instruction. -/
inductive DebugTurn (waiting : Bool) (m : Machine) : (typed : Bool) → (next : Machine) → Prop where
  /-- All of this succeeds. -/
  | turn {typed : Bool} {shown awaited next : Machine} {i : Instruction} {l : Location}
    (instruction : m.instruction? = some i) (location : m.location? = some l)
    (banner : m.write (Utf8.encode (Machine.banner i l)) = .done shown)
    (await : shown.await waiting = (.ok typed, awaited))
    (step : awaited.debugStep i typed = .done next) : DebugTurn waiting m typed next

/-- The debugger comes from one machine to another by `k` turns; what it knows of the input changes
from `waiting` to `typed`. -/
inductive DebugVisits :
    (waiting : Bool) → (k : Nat) → Machine → (typed : Bool) → Machine → Prop where
  /-- It takes no turn. -/
  | start {waiting : Bool} {m : Machine} : DebugVisits waiting 0 m waiting m
  /-- It takes a turn and then `k` more. -/
  | turn {waiting between typed : Bool} {k : Nat} {m next n : Machine}
    (turn : DebugTurn waiting m between next) (more : DebugVisits between k next typed n) :
    DebugVisits waiting (k + 1) m typed n

/-- The debugger executes the instruction at a machine when it has executed `k` others. -/
inductive DebugExecutes : (waiting : Bool) → (k : Nat) → Machine → Machine → Prop where
  /-- It executes its next instruction. -/
  | now {waiting typed : Bool} {m shown awaited n : Machine} {i : Instruction} {l : Location}
    (instruction : m.instruction? = some i) (location : m.location? = some l)
    (banner : m.write (Utf8.encode (Machine.banner i l)) = .done shown)
    (await : shown.await waiting = (.ok typed, awaited))
    (feed : (if typed then .done awaited else awaited.write (Utf8.encode "\n")) = Outcome.done n) :
    DebugExecutes waiting 0 m n
  /-- It executes an instruction behind its next one. -/
  | later {waiting typed : Bool} {k : Nat} {m next n : Machine}
    (turn : DebugTurn waiting m typed next) (more : DebugExecutes typed k next n) :
    DebugExecutes waiting (k + 1) m n

/-- The instructions counted are those at which the debugger takes a step. -/
theorem debugStepsAt_iff : DebugStepsAt waiting m n ↔ ∃ k, DebugExecutes waiting k m n := by
  constructor
  · intro steps
    induction steps with
    | now instruction location banner await feed =>
      exact ⟨0, .now instruction location banner await feed⟩
    | later instruction location banner await step more ih =>
      obtain ⟨k, executes⟩ := ih
      exact ⟨k + 1, .later (.turn instruction location banner await step) executes⟩
  · rintro ⟨k, executes⟩
    induction executes with
    | now instruction location banner await feed =>
      exact .now instruction location banner await feed
    | later turn more ih =>
      obtain ⟨instruction, location, banner, await, step⟩ := turn
      exact .later instruction location banner await step ih

/-- The debugger takes a turn at an instruction. -/
lemma DebugTurn.isRunning (turn : DebugTurn waiting m typed next) : m.isRunning := by
  obtain ⟨instruction, -, -, -, -⟩ := turn
  exact isRunning_of_instruction? instruction

/-- Behind a turn, the debugger comes to what it comes to from there on. -/
lemma DebugTurn.debugFrom (turn : DebugTurn waiting m typed next) (fuel : Nat) :
    m.debugFrom (fuel + 1) waiting = next.debugFrom fuel typed := by
  obtain ⟨instruction, location, banner, await, step⟩ := turn
  simp only [Machine.debugFrom, instruction, location, banner, await, step]

/-- In front of each of its turns the debugger has come to an instruction. -/
lemma DebugVisits.exists_between (visits : DebugVisits waiting k m typed n) (lt : j < k) :
    ∃ between mid, DebugVisits waiting j m between mid ∧ mid.isRunning := by
  induction visits generalizing j with
  | start => exact absurd lt (Nat.not_lt_zero j)
  | turn turn more ih =>
    cases j with
    | zero => exact ⟨_, _, .start, turn.isRunning⟩
    | succ j =>
      obtain ⟨between, mid, before, running⟩ := ih (Nat.lt_of_succ_lt_succ lt)
      exact ⟨between, mid, .turn turn before, running⟩

/-- What the debugger executes behind `k` instructions stands where it has come to by `k` turns. -/
lemma DebugExecutes.exists_visits (executes : DebugExecutes waiting k m n) :
    ∃ between mid, DebugVisits waiting k m between mid ∧ mid.isRunning := by
  induction executes with
  | now instruction => exact ⟨_, _, .start, isRunning_of_instruction? instruction⟩
  | later turn more ih =>
    obtain ⟨between, mid, visits, running⟩ := ih
    exact ⟨between, mid, .turn turn visits, running⟩

/-! ## How the debugger ends -/

/-- A write fails because the output is full. -/
lemma error_of_write_failed {bytes : Bytes} (failed : m.write bytes = .failed e last) :
    e = .stream .sinkFull := by
  unfold write at failed
  split at failed <;> cases failed
  rfl

/-- Waiting fails because the line is no text. -/
lemma error_of_await_failed (failed : m.await waiting = (.error e, last)) :
    e = .stream .invalidUtf8 := by
  unfold await at failed
  split at failed
  · dsimp only at failed
    split at failed <;> cases failed
    rfl
  · cases failed

/-- Two operations in a row fail because one of them does. -/
lemma failed_of_andThen {next : Machine → Outcome} (failed : o.andThen next = .failed e last) :
    o = .failed e last ∨ ∃ m, o = .done m ∧ next m = .failed e last := by
  cases o with
  | done m => exact .inr ⟨m, rfl, failed⟩
  | failed => exact .inl failed

/-- What a turn executes fails with the error of an instruction, or because the output is full. -/
lemma isOfStep_of_debugStep_failed (failed : m.debugStep i typed = .failed e last) :
    e.IsOfStep := by
  have writes {m : Machine} {bytes : Bytes} (failed : m.write bytes = .failed e last) :
      e.IsOfStep := by
    rw [error_of_write_failed failed]
    trivial
  rcases failed_of_andThen failed with fed | ⟨ready, -, failed⟩
  · split at fed
    · cases fed
    · exact writes fed
  rcases failed_of_andThen failed with step | ⟨stepped, -, failed⟩
  · exact isOfStep_of_step_failed step
  rcases failed_of_andThen failed with parted | ⟨parted, -, failed⟩
  · split at parted
    · exact writes parted
    · cases parted
  · exact writes failed

/-- From every machine the debugger takes a turn, or it ends there. It never ends for lack of
budget. -/
lemma debugTurn_or_ends (waiting : Bool) (m : Machine) :
    (∃ typed next, DebugTurn waiting m typed next) ∨
      ∃ o, (∀ fuel, m.debugFrom (fuel + 1) waiting = some o) ∧
        ∀ l last, o ≠ .failed (.stepLimitExceeded l) last := by
  cases instruction : m.instruction? with
  | none =>
    refine .inr ⟨.done m, fun fuel => ?_, ?_⟩
    · simp only [Machine.debugFrom, instruction]
    · rintro _ _ ⟨⟩
  | some i =>
    cases location : m.location? with
    | none =>
      refine .inr ⟨.done m, fun fuel => ?_, ?_⟩
      · simp only [Machine.debugFrom, instruction, location]
      · rintro _ _ ⟨⟩
    | some l =>
      cases banner : m.write (Utf8.encode (Machine.banner i l)) with
      | failed e last =>
        refine .inr ⟨.failed e last, fun fuel => ?_, ?_⟩
        · simp only [Machine.debugFrom, instruction, location, banner]
        · rw [error_of_write_failed banner]
          rintro _ _ ⟨⟩
      | done shown =>
        rcases await : shown.await waiting with ⟨e | typed, awaited⟩
        · refine .inr ⟨.failed e awaited, fun fuel => ?_, ?_⟩
          · simp only [Machine.debugFrom, instruction, location, banner, await]
          · rw [error_of_await_failed await]
            rintro _ _ ⟨⟩
        · cases step : awaited.debugStep i typed with
          | failed e last =>
            refine .inr ⟨.failed e last, fun fuel => ?_, ?_⟩
            · simp only [Machine.debugFrom, instruction, location, banner, await, step]
            · rintro limit last ⟨⟩
              exact isOfStep_of_debugStep_failed step
          | done next => exact .inl ⟨typed, next, .turn instruction location banner await step⟩

/-- The debugger is not over when it has taken as many turns as it may look at states. -/
theorem debugFrom_eq_none_iff :
    m.debugFrom fuel waiting = none ↔ ∃ typed n, DebugVisits waiting fuel m typed n := by
  induction fuel generalizing m waiting with
  | zero => exact ⟨fun _ => ⟨_, _, .start⟩, fun _ => rfl⟩
  | succ fuel ih =>
    constructor
    · intro unfinished
      rcases debugTurn_or_ends waiting m with ⟨between, next, turn⟩ | ⟨o, ends, -⟩
      · rw [turn.debugFrom] at unfinished
        obtain ⟨typed, n, visits⟩ := ih.1 unfinished
        exact ⟨typed, n, .turn turn visits⟩
      · rw [ends] at unfinished
        cases unfinished
    · rintro ⟨typed, n, visits⟩
      cases visits with
      | turn turn more =>
        rw [turn.debugFrom]
        exact ih.2 ⟨typed, n, more⟩

/-- From no step on, the debugger fails for lack of budget. -/
lemma debugFrom_ne_spent (last : Machine) :
    m.debugFrom fuel waiting ≠ some (.failed (.stepLimitExceeded limit) last) := by
  induction fuel generalizing m waiting with
  | zero => nofun
  | succ fuel ih =>
    rcases debugTurn_or_ends waiting m with ⟨typed, next, turn⟩ | ⟨o, ends, uncut⟩
    · rw [turn.debugFrom]
      exact ih
    · rw [ends]
      exact fun same => uncut limit last (Option.some.inj same)

/-! ## Other budgets -/

/-- A write does not look at the budget. -/
lemma write_withBudget (m : Machine) (budget : Option Nat) (bytes : Bytes) :
    (m.withBudget budget).write bytes = (m.write bytes).map fun n => n.withBudget budget :=
  (unnoticed_withBudget budget).write m bytes

/-- To wait for a line does not look at the budget. -/
lemma await_withBudget (m : Machine) (budget : Option Nat) (waiting : Bool) :
    (m.withBudget budget).await waiting =
      ((m.await waiting).1, (m.await waiting).2.withBudget budget) := by
  unfold await
  split
  · dsimp only [takeLine, Machine.withBudget]
    split <;> rfl
  · rfl

/-- A step of the debugger does not look at the budget. -/
lemma debugStep_withBudget (m : Machine) (budget : Option Nat) (i : Instruction) (typed : Bool) :
    (m.withBudget budget).debugStep i typed =
      (m.debugStep i typed).map fun n => n.withBudget budget := by
  have fed : (if typed then Outcome.done (m.withBudget budget)
        else (m.withBudget budget).write (Utf8.encode "\n")) =
      (if typed then Outcome.done m else m.write (Utf8.encode "\n")).map
        fun n => n.withBudget budget := by
    cases typed with
    | true => rfl
    | false => exact write_withBudget m budget _
  unfold debugStep
  rw [fed]
  refine (Outcome.map_andThen (fun a => ?_) _).symm
  rw [step_withBudget]
  refine Outcome.map_andThen (fun b => ?_) _
  have parted : (if i = .op .cprint then (b.withBudget budget).write (Utf8.encode "\n")
        else Outcome.done (b.withBudget budget)) =
      (if i = .op .cprint then b.write (Utf8.encode "\n") else Outcome.done b).map
        fun n => n.withBudget budget := by
    split
    · exact write_withBudget b budget _
    · rfl
  rw [parted]
  exact Outcome.map_andThen (fun c => (write_withBudget c budget _).symm) _

/-- **The debugger does the same with every budget.** -/
theorem debugFrom_withBudget (m : Machine) (budget : Option Nat) (fuel : Nat) (waiting : Bool) :
    (m.withBudget budget).debugFrom fuel waiting =
      (m.debugFrom fuel waiting).map fun o => o.map fun n => n.withBudget budget := by
  induction fuel generalizing m waiting with
  | zero => rfl
  | succ fuel ih =>
    have instruction : (m.withBudget budget).instruction? = m.instruction? := rfl
    have location : (m.withBudget budget).location? = m.location? := rfl
    simp only [Machine.debugFrom, instruction, location, write_withBudget]
    cases m.instruction? with
    | none => rfl
    | some i =>
      cases m.location? with
      | none => rfl
      | some l =>
        dsimp only
        cases m.write (Utf8.encode (Machine.banner i l)) with
        | failed e last => rfl
        | done shown =>
          simp only [Outcome.map, await_withBudget]
          rcases shown.await waiting with ⟨e | typed, awaited⟩
          · rfl
          · simp only [debugStep_withBudget]
            cases awaited.debugStep i typed with
            | failed e last => rfl
            | done next => exact ih next typed

/-! ## The debugger as it is started -/

/-- The debugger, once it has written its heading, comes by `k` turns to the machine `n`. -/
def DebugComes (k : Nat) (m n : Machine) : Prop :=
  ∃ headed typed, m.write (Utf8.encode debugHeading) = .done headed ∧
    DebugVisits true k headed typed n

/-- The debugger stays within a budget of `limit` steps, as a run does. -/
structure DebugWithin (limit : Nat) (m : Machine) : Prop where
  /-- The debugger ends. -/
  ends : ∃ fuel o, m.debug fuel = some o
  /-- It executes no instruction when it has executed `limit` others. -/
  executes (headed : Machine) (k : Nat) (n : Machine) :
    m.write (Utf8.encode debugHeading) = .done headed → DebugExecutes true k headed n → k < limit
  /-- If the program counter is at an instruction when it has executed `limit` of them, it is cut
  off. -/
  cut_off (n : Machine) : m.DebugComes limit n → n.isRunning →
    ∃ fuel last, m.debug fuel = some (.failed (.stepLimitExceeded limit) last)

/-- The debugger writes its heading and then takes turns, or it fails at once. -/
lemma debug_eq (m : Machine) :
    (∃ headed, m.write (Utf8.encode debugHeading) = .done headed ∧
      ∀ fuel, m.debug fuel = headed.debugFrom fuel true) ∨
    ∃ last, m.write (Utf8.encode debugHeading) = .failed (.stream .sinkFull) last ∧
      ∀ fuel, m.debug fuel = some (.failed (.stream .sinkFull) last) := by
  cases heading : m.write (Utf8.encode debugHeading) with
  | done headed => exact .inl ⟨headed, rfl, fun fuel => by rw [debug, heading]⟩
  | failed e last =>
    obtain rfl := error_of_write_failed heading
    exact .inr ⟨last, rfl, fun fuel => by rw [debug, heading]⟩

/-- The debugger never fails for lack of budget. -/
lemma debug_ne_spent (last : Machine) :
    m.debug fuel ≠ some (.failed (.stepLimitExceeded limit) last) := by
  rcases debug_eq m with ⟨headed, -, same⟩ | ⟨full, -, same⟩
  · rw [same]
    exact debugFrom_ne_spent last
  · rw [same]
    nofun

/-- The debugger ends if there is a number of turns behind which it comes to no instruction. -/
lemma exists_debug_of_comes (stops : ∀ n, m.DebugComes k n → ¬ n.isRunning) :
    ∃ o, m.debug (k + 1) = some o := by
  rcases debug_eq m with ⟨headed, heading, same⟩ | ⟨full, -, same⟩
  · rw [same, ← Option.ne_none_iff_exists']
    intro unfinished
    obtain ⟨typed, n, visits⟩ := debugFrom_eq_none_iff.1 unfinished
    obtain ⟨between, mid, before, running⟩ := visits.exists_between (Nat.lt_succ_self k)
    exact stops mid ⟨headed, between, heading, before⟩ running
  · exact ⟨_, same _⟩

/-- **The debugger ends exactly if there is a number of turns behind which it comes to no
instruction.** -/
theorem exists_debug_iff :
    (∃ fuel o, m.debug fuel = some o) ↔ ∃ k, ∀ n, m.DebugComes k n → ¬ n.isRunning := by
  constructor
  · rintro ⟨fuel, o, ends⟩
    refine ⟨fuel, ?_⟩
    rintro n ⟨headed, typed, heading, visits⟩ -
    rcases debug_eq m with ⟨_, heading', same⟩ | ⟨full, heading', -⟩
    · obtain rfl := Outcome.done.inj (heading.symm.trans heading')
      rw [same, debugFrom_eq_none_iff.2 ⟨typed, n, visits⟩] at ends
      cases ends
    · rw [heading] at heading'
      cases heading'
  · rintro ⟨k, stops⟩
    exact ⟨k + 1, exists_debug_of_comes stops⟩

/-- **The debugger stays within a budget exactly if the program ends of itself while the budget
lasts.**

**Proof sketch.** It is never cut off, so it stays within the budget only if behind `limit` turns
there is no instruction. Then there is none behind more turns, either. -/
theorem debugWithin_iff :
    m.DebugWithin limit ↔ ∀ n, m.DebugComes limit n → ¬ n.isRunning := by
  constructor
  · intro within n comes running
    obtain ⟨fuel, last, cut_off⟩ := within.cut_off n comes running
    exact debug_ne_spent last cut_off
  · intro stops
    exact
      { ends := ⟨limit + 1, exists_debug_of_comes stops⟩
        executes := fun headed k n heading executes => by
          by_contra ge
          obtain ⟨typed, last, visits, running⟩ := executes.exists_visits
          rcases (Nat.not_lt.1 ge).eq_or_lt with rfl | more
          · exact stops last ⟨headed, typed, heading, visits⟩ running
          · obtain ⟨between, mid, before, runs⟩ := visits.exists_between more
            exact stops mid ⟨headed, between, heading, before⟩ runs
        cut_off := fun n comes running => absurd running (stops n comes) }

/-- **The debugger disregards the budget.** Take any machine, with any budget. The debugger does the
same with every other budget. It is never cut off: it ends exactly if there is a number of turns
behind which the program counter is at no instruction, whatever the budget is. So it stays within a
budget, as a run does, exactly if the program ends of itself while that budget lasts. -/
theorem debug_disregards_budget (m : Machine) :
    (∀ budget fuel, (m.withBudget budget).debug fuel =
      (m.debug fuel).map fun o => o.map fun n => n.withBudget budget) ∧
    (∀ fuel limit last, m.debug fuel ≠ some (.failed (.stepLimitExceeded limit) last)) ∧
    ((∃ fuel o, m.debug fuel = some o) ↔ ∃ k, ∀ n, m.DebugComes k n → ¬ n.isRunning) ∧
    ∀ limit, m.DebugWithin limit ↔ ∀ n, m.DebugComes limit n → ¬ n.isRunning := by
  refine ⟨fun budget fuel => ?_, fun _ _ last => debug_ne_spent last, exists_debug_iff,
    fun limit => debugWithin_iff⟩
  rw [debug, debug, write_withBudget]
  cases m.write (Utf8.encode debugHeading) with
  | failed e last => rfl
  | done headed => exact debugFrom_withBudget headed budget fuel true

/-- Without input, the debugger goes round a jump to itself for ever. -/
lemma debugFrom_spin {p : Program} (budget : Option Nat) (sink : Sink)
    (unlimited : sink.capacity = none)
    (code : p = ⟨0, #[.push 0, .op .jmp], #[⟨"f", 1, 1⟩, ⟨"f", 1, 4⟩]⟩) :
    (⟨p, 0, [], budget, [], sink, {}⟩ : Machine).debugFrom fuel waiting = none ∧
      (⟨p, 1, [0], budget, [], sink, {}⟩ : Machine).debugFrom fuel waiting = none := by
  subst code
  induction fuel generalizing sink waiting with
  | zero => exact ⟨rfl, rfl⟩
  | succ fuel ih =>
    have decodes : (Utf8.decode? []).isSome := rfl
    constructor
    · let shown := sink.write (shownBefore (.push 0) ⟨"f", 1, 1⟩ false)
      rw [debugFrom_succ (i := .push 0) (l := ⟨"f", 1, 1⟩) ⟨unlimited, rfl⟩ rfl rfl decodes
        (.inr rfl)]
      exact (ih (shown.write (shownBehind (.push 0) [0])) unlimited).2
    · let shown := sink.write (shownBefore (.op .jmp) ⟨"f", 1, 4⟩ false)
      rw [debugFrom_succ (i := .op .jmp) (l := ⟨"f", 1, 4⟩) ⟨unlimited, rfl⟩ rfl rfl decodes
        (.inr rfl)]
      exact (ih (shown.write (shownBehind (.op .jmp) [])) unlimited).1

/-- Two pushes with a budget of one step: the run is cut off, the debugger goes on to the end. And a
program that jumps to itself: the run is cut off, the debugger never ends. -/
theorem debug_not_within_pushes :
    ∃ m last spinning : Machine, Reachable m ∧ m.budget = some 1 ∧ m.input = [] ∧
      m.Ends (.failed (.stepLimitExceeded 1) { m with pc := 1, stack := [1] }) ∧
      m.debug 3 = some (.done last) ∧ last.stack = [2, 1] ∧ ¬ m.DebugWithin 1 ∧
      Reachable spinning ∧ spinning.budget = some 1 ∧ spinning.input = [] ∧
      (∃ cut, spinning.Ends (.failed (.stepLimitExceeded 1) cut)) ∧
      (∀ fuel, spinning.debug fuel = none) ∧ ¬ spinning.DebugWithin 1 := by
  let p : Program := ⟨0, #[.push 1, .push 2], #[⟨"f", 1, 1⟩, ⟨"f", 1, 3⟩]⟩
  let m : Machine := ⟨p, 0, [], some 1, [], {}, {}⟩
  have reachable : Reachable m :=
    @Reachable.perform _ _ (.load p) (.fresh (some 1) [] {} {}) rfl rfl
  have run : m.Ends (.failed (.stepLimitExceeded 1) { m with pc := 1, stack := [1] }) :=
    ⟨2, by decide +kernel⟩
  obtain ⟨last, debug, stack⟩ : ∃ last, m.debug 3 = some (.done last) ∧ last.stack = [2, 1] :=
    ⟨_, rfl, rfl⟩
  let q : Program := ⟨0, #[.push 0, .op .jmp], #[⟨"f", 1, 1⟩, ⟨"f", 1, 4⟩]⟩
  let spinning : Machine := ⟨q, 0, [], some 1, [], {}, {}⟩
  have reachable' : Reachable spinning :=
    @Reachable.perform _ _ (.load q) (.fresh (some 1) [] {} {}) rfl rfl
  have run' : spinning.Ends
      (.failed (.stepLimitExceeded 1) { spinning with pc := 1, stack := [0] }) :=
    ⟨2, by decide +kernel⟩
  have endless (fuel : Nat) : spinning.debug fuel = none := by
    unfold Machine.debug
    rw [write_of_unlimited ⟨rfl, rfl⟩]
    exact (debugFrom_spin (some 1) _ rfl rfl).1
  refine ⟨m, last, spinning, reachable, rfl, rfl, run, debug, stack, ?_, reachable', rfl, rfl,
    ⟨_, run'⟩, endless, ?_⟩
  · intro within
    obtain ⟨n, comes, running⟩ : ∃ n, m.DebugComes 1 n ∧ n.isRunning :=
      ⟨_, ⟨_, false, rfl, .turn (.turn rfl rfl rfl rfl rfl) .start⟩, rfl⟩
    exact debugWithin_iff.1 within n comes running
  · intro within
    obtain ⟨fuel, o, ends⟩ := within.ends
    rw [endless fuel] at ends
    cases ends

end StackAsm.Machine
