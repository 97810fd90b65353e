import StackAsm.Proofs.Resolution
import StackAsm.Proofs.Run
import StackAsm.Session.Debugger
import StackAsm.Session.Interactive

set_option autoImplicit false

/-!
# The machines that can be reached

A machine is used through a few operations, in any order, and each may succeed or fail. Whatever was
done to it, its tables are equally long and the address behind its last instruction is a word, so
none of the sums of addresses that it forms wraps.

## Main definitions

* `StackAsm.Operation` — what can be done to a machine; `StackAsm.Operation.Leaves` — with which
  result.
* `StackAsm.Operation.StepsAt` — the machines at which an operation takes a step.
* `StackAsm.Machine.Reachable` — the machines that operations lead to.
* `StackAsm.Machine.KeptByLines` — what the loading of a line keeps of a program.

## Main results

* `StackAsm.Machine.interact_kept`, `StackAsm.Machine.stepsAt_kept` — what every line keeps of a
  program holds throughout a session.
* `StackAsm.Machine.wellFormed_of_leaves` — no operation spoils the program of a machine.
* `StackAsm.Machine.reachable_addresses` — what holds of the addresses of every machine that can be
  reached.
-/

namespace StackAsm

/-! ## Operations -/

/-- What can be done to a machine. -/
inductive Operation where
  /-- Loads a program. -/
  | load (p : Program)
  /-- Resolves tokens for the next free address and loads them. -/
  | loadTokens (tokens : List SourceToken)
  /-- Executes one instruction. -/
  | step
  /-- Runs the program. -/
  | run
  /-- Holds an interactive session. -/
  | interact
  /-- Steps through the program. -/
  | debug
  /-- Moves the program counter. -/
  | goTo (pc : Address)
  /-- Adds bytes to the input. -/
  | feed (bytes : Bytes)
  /-- Drops the program, the program counter and the stack. -/
  | reset

namespace Machine

/-- A run, `taken` steps of which are taken already, takes a step at a machine. -/
inductive RunStepsAt : (taken : Nat) → Machine → Machine → Prop where
  /-- It takes its next step at once. -/
  | now {taken : Nat} {m : Machine} (running : m.isRunning) (spent : m.spent? taken = none) :
    RunStepsAt taken m m
  /-- It takes the step after its next one. -/
  | later {taken : Nat} {m next n : Machine} (running : m.isRunning)
    (spent : m.spent? taken = none) (step : m.step = .done next)
    (more : RunStepsAt (taken + 1) next n) : RunStepsAt taken m n

/-- The debugger, waiting for a line or not, takes a step at a machine: behind the text that it
writes before the step. -/
inductive DebugStepsAt : (waiting : Bool) → Machine → Machine → Prop where
  /-- It takes its next step at once. -/
  | now {waiting typed : Bool} {m shown awaited n : Machine} {i : Instruction} {l : Location}
    (instruction : m.instruction? = some i) (location : m.location? = some l)
    (banner : m.write (Utf8.encode (Machine.banner i l)) = .done shown)
    (await : shown.await waiting = (.ok typed, awaited))
    (feed : (if typed then .done awaited else awaited.write (Utf8.encode "\n")) = Outcome.done n) :
    DebugStepsAt waiting m n
  /-- It takes the step after its next one. -/
  | later {waiting typed : Bool} {m shown awaited next n : Machine} {i : Instruction}
    {l : Location} (instruction : m.instruction? = some i) (location : m.location? = some l)
    (banner : m.write (Utf8.encode (Machine.banner i l)) = .done shown)
    (await : shown.await waiting = (.ok typed, awaited))
    (step : awaited.debugStep i typed = .done next) (more : DebugStepsAt typed next n) :
    DebugStepsAt waiting m n

/-- An interactive session takes a step at a machine: in the run of its next line, or of a line
behind it. -/
inductive SessionStepsAt : Machine → Machine → Prop where
  /-- It takes a step while it runs its next line. -/
  | now {m asked loaded n : Machine} {text : String}
    (prompt : m.write (Utf8.encode Machine.prompt) = .done asked) (more : asked.takeLine.1 ≠ [])
    (line : Utf8.decode? asked.takeLine.1 = some text)
    (load : asked.takeLine.2.loadLine text = .ok loaded) (run : RunStepsAt 0 loaded n) :
    SessionStepsAt m n
  /-- It takes a step behind its next line. -/
  | later {fuel : Nat} {m asked next n : Machine}
    (prompt : m.write (Utf8.encode Machine.prompt) = .done asked) (more : asked.takeLine.1 ≠ [])
    (answer : asked.takeLine.2.answerLine fuel asked.takeLine.1 = some (.done next))
    (behind : SessionStepsAt next n) : SessionStepsAt m n

end Machine

namespace Operation

/-- What the caller of an operation sees to: a program to load has equally long tables. -/
def Permitted : Operation → Prop
  | load p => p.instructions.size = p.locations.size
  | _ => True

/-- An operation on the machine `m` ends and leaves the machine `m'`, be it that it succeeds or that
it fails. Loading that fails leaves the machine as it is. -/
def Leaves (m m' : Machine) : Operation → Prop
  | load p => m' = match m.load p with | .ok loaded => loaded | .error _ => m
  | loadTokens tokens => m' = match m.loadTokens tokens with | .ok loaded => loaded | .error _ => m
  | step => m' = m.step.machine
  | run => ∃ fuel o, m.run fuel = some o ∧ m' = o.machine
  | interact => ∃ fuel o, m.interact fuel = some o ∧ m' = o.machine
  | debug => ∃ fuel o, m.debug fuel = some o ∧ m' = o.machine
  | goTo pc => m' = m.goTo pc
  | feed bytes => m' = m.feed bytes
  | reset => m' = m.reset

/-- An operation on the machine `m`, which need not end, takes a step at the machine `n`. -/
def StepsAt (m n : Machine) : Operation → Prop
  | step => m.isRunning ∧ n = m
  | run => Machine.RunStepsAt 0 m n
  | interact => Machine.SessionStepsAt m n
  | debug => ∃ headed, m.write (Utf8.encode Machine.debugHeading) = .done headed ∧
      Machine.DebugStepsAt true headed n
  | load _ | loadTokens _ | goTo _ | feed _ | reset => False

end Operation

namespace Machine

/-- The machines that operations lead to, beginning with a machine without a program. -/
inductive Reachable : Machine → Prop where
  /-- A fresh machine. -/
  | fresh (budget : Option Nat) (input : Bytes) (output diagnostics : Sink) :
    Reachable (Machine.fresh budget input output diagnostics)
  /-- A machine that an operation leaves. -/
  | perform {m m' : Machine} {op : Operation} (before : Reachable m) (permitted : op.Permitted)
    (leaves : op.Leaves m m') : Reachable m'

/-! ## The program while instructions are executed

Stepping, writing and waiting leave the program alone. -/

section Code

variable {m m' n : Machine} {o : Outcome}

/-- A write to the output leaves the program as it is. -/
@[simp] lemma code_write (m : Machine) (bytes : Bytes) :
    (m.write bytes).machine.code = m.code :=
  congrArg Prod.fst (setup_write m bytes)

/-- A report on the diagnostics leaves the program as it is. -/
@[simp] lemma code_report (m : Machine) (bytes : Bytes) :
    (m.report bytes).machine.code = m.code :=
  congrArg Prod.fst (setup_report m bytes)

/-- Waiting takes a line off the input and changes nothing else. -/
lemma exists_await_eq (m : Machine) (waiting : Bool) :
    ∃ rest, (m.await waiting).2 = { m with input := rest } := by
  unfold await
  split
  · dsimp only
    split <;> exact ⟨_, rfl⟩
  · exact ⟨m.input, rfl⟩

/-- To wait for a line leaves the program as it is. -/
lemma code_await (m : Machine) (waiting : Bool) : (m.await waiting).2.code = m.code := by
  obtain ⟨rest, same⟩ := exists_await_eq m waiting
  rw [same]

/-- A step of the debugger leaves the program as it is. -/
lemma code_debugStep (m : Machine) (i : Instruction) (typed : Bool) :
    (m.debugStep i typed).machine.code = m.code := by
  unfold debugStep
  refine andThen_kept ?_ fun a same => ?_
  · split
    · rfl
    · exact code_write m _
  refine andThen_kept ((code_step a).trans same) fun b same => ?_
  refine andThen_kept ?_ fun c same => (code_write c _).trans same
  split
  · exact (code_write b _).trans same
  · exact same

/-- A step of the debugger that succeeds leaves the program as it is. -/
lemma code_of_debugStep {i : Instruction} {typed : Bool} (h : m.debugStep i typed = .done m') :
    m'.code = m.code := by
  rw [← code_debugStep m i typed, h]
  rfl

/-- No run changes the program. -/
lemma code_run {fuel : Nat} (h : m.run fuel = some o) : o.machine.code = m.code := by
  cases runEnds_of_runFrom h (affords_zero _) with
  | stopped visits => exact visits.code_eq
  | @failed k n last e visits _ _ step =>
    have kept := code_step n
    rw [step] at kept
    exact kept.trans visits.code_eq
  | spent visits => exact visits.code_eq

/-- The debugger leaves the program as it is, from any step on. -/
lemma code_debugFrom {fuel : Nat} {waiting : Bool} (h : m.debugFrom fuel waiting = some o) :
    o.machine.code = m.code := by
  induction fuel generalizing waiting m with
  | zero => cases h
  | succ fuel ih =>
    unfold debugFrom at h
    split at h
    · rename_i i l _ _
      have banner := code_write m (Utf8.encode (Machine.banner i l))
      split at h
      · rename_i e shown write
        cases h
        rwa [write] at banner
      · rename_i shown write
        rw [write] at banner
        have await := (code_await shown waiting).trans banner
        split at h
        · rename_i e awaited wait
          cases h
          rwa [wait] at await
        · rename_i typed awaited wait
          rw [wait] at await
          have step := (code_debugStep awaited i typed).trans await
          split at h
          · rename_i e last failed
            cases h
            rwa [failed] at step
          · rename_i next done
            rw [done] at step
            rw [ih h]
            exact step
    · cases h
      rfl

/-- The debugger leaves the program as it is. -/
lemma code_debug {fuel : Nat} (h : m.debug fuel = some o) : o.machine.code = m.code := by
  have heading := code_write m (Utf8.encode debugHeading)
  unfold debug at h
  split at h
  · rename_i e last failed
    cases h
    rwa [failed] at heading
  · rename_i headed done
    rw [done] at heading
    rw [code_debugFrom h]
    exact heading

end Code

/-! ## The program while others are loaded -/

section Loading

variable {m m' : Machine} (wf : m.code.WellFormed)
include wf

/-- A program loaded into a machine continues the program there, or takes its place if there is
none. -/
lemma wellFormed_of_load {p : Program} (tables : p.instructions.size = p.locations.size)
    (h : m.load p = .ok m') : m'.code.WellFormed := by
  unfold load at h
  split at h
  · cases h
  · rename_i ends
    have loaded : p.WellFormed := ⟨tables, Program.endAddress?_ne_none_iff.1 ends⟩
    split at h
    · rename_i empty
      cases h
      have none : m.code.instructions.size = 0 := by simpa [isEmpty, Program.isEmpty] using empty
      refine Program.WellFormed.append (p := { m.code with start := p.start }) ⟨wf.tables, ?_⟩
        loaded ?_
      · have := (Word.inRange_toInt p.start).2
        simpa [Program.length, none] using this
      · simp [Program.length, none]
    · split at h
      · rename_i follows
        cases h
        exact wf.append loaded (by rw [follows, toInt_nextAddress wf])
      · cases h

/-- Tokens that are loaded leave a well-formed program. -/
lemma wellFormed_of_loadTokens {tokens : List SourceToken} (h : m.loadTokens tokens = .ok m') :
    m'.code.WellFormed := by
  unfold loadTokens at h
  split at h
  · rename_i p resolved
    cases h
    refine wf.append (Resolution.wellFormed_of_resolve resolved) ?_
    rw [Resolution.start_of_resolve resolved, toInt_nextAddress wf]
  · cases h

/-- A line that is loaded leaves a well-formed program. -/
lemma wellFormed_of_loadLine {line : String} (h : m.loadLine line = .ok m') :
    m'.code.WellFormed := by
  unfold loadLine at h
  split at h
  · cases h
  · split at h
    · cases h
    · rename_i loaded load
      cases h
      exact (wellFormed_of_loadTokens wf load : loaded.code.WellFormed)

end Loading

/-! ## The program in a session

In a session nothing but the loading of lines changes the program. So what the loading of a line
keeps of a program is kept by the whole session, and holds wherever the session takes a step. -/

/-- What the loading of a line keeps of a program. -/
def KeptByLines (P : Program → Prop) : Prop :=
  ∀ (m loaded : Machine) (line : String), m.loadLine line = .ok loaded → P m.code → P loaded.code

/-- Lines leave a well-formed program well-formed. -/
lemma keptByLines_wellFormed : KeptByLines Program.WellFormed :=
  fun _ _ _ load wf => wellFormed_of_loadLine wf load

section Lines

variable {P : Program → Prop} {m n : Machine} (lines : KeptByLines P) (first : P m.code)
include lines first

/-- The answer to a line keeps what the loading of lines keeps. -/
lemma answerLine_kept {fuel : Nat} {line : Bytes} {o : Outcome}
    (h : m.answerLine fuel line = some o) : P o.machine.code := by
  unfold answerLine at h
  split at h
  · cases h
    exact first
  · split at h
    · cases h
      rw [code_report]
      exact first
    · rename_i loaded load
      obtain ⟨ran, run, rfl⟩ := Option.map_eq_some_iff.1 h
      rw [andThen_kept (code_run run) fun a same => (code_write a _).trans same]
      exact lines _ _ _ load first

/-- A session keeps what the loading of lines keeps. -/
theorem interact_kept {fuel : Nat} {o : Outcome} (h : m.interact fuel = some o) :
    P o.machine.code := by
  induction fuel generalizing m with
  | zero => cases h
  | succ fuel ih =>
    have prompt := code_write m (Utf8.encode Machine.prompt)
    unfold interact at h
    split at h
    · rename_i e last failed
      cases h
      rw [failed] at prompt
      exact prompt ▸ first
    · rename_i asked done
      rw [done] at prompt
      have asked_kept : P asked.takeLine.2.code := (prompt ▸ first : P asked.code)
      dsimp only at h
      split at h
      · cases h
        rw [code_write]
        exact asked_kept
      · split at h
        · cases h
        · rename_i e last answer
          cases h
          exact answerLine_kept lines asked_kept answer
        · rename_i next answer
          exact ih (answerLine_kept lines asked_kept answer) h

end Lines

/-! ## The program of every machine -/

/-- No operation spoils the program of a machine. -/
theorem wellFormed_of_leaves {m m' : Machine} (wf : m.code.WellFormed) {op : Operation}
    (permitted : op.Permitted) (leaves : op.Leaves m m') : m'.code.WellFormed := by
  cases op with
  | load p =>
    obtain rfl := leaves
    split
    · rename_i loaded load
      exact wellFormed_of_load wf permitted load
    · exact wf
  | loadTokens tokens =>
    obtain rfl := leaves
    split
    · rename_i loaded load
      exact wellFormed_of_loadTokens wf load
    · exact wf
  | step =>
    obtain rfl := leaves
    exact (code_step m).symm ▸ wf
  | run =>
    obtain ⟨fuel, o, run, rfl⟩ := leaves
    exact (code_run run).symm ▸ wf
  | interact =>
    obtain ⟨fuel, o, interact, rfl⟩ := leaves
    exact interact_kept keptByLines_wellFormed wf interact
  | debug =>
    obtain ⟨fuel, o, debug, rfl⟩ := leaves
    exact (code_debug debug).symm ▸ wf
  | goTo pc =>
    obtain rfl := leaves
    exact wf
  | feed bytes =>
    obtain rfl := leaves
    exact wf
  | reset =>
    obtain rfl := leaves
    exact Program.wellFormed_empty

/-- The program of every machine that can be reached is well-formed. -/
lemma wellFormed_of_reachable {m : Machine} (h : Reachable m) : m.code.WellFormed := by
  induction h with
  | fresh budget input output diagnostics => exact Program.wellFormed_empty
  | perform before permitted leaves ih => exact wellFormed_of_leaves ih permitted leaves

/-! ## The machines at which steps are taken -/

/-- A run takes its steps at instructions of the program it runs. -/
lemma isRunning_of_runStepsAt {taken : Nat} {m n : Machine} (h : RunStepsAt taken m n) :
    n.isRunning ∧ n.code = m.code := by
  induction h with
  | now running spent => exact ⟨running, rfl⟩
  | later running spent step more ih => exact ⟨ih.1, ih.2.trans (code_of_step step)⟩

/-- Where there is an instruction, the machine is in its program. -/
lemma isRunning_of_instruction? {m : Machine} {i : Instruction} (h : m.instruction? = some i) :
    m.isRunning := Program.isSome_instructionAt?_iff.1 (Option.isSome_iff_exists.2 ⟨i, h⟩)

/-- What the debugger does before a step leaves the program and the program counter alone. -/
lemma isRunning_of_debugStepsAt {waiting : Bool} {m n : Machine} (h : DebugStepsAt waiting m n) :
    n.isRunning ∧ n.code = m.code := by
  induction h with
  | @now waiting typed m shown awaited n i l instruction location banner await feed =>
    have running := isRunning_of_instruction? instruction
    obtain rfl := eq_of_write banner
    obtain ⟨rest, same⟩ := exists_await_eq { m with output := _ } waiting
    rw [await] at same
    obtain rfl := same
    split at feed
    · cases feed
      exact ⟨running, rfl⟩
    · obtain rfl := eq_of_write feed
      exact ⟨running, rfl⟩
  | @later waiting typed m shown awaited next n i l instruction location banner await step more
      ih =>
    have shown_code : shown.code = m.code := by rw [eq_of_write banner]
    have awaited_code := code_await shown waiting
    rw [await] at awaited_code
    exact ⟨ih.1, ih.2.trans ((code_of_debugStep step).trans (awaited_code.trans shown_code))⟩

section Steps

variable {P : Program → Prop} {m n : Machine} (lines : KeptByLines P)
include lines

/-- A session takes its steps at instructions, and keeps what the loading of lines keeps. -/
lemma sessionStepsAt_kept (h : SessionStepsAt m n) (first : P m.code) :
    n.isRunning ∧ P n.code := by
  induction h with
  | @now m asked loaded n text prompt more line load run =>
    have asked_kept : P asked.takeLine.2.code := by
      rw [eq_of_write prompt]
      exact first
    obtain ⟨running, same⟩ := isRunning_of_runStepsAt run
    exact ⟨running, same ▸ lines _ _ _ load asked_kept⟩
  | @later fuel m asked next n prompt more answer behind ih =>
    have asked_kept : P asked.takeLine.2.code := by
      rw [eq_of_write prompt]
      exact first
    exact ih (answerLine_kept lines asked_kept answer)

/-- Where an operation takes a step there is an instruction, in a program of which is kept what the
loading of a line keeps. -/
theorem stepsAt_kept {op : Operation} (steps : op.StepsAt m n) (first : P m.code) :
    n.isRunning ∧ P n.code := by
  cases op with
  | step =>
    obtain ⟨running, rfl⟩ := steps
    exact ⟨running, first⟩
  | run =>
    obtain ⟨running, same⟩ := isRunning_of_runStepsAt steps
    exact ⟨running, same ▸ first⟩
  | interact => exact sessionStepsAt_kept lines steps first
  | debug =>
    obtain ⟨headed, heading, steps⟩ := steps
    obtain rfl := eq_of_write heading
    obtain ⟨running, same⟩ := isRunning_of_debugStepsAt steps
    exact ⟨running, same ▸ first⟩
  | load p => exact steps.elim
  | loadTokens tokens => exact steps.elim
  | goTo pc => exact steps.elim
  | feed bytes => exact steps.elim
  | reset => exact steps.elim

end Steps

/-- Where an operation takes a step, there is an instruction, in a program that no operation
spoils. -/
lemma isRunning_of_stepsAt {m n : Machine} (wf : m.code.WellFormed) {op : Operation}
    (steps : op.StepsAt m n) : n.isRunning ∧ n.code.WellFormed :=
  stepsAt_kept keptByLines_wellFormed steps wf

/-- **Addresses never wrap.** In every machine that can be reached the tables are equally long and
the next free address is the base plus the number of instructions, as integers. The program counter
is at an instruction exactly if it lies between the two, and then the instruction and its location
are those at its distance from the base. Where an operation takes a step, the address behind the
instruction is one more. -/
theorem reachable_addresses {m : Machine} (h : Reachable m) :
    m.code.instructions.size = m.code.locations.size ∧
    m.code.start.toInt + m.code.length ≤ Int64.maxValue.toInt ∧
    m.nextAddress.toInt = m.code.start.toInt + m.code.length ∧
    (m.isRunning ↔
      m.code.start.toInt ≤ m.pc.toInt ∧ m.pc.toInt < m.nextAddress.toInt) ∧
    (m.instruction?.isSome ↔ m.isRunning) ∧
    (m.location?.isSome ↔ m.isRunning) ∧
    (m.isRunning → ∃ k : Nat, (k : Int) = m.pc.toInt - m.code.start.toInt ∧
      m.instruction? = m.code.instructions[k]? ∧ m.location? = m.code.locations[k]?) ∧
    ∀ (op : Operation) (n : Machine), op.StepsAt m n → (n.pc + 1).toInt = n.pc.toInt + 1 := by
  have wf := wellFormed_of_reachable h
  refine ⟨wf.tables, wf.fits, toInt_nextAddress wf, ?_, ?_, ?_, ?_, ?_⟩
  · rw [toInt_nextAddress wf]
    exact Program.isSome_indexOf?_iff
  · exact Program.isSome_instructionAt?_iff
  · exact wf.isSome_locationAt?_iff
  · intro running
    obtain ⟨k, index⟩ := Option.isSome_iff_exists.1 running
    have distance := (Program.indexOf?_eq_some_iff.1 index).1
    exact ⟨k, by omega, Program.instructionAt?_of_indexOf? index,
      Program.locationAt?_of_indexOf? index⟩
  · intro op n steps
    obtain ⟨running, same⟩ := isRunning_of_stepsAt wf steps
    exact toInt_pc_add_one same running

/-- A machine whose program counter is at the last instruction that there can be. -/
theorem reachable_addresses_last_address :
    ∃ m, Reachable m ∧ m.isRunning ∧ m.nextAddress = Int64.maxValue ∧
      (m.pc + 1).toInt = m.pc.toInt + 1 := by
  have permitted : Operation.Permitted
    (.load ⟨Int64.maxValue - 1, #[.op .dbg], #[⟨"f", 1, 1⟩]⟩) := rfl
  have loaded := Reachable.perform (.fresh none [] {} {}) permitted rfl
  obtain ⟨-, -, -, -, -, -, -, steps⟩ := reachable_addresses loaded
  exact ⟨_, loaded, by decide, by decide, steps .step _ ⟨by decide, rfl⟩⟩

end Machine

end StackAsm
