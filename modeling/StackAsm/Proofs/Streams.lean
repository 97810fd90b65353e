import StackAsm.Proofs.Effect
import StackAsm.Proofs.Reachable

set_option autoImplicit false

/-!
# Machines with other streams

What is left of the input of a machine, and what was written to its sinks before, matter only to
instructions that read. So a machine that does not read takes the same steps with other streams, and
writes the same behind what was written there.

## Main definitions

* `StackAsm.Machine.withStreams` — a machine with other streams.
* `StackAsm.Writing` — what was written to the two sinks; `StackAsm.Machine.Wrote` — what a machine
  has written.
* `StackAsm.Machine.Agree` — an operation comes to the same on a machine with other streams.

## Main results

* `StackAsm.Machine.step_withStreams` — a step comes to the same.
* `StackAsm.Machine.runFrom_withStreams` — a run comes to the same.
-/

namespace StackAsm

/-- What was written to the two sinks of a machine. -/
structure Writing where
  /-- The bytes written to the output. -/
  output : Bytes
  /-- The bytes written to the diagnostics. -/
  diagnostics : Bytes
  deriving DecidableEq, Repr

/-- The outcome of an operation with another machine left. -/
def Outcome.map (f : Machine → Machine) : Outcome → Outcome
  | done m => done (f m)
  | failed e m => failed e (f m)

/-- What is left is the changed machine. -/
@[simp] lemma Outcome.machine_map (f : Machine → Machine) (o : Outcome) :
    (o.map f).machine = f o.machine := by
  cases o <;> rfl

/-- The error is the same. -/
@[simp] lemma Outcome.error?_map (f : Machine → Machine) (o : Outcome) :
    (o.map f).error? = o.error? := by
  cases o <;> rfl

/-- Bytes can be written in two parts where there is no limit. -/
lemma Sink.write_append_of_unlimited {s : Sink} (unlimited : s.capacity = none)
    (bytes more : Bytes) : s.write (bytes ++ more) = (s.write bytes).write more :=
  write_append (fits_of_unlimited unlimited bytes)

namespace Machine

/-- A machine with other streams. -/
def withStreams (m : Machine) (input : Bytes) (output diagnostics : Sink) : Machine :=
  { m with input := input, output := output, diagnostics := diagnostics }

/-- The machine `m'` is one that `m` has become while it wrote `w`. -/
structure Wrote (m : Machine) (w : Writing) (m' : Machine) : Prop where
  /-- What was written to the output. -/
  output : m'.output = m.output.write w.output
  /-- What was written to the diagnostics. -/
  diagnostics : m'.diagnostics = m.diagnostics.write w.diagnostics

variable {m m' : Machine} {input : Bytes} {output diagnostics : Sink} {w : Writing}

/-- What was written does not limit the sinks. -/
lemma Wrote.unlimited (wrote : m.Wrote w m') (unlimited : m.Unlimited) : m'.Unlimited :=
  ⟨(congrArg Sink.capacity wrote.output).trans unlimited.output,
    (congrArg Sink.capacity wrote.diagnostics).trans unlimited.diagnostics⟩

/-- What was written first and what was written then is written one behind the other. -/
lemma Wrote.trans {n : Machine} {v : Writing} (wrote : m.Wrote v m') (more : m'.Wrote w n)
    (unlimited : m.Unlimited) :
    m.Wrote ⟨v.output ++ w.output, v.diagnostics ++ w.diagnostics⟩ n where
  output := by
    rw [more.output, wrote.output, Sink.write_append_of_unlimited unlimited.output]
  diagnostics := by
    rw [more.diagnostics, wrote.diagnostics,
      Sink.write_append_of_unlimited unlimited.diagnostics]

/-- What a machine has written is behind what was written before. -/
lemma Wrote.written (wrote : m.Wrote w m') (unlimited : m.Unlimited) :
    m'.output.written.toList = m.output.written.toList ++ w.output ∧
      m'.diagnostics.written.toList = m.diagnostics.written.toList ++ w.diagnostics := by
  rw [wrote.output, wrote.diagnostics, Sink.written_write_of_unlimited unlimited.output,
    Sink.written_write_of_unlimited unlimited.diagnostics]
  exact ⟨rfl, rfl⟩

/-- A machine has become another one in one way of writing. -/
lemma Wrote.unique {v : Writing} (wrote : m.Wrote v m') (wrote' : m.Wrote w m')
    (unlimited : m.Unlimited) : v = w := by
  obtain ⟨output, diagnostics⟩ := wrote.written unlimited
  obtain ⟨output', diagnostics'⟩ := wrote'.written unlimited
  have same : v.output = w.output := List.append_cancel_left (output.symm.trans output')
  have same' : v.diagnostics = w.diagnostics :=
    List.append_cancel_left (diagnostics.symm.trans diagnostics')
  cases v
  cases w
  cases same
  cases same'
  rfl

/-- An operation comes to the same on the machine `m` and on it with other streams: it is finished
on neither of them, or it is finished on both and leaves the same but for the streams. Nothing is
taken off either input, and the same is written on both machines. -/
inductive Agree (m : Machine) (input : Bytes) (output diagnostics : Sink) :
    Option Outcome → Option Outcome → Prop where
  /-- It is finished on neither machine. -/
  | unfinished : Agree m input output diagnostics none none
  /-- It is finished on both machines. -/
  | finished {o o' : Outcome} {w : Writing} (unread : o.machine.input = m.input)
      (wrote : m.Wrote w o.machine)
      (same : o' = o.map fun n =>
        n.withStreams input (output.write w.output) (diagnostics.write w.diagnostics)) :
    Agree m input output diagnostics (some o) (some o')

/-- What writes nothing agrees if it leaves the same but for the streams. -/
lemma Agree.of_quiet {o o' : Outcome} (unread : o.machine.input = m.input)
    (out : o.machine.output = m.output) (diag : o.machine.diagnostics = m.diagnostics)
    (same : o' = o.map fun n => n.withStreams input output diagnostics) :
    Agree m input output diagnostics (some o) (some o') :=
  .finished (w := ⟨[], []⟩) unread ⟨by rw [out, Sink.write_nil], by rw [diag, Sink.write_nil]⟩
    (by simpa only [Sink.write_nil] using same)

/-- What agrees on a machine agrees on every machine with the same streams. -/
lemma Agree.of_streams {o o' : Option Outcome}
    (agree : Agree m' input output diagnostics o o') (unread : m'.input = m.input)
    (out : m'.output = m.output) (diag : m'.diagnostics = m.diagnostics) :
    Agree m input output diagnostics o o' := by
  cases agree with
  | unfinished => exact .unfinished
  | finished unread' wrote same =>
    exact .finished (unread'.trans unread) ⟨out ▸ wrote.output, diag ▸ wrote.diagnostics⟩ same

/-- What agrees behind a step agrees with the step. -/
lemma Agree.behind {o o' : Option Outcome} (unlimited : m.Unlimited)
    (unlimited' : (m.withStreams input output diagnostics).Unlimited)
    (unread : m'.input = m.input) (wrote : m.Wrote w m')
    (agree : Agree m' input (output.write w.output) (diagnostics.write w.diagnostics) o o') :
    Agree m input output diagnostics o o' := by
  cases agree with
  | unfinished => exact .unfinished
  | finished unread' more same =>
    have out : output.capacity = none := unlimited'.output
    have diag : diagnostics.capacity = none := unlimited'.diagnostics
    refine .finished (unread'.trans unread) (wrote.trans more unlimited) ?_
    simp only [same, Sink.write_append_of_unlimited out, Sink.write_append_of_unlimited diag]

/-- What agrees still does if a text is written behind it that the streams do not matter to. -/
lemma Agree.write {o o' : Option Outcome} (unlimited : m.Unlimited)
    (unlimited' : (m.withStreams input output diagnostics).Unlimited) (text : Machine → Bytes)
    (same : ∀ n input output diagnostics, text (n.withStreams input output diagnostics) = text n)
    (agree : Agree m input output diagnostics o o') :
    Agree m input output diagnostics (o.map fun o => o.andThen fun n => n.write (text n))
      (o'.map fun o => o.andThen fun n => n.write (text n)) := by
  cases agree with
  | unfinished => exact .unfinished
  | @finished o _ w unread wrote alike =>
    rw [alike]
    cases o with
    | failed e last => exact .finished unread wrote rfl
    | done n =>
      have sinks : n.Unlimited := wrote.unlimited unlimited
      have sinks' : (n.withStreams input (output.write w.output)
          (diagnostics.write w.diagnostics)).Unlimited :=
        ⟨unlimited'.output, unlimited'.diagnostics⟩
      have written : m.Wrote ⟨w.output ++ text n, w.diagnostics⟩
          { n with output := n.output.write (text n) } := by
        refine ⟨?_, wrote.diagnostics⟩
        rw [Sink.write_append_of_unlimited unlimited.output, ← wrote.output]
        rfl
      simp only [Option.map_some, Outcome.map, Outcome.andThen_done, write_of_unlimited sinks,
        write_of_unlimited sinks', same]
      refine .finished unread written ?_
      have out : output.capacity = none := unlimited'.output
      simp only [Outcome.map, Sink.write_append_of_unlimited out]
      rfl

/-! ## Steps -/

section Unlimited

variable (unlimited : m.Unlimited)
  (unlimited' : (m.withStreams input output diagnostics).Unlimited)
include unlimited unlimited'

/-- An instruction does the same with other streams, unless there is something to read for it. -/
lemma execute_withStreams {i : Instruction} (l : Location)
    (quiet : i.reads → m.input = [] ∧ input = []) :
    Agree m input output diagnostics (some (m.execute i l))
      (some ((m.withStreams input output diagnostics).execute i l)) := by
  by_cases silent : i.reads
  · obtain ⟨empty, rfl⟩ := quiet silent
    rcases i with n | o
    · cases silent
    cases o
    case read =>
      have fails : (Numeral.split []).value = .error .expectedInteger := rfl
      simp only [execute, readInteger, empty, withStreams, fails]
      exact .of_quiet empty.symm rfl rfl rfl
    case cread =>
      simp only [execute, readByte, empty, withStreams]
      exact .of_quiet rfl rfl rfl rfl
    all_goals cases silent
  · rw [execute_eq_carryOut silent, execute_eq_carryOut silent]
    have stack : (m.withStreams input output diagnostics).stack = m.stack := rfl
    rw [stack]
    cases computes : i.compute m.stack with
    | error e => exact .of_quiet rfl rfl rfl rfl
    | ok effect =>
      rw [carryOut_of_unlimited unlimited, carryOut_of_unlimited unlimited']
      exact .finished (w := ⟨i.printed m.stack, i.shown m.stack⟩) rfl ⟨rfl, rfl⟩ rfl

/-- **A step comes to the same with other streams**, unless there is something to read for it. -/
theorem step_withStreams
    (quiet : ∀ i, m.instruction? = some i → i.reads → m.input = [] ∧ input = []) :
    Agree m input output diagnostics (some m.step)
      (some (m.withStreams input output diagnostics).step) := by
  have instruction : (m.withStreams input output diagnostics).instruction? = m.instruction? := rfl
  have location : (m.withStreams input output diagnostics).location? = m.location? := rfl
  unfold step
  rw [instruction, location]
  cases found : m.instruction? with
  | none => exact .of_quiet rfl rfl rfl rfl
  | some i =>
    cases m.location? with
    | none => exact .of_quiet rfl rfl rfl rfl
    | some l => exact execute_withStreams unlimited unlimited' l (quiet i found)

/-! ## Runs -/

/-- **A run comes to the same with other streams** if there is nothing to read for the steps that it
takes. -/
theorem runFrom_withStreams (fuel taken : Nat)
    (quiet : ∀ n i, RunStepsAt taken m n → n.instruction? = some i → i.reads →
      m.input = [] ∧ input = []) :
    Agree m input output diagnostics (m.runFrom fuel taken)
      ((m.withStreams input output diagnostics).runFrom fuel taken) := by
  induction fuel generalizing m output diagnostics taken with
  | zero => exact .unfinished
  | succ fuel ih =>
    have running : (m.withStreams input output diagnostics).isRunning = m.isRunning := rfl
    have spent : (m.withStreams input output diagnostics).spent? taken = m.spent? taken := rfl
    unfold Machine.runFrom
    rw [running, spent]
    by_cases runs : m.isRunning
    · rw [if_pos runs, if_pos runs]
      cases left : m.spent? taken with
      | some limit => exact .of_quiet rfl rfl rfl rfl
      | none =>
        have agree := step_withStreams unlimited unlimited' fun i found =>
          quiet m i (.now runs left) found
        cases agree with
        | @finished _ _ w unread wrote same =>
          dsimp only
          rw [same]
          cases step : m.step with
          | failed e last =>
            rw [step] at unread wrote
            exact .finished unread wrote rfl
          | done next =>
            rw [step] at unread wrote
            have sinks : (next.withStreams input (output.write w.output)
                (diagnostics.write w.diagnostics)).Unlimited :=
              ⟨unlimited'.output, unlimited'.diagnostics⟩
            refine (ih (wrote.unlimited unlimited) sinks (taken + 1) ?_).behind unlimited
              unlimited' unread wrote
            intro n i steps found reads
            obtain ⟨empty, none⟩ := quiet n i (.later runs left step steps) found reads
            exact ⟨unread.trans empty, none⟩
    · rw [if_neg runs, if_neg runs]
      exact .of_quiet rfl rfl rfl rfl

end Unlimited

end Machine

end StackAsm
