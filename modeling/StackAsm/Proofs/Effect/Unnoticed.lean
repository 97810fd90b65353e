import StackAsm.Proofs.Streams

set_option autoImplicit false

/-!
# Changes that instructions do not notice

An instruction works on the stack, the program counter and the streams of a machine. So a change of
something else, such as the budget, may be made before an instruction or after it; and so may a
change of the input, unless the instruction reads.

## Main definitions

* `StackAsm.Machine.Unnoticed` — a change of machines that instructions do not notice.

## Main results

* `StackAsm.Machine.carryOut_map`, `StackAsm.Machine.step_map` — an effect and a step commute with a
  change if all that they are made of does.
* `StackAsm.Machine.Unnoticed.execute` — an instruction that does not read commutes with it.
* `StackAsm.Machine.Unnoticed.step` — a step commutes with it, if an instruction that reads does.
-/

namespace StackAsm

/-- A change of the machine can be made behind two operations if it can be made behind each. -/
lemma Outcome.map_andThen {f : Machine → Machine} {next next' : Machine → Outcome}
    (commutes : ∀ m, (next m).map f = next' (f m)) (o : Outcome) :
    (o.andThen next).map f = (o.map f).andThen next' := by
  cases o with
  | done m => exact commutes m
  | failed e m => rfl

namespace Machine

/-! ## Changes behind an instruction -/

section Changes

variable {f : Machine → Machine} {m : Machine} {i : Instruction} {l : Location}
  (pc : (f m).pc = m.pc)
include pc

/-- A change may be made before an effect or after it if that is so for all that the effect is made
of: what is written, and how the program counter and the stack move. -/
theorem carryOut_map (stack : (f m).stack = m.stack)
    (written : (f m).write (i.printed m.stack) = (m.write (i.printed m.stack)).map f)
    (shown : ∀ n, (f n).report (i.shown m.stack) = (n.report (i.shown m.stack)).map f)
    (moved : ∀ n pc stack, f { n with pc := pc, stack := stack } =
      { f n with pc := pc, stack := stack })
    (computed : Except (Location → RuntimeError) Effect) :
    (f m).carryOut i l computed = (m.carryOut i l computed).map f := by
  cases computed with
  | error e => rfl
  | ok effect =>
    have streams : ((m.write (i.printed m.stack)).andThen fun n =>
          n.report (i.shown m.stack)).map f =
        ((f m).write (i.printed m.stack)).andThen fun n => n.report (i.shown m.stack) := by
      rw [written]
      exact Outcome.map_andThen (fun n => (shown n).symm) _
    let next : Address := effect.target?.getD (m.pc + 1)
    have moves (n : Machine) :
        (Outcome.done { n with pc := next, stack := effect.stack }).map f =
          .done { f n with pc := next, stack := effect.stack } :=
      congrArg Outcome.done (moved n next effect.stack)
    simp only [carryOut, stack, pc]
    rw [← streams]
    exact (Outcome.map_andThen moves _).symm

/-- A change may be made before a step or after it if that is so for the instruction there. -/
theorem step_map (code : (f m).code = m.code)
    (execute : ∀ i l, m.instruction? = some i → m.location? = some l →
      (f m).execute i l = (m.execute i l).map f) :
    (f m).step = m.step.map f := by
  have instruction : (f m).instruction? = m.instruction? := by
    rw [instruction?, instruction?, code, pc]
  have location : (f m).location? = m.location? := by
    rw [location?, location?, code, pc]
  unfold step
  rw [instruction, location, pc]
  cases found : m.instruction? with
  | none => rfl
  | some i =>
    cases place : m.location? with
    | none => rfl
    | some l => exact execute i l found place

end Changes

/-! ## Changes that only what reads may notice -/

/-- A change of machines that instructions do not notice, unless they read: it leaves alone what
they look at, and it does not matter whether it is made before what they change or after it. -/
structure Unnoticed (f : Machine → Machine) : Prop where
  /-- The program stays as it is. -/
  code (m : Machine) : (f m).code = m.code
  /-- The program counter stays as it is. -/
  pc (m : Machine) : (f m).pc = m.pc
  /-- The stack stays as it is. -/
  stack (m : Machine) : (f m).stack = m.stack
  /-- The output stays as it is. -/
  output (m : Machine) : (f m).output = m.output
  /-- The diagnostics stay as they are. -/
  diagnostics (m : Machine) : (f m).diagnostics = m.diagnostics
  /-- The program counter and the stack may move before it or after it. -/
  moved (m : Machine) (pc : Address) (stack : List Word) :
    f { m with pc := pc, stack := stack } = { f m with pc := pc, stack := stack }
  /-- The output may be written before it or after it. -/
  written (m : Machine) (output : Sink) :
    f { m with output := output } = { f m with output := output }
  /-- The diagnostics may be written before it or after it. -/
  shown (m : Machine) (diagnostics : Sink) :
    f { m with diagnostics := diagnostics } = { f m with diagnostics := diagnostics }

namespace Unnoticed

variable {f : Machine → Machine} (unnoticed : Unnoticed f) {m : Machine} {i : Instruction}
  {l : Location}
include unnoticed

/-- A write to the output does not notice the change. -/
lemma write (m : Machine) (bytes : Bytes) : (f m).write bytes = (m.write bytes).map f := by
  unfold Machine.write
  rw [unnoticed.output, ← unnoticed.written]
  split <;> rfl

/-- A report on the diagnostics does not notice the change. -/
lemma report (m : Machine) (bytes : Bytes) : (f m).report bytes = (m.report bytes).map f := by
  unfold Machine.report
  rw [unnoticed.diagnostics, ← unnoticed.shown]
  split <;> rfl

/-- **An instruction that does not read does the same before the change and after it.** -/
theorem execute (silent : ¬ i.reads) : (f m).execute i l = (m.execute i l).map f := by
  rw [execute_eq_carryOut silent, execute_eq_carryOut silent, unnoticed.stack]
  exact carryOut_map (unnoticed.pc m) (unnoticed.stack m) (unnoticed.write m _)
    (fun n => unnoticed.report n _) unnoticed.moved _

/-- **A step does the same before the change and after it**, if an instruction that reads does. -/
theorem step (reading : ∀ i l, m.instruction? = some i → m.location? = some l → i.reads →
      (f m).execute i l = (m.execute i l).map f) :
    (f m).step = m.step.map f := by
  refine step_map (unnoticed.pc m) (unnoticed.code m) fun i l found place => ?_
  by_cases reads : i.reads
  · exact reading i l found place reads
  · exact unnoticed.execute reads

end Unnoticed

end Machine

end StackAsm
