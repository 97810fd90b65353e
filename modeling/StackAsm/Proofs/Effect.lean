import StackAsm.Proofs.Run

set_option autoImplicit false

/-!
# What an instruction does

The stack alone decides what an instruction does that does not read: where it stands, what is left
of the input, what was written before, and how much more may be written do not matter to it. So two
machines with equal stacks do the same, whatever their programs and streams are.

## Main definitions

* `StackAsm.Instruction.reads` — whether an instruction looks at the input.
* `StackAsm.Instruction.compute` — what an instruction makes of a stack.
* `StackAsm.Machine.carryOut` — what becomes of a machine on which an instruction has its effect.
* `StackAsm.Machine.Silent` — a program that does not look at the input.

## Main results

* `StackAsm.Machine.execute_eq_carryOut` — a machine executes an instruction by its effect.
* `StackAsm.Machine.execute_of_isJump` — a jump only looks below the address on top.
* `StackAsm.Instruction.target?_of_not_isJump` — only jumps lead elsewhere than to the next address.
* `StackAsm.Instruction.compute_of_isJump` — the address on top decides only where a jump leads.
-/

namespace StackAsm

/-- What an instruction makes of a stack. -/
structure Effect where
  /-- The stack that it leaves. -/
  stack : List Word
  /-- The address that it jumps to, if it jumps. -/
  target? : Option Address

namespace Instruction

/-- Whether an instruction looks at the input. -/
def reads : Instruction → Bool
  | op .read | op .cread => true
  | _ => false

/-- The effect of an instruction that does not look at the input, or its error, which quotes the
place that the instruction comes from. -/
def compute (i : Instruction) (stack : List Word) : Except (Location → RuntimeError) Effect :=
  let next (s : List Word) : Except (Location → RuntimeError) Effect := .ok ⟨s, none⟩
  let branch (taken : Bool) (target : Address) (s : List Word) :
      Except (Location → RuntimeError) Effect := .ok ⟨s, if taken then some target else none⟩
  match i with
  | push n => next (n :: stack)
  | op opcode =>
    match opcode, stack with
    | .add, b :: a :: s => next ((a + b) :: s)
    | .sub, b :: a :: s => next ((a - b) :: s)
    | .mul, b :: a :: s => next ((a * b) :: s)
    | .div, b :: a :: s => if b = 0 then .error .divisionByZero else next ((a / b) :: s)
    | .jmp, target :: s => branch true target s
    | .jeq, target :: b :: a :: s => branch (a = b) target s
    | .jnq, target :: b :: a :: s => branch (a ≠ b) target s
    | .jgt, target :: b :: a :: s => branch (a > b) target s
    | .jlt, target :: b :: a :: s => branch (a < b) target s
    | .get, index :: s =>
      match slot? s index with
      | some k => next (s.get k :: s)
      | none => .error (.invalidIndex index s.length)
    | .set, index :: value :: s =>
      match slot? s index with
      | some k => next (s.set k value)
      | none => .error (.invalidIndex index s.length)
    | .dup, a :: s => next (a :: a :: s)
    | .pop, _ :: s => next s
    | .ppos, s => next (Int64.ofNat s.length :: s)
    | .size, s => next (Int64.ofNat s.length :: s)
    | .swap, b :: a :: s => next (a :: b :: s)
    | .dbg, s => next s
    | .print, _ :: s => next s
    | .cprint, _ :: s => next s
    | _, _ => .error (.stackUnderflow i)

variable {i : Instruction} {stack : List Word}

/-- Two opcodes look at the input. -/
lemma reads_iff : i.reads ↔ i = .op .read ∨ i = .op .cread := by
  rcases i with n | o
  · simp [reads]
  · cases o <;> simp [reads]

/-- An instruction with too few operands has no effect. -/
lemma compute_of_short (short : stack.length < i.effect.1) :
    i.compute stack = .error (.stackUnderflow i) := by
  cases i with
  | push n => exact absurd short (Nat.not_lt_zero _)
  | op o =>
    cases o
    case ppos | size | dbg | read | cread => exact absurd short (Nat.not_lt_zero _)
    case jmp | get | dup | pop | print | cprint =>
      obtain rfl : stack = [] := List.eq_nil_of_length_eq_zero (Nat.lt_one_iff.1 short)
      rfl
    case add | sub | mul | div | set | swap =>
      rcases stack with _ | ⟨b, _ | ⟨a, s⟩⟩
      · rfl
      · rfl
      · simp only [List.length_cons, effect, Opcode.effect] at short
        omega
    case jeq | jnq | jgt | jlt =>
      rcases stack with _ | ⟨t, _ | ⟨b, _ | ⟨a, s⟩⟩⟩
      · rfl
      · rfl
      · rfl
      · simp only [List.length_cons, effect, Opcode.effect] at short
        omega

/-- A jump does the same with every address on top of the stack, except that it leads there. -/
theorem compute_of_isJump (jump : i.isJump) (s : List Word) :
    (∀ a, i.compute (a :: s) = .error (.stackUnderflow i)) ∨
      ∃ (rest : List Word) (taken : Bool),
        ∀ a, i.compute (a :: s) = .ok ⟨rest, if taken then some a else none⟩ := by
  cases i with
  | push n => cases jump
  | op o =>
    cases o
    case jmp => exact .inr ⟨s, true, fun a => rfl⟩
    case jeq | jnq | jgt | jlt =>
      rcases s with _ | ⟨b, _ | ⟨a, s⟩⟩
      · exact .inl fun t => rfl
      · exact .inl fun t => rfl
      · exact .inr ⟨s, _, fun t => rfl⟩
    all_goals cases jump

/-- An instruction that is no jump leads to the next address. -/
theorem target?_of_not_isJump (other : ¬ i.isJump) {effect : Effect}
    (computes : i.compute stack = .ok effect) : effect.target? = none := by
  by_cases short : stack.length < i.effect.1
  · rw [compute_of_short short] at computes
    cases computes
  rw [Nat.not_lt] at short
  cases i with
  | push n =>
    cases computes
    rfl
  | op o =>
    cases o
    case add | sub | mul | swap =>
      obtain ⟨b, a, s, rfl⟩ := Machine.exists_operands_two short
      cases computes
      rfl
    case div =>
      obtain ⟨b, a, s, rfl⟩ := Machine.exists_operands_two short
      simp only [compute] at computes
      split at computes
      · cases computes
      · cases computes
        rfl
    case dup | pop | print | cprint =>
      obtain ⟨a, s, rfl⟩ := Machine.exists_operand short
      cases computes
      rfl
    case get =>
      obtain ⟨index, s, rfl⟩ := Machine.exists_operand short
      simp only [compute] at computes
      split at computes
      · cases computes
        rfl
      · cases computes
    case set =>
      obtain ⟨index, value, s, rfl⟩ := Machine.exists_operands_two short
      simp only [compute] at computes
      split at computes
      · cases computes
        rfl
      · cases computes
    case ppos | size | dbg =>
      cases computes
      rfl
    case jmp | jeq | jnq | jgt | jlt => exact absurd rfl other
    case read | cread => cases computes

end Instruction

namespace Machine

/-- What becomes of a machine on which the instruction `i`, which comes from `l`, has its effect: it
writes what `i` writes, and goes on at the address that `i` jumps to, or else at the next one. -/
def carryOut (m : Machine) (i : Instruction) (l : Location) :
    Except (Location → RuntimeError) Effect → Outcome
  | .error e => .failed (e l) m
  | .ok effect =>
    ((m.write (i.printed m.stack)).andThen fun m' => m'.report (i.shown m.stack)).andThen fun m' =>
      .done { m' with stack := effect.stack, pc := effect.target?.getD (m.pc + 1) }

variable {m : Machine} {i : Instruction} {l : Location}

/-- To write nothing changes nothing. -/
lemma write_nil (m : Machine) : m.write [] = .done m := by
  have fits : m.output.fits [] := by
    unfold Sink.fits
    split <;> simp
  rw [write, if_pos fits, Sink.write_nil]

/-- To report nothing changes nothing. -/
lemma report_nil (m : Machine) : m.report [] = .done m := by
  have fits : m.diagnostics.fits [] := by
    unfold Sink.fits
    split <;> simp
  rw [report, if_pos fits, Sink.write_nil]

/-- An instruction that writes nothing does no more than its effect. -/
lemma carryOut_of_quiet (printed : i.printed m.stack = []) (shown : i.shown m.stack = [])
    (effect : Effect) :
    m.carryOut i l (.ok effect) =
      .done { m with stack := effect.stack, pc := effect.target?.getD (m.pc + 1) } := by
  simp only [carryOut, printed, shown, write_nil, report_nil, Outcome.andThen_done]

/-- Without a limit to the sinks nothing but the lack of an effect fails. -/
lemma carryOut_of_unlimited (unlimited : m.Unlimited) (effect : Effect) :
    m.carryOut i l (.ok effect) =
      .done { m with
        output := m.output.write (i.printed m.stack)
        diagnostics := m.diagnostics.write (i.shown m.stack)
        stack := effect.stack
        pc := effect.target?.getD (m.pc + 1) } := by
  have printed : { m with output := m.output.write (i.printed m.stack) }.Unlimited :=
    unlimited.of_setup rfl
  rw [carryOut, write_of_unlimited unlimited, Outcome.andThen_done, report_of_unlimited printed,
    Outcome.andThen_done]

/-- **A machine executes an instruction by its effect** on the stack. -/
theorem execute_eq_carryOut (silent : ¬ i.reads) :
    m.execute i l = m.carryOut i l (i.compute m.stack) := by
  by_cases short : m.stack.length < i.effect.1
  · rw [execute_of_short short, Instruction.compute_of_short short]
    rfl
  rw [Nat.not_lt] at short
  cases i with
  | push n =>
    rw [Instruction.compute, carryOut_of_quiet rfl rfl]
    rfl
  | op o =>
    cases o
    case add | sub | mul | swap =>
      obtain ⟨b, a, s, top⟩ := exists_operands_two short
      simp only [execute, Instruction.compute, top]
      rw [carryOut_of_quiet rfl rfl]
      rfl
    case div =>
      obtain ⟨b, a, s, top⟩ := exists_operands_two short
      simp only [execute, Instruction.compute, top]
      split
      · rfl
      · rw [carryOut_of_quiet rfl rfl]
        rfl
    case jmp | dup | pop =>
      obtain ⟨a, s, top⟩ := exists_operand short
      simp only [execute, Instruction.compute, top]
      rw [carryOut_of_quiet rfl rfl]
      rfl
    case jeq | jnq | jgt | jlt =>
      obtain ⟨t, b, a, s, top⟩ := exists_operands_three short
      simp only [execute, Instruction.compute, top, branch]
      rw [carryOut_of_quiet rfl rfl]
      split <;> rfl
    case get =>
      obtain ⟨index, s, top⟩ := exists_operand short
      simp only [execute, Instruction.compute, top]
      cases slot? s index with
      | some k =>
        rw [carryOut_of_quiet rfl rfl]
        rfl
      | none => rfl
    case set =>
      obtain ⟨index, value, s, top⟩ := exists_operands_two short
      simp only [execute, Instruction.compute, top]
      cases slot? s index with
      | some k =>
        rw [carryOut_of_quiet rfl rfl]
        rfl
      | none => rfl
    case ppos | size =>
      rw [Instruction.compute, carryOut_of_quiet rfl rfl]
      rfl
    case dbg =>
      simp only [execute, Instruction.compute, carryOut, Instruction.printed, Instruction.shown,
        write_nil, Outcome.andThen_done, stackText]
      unfold report
      split <;> rfl
    case print | cprint =>
      obtain ⟨a, s, top⟩ := exists_operand short
      simp only [execute, Instruction.compute, top, carryOut, Instruction.printed,
        Instruction.shown]
      unfold write
      split
      · simp only [Outcome.andThen_done, report_nil]
        rfl
      · rfl
    case read | cread => exact absurd rfl silent

/-- An instruction that does not look at the input leaves it alone. -/
lemma input_execute_of_not_reads (silent : ¬ i.reads) :
    (m.execute i l).machine.input = m.input := by
  rw [execute_eq_carryOut silent]
  cases i.compute m.stack with
  | error e => rfl
  | ok effect =>
    refine andThen_kept (andThen_kept ?_ fun n same => ?_) fun n same => same
    · unfold write
      split <;> rfl
    · rw [← same]
      unfold report
      split <;> rfl

/-- A program none of whose instructions looks at the input. -/
def Silent (p : Program) : Prop := ∀ i ∈ p.instructions.toList, ¬ i.reads

/-- At no address of a silent program does an instruction look at the input. -/
lemma Silent.not_reads {p : Program} (silent : Silent p) {pc : Address}
    (found : p.instructionAt? pc = some i) : ¬ i.reads := by
  obtain ⟨k, -, found⟩ := Option.bind_eq_some_iff.1 found
  rw [← Array.getElem?_toList] at found
  exact silent i (List.mem_of_getElem? found)

/-- **A jump only looks below the address on top**: with any address there it fails, or it leaves
the same stack and is taken or not. -/
theorem execute_of_isJump (jump : i.isJump) (l : Location) (s : List Word) :
    (∀ (m : Machine) (a : Address), m.stack = a :: s →
      m.execute i l = .failed (.stackUnderflow i l) m) ∨
    ∃ (rest : List Word) (taken : Bool), ∀ (m : Machine) (a : Address), m.stack = a :: s →
      m.execute i l = .done { m with stack := rest, pc := if taken then a else m.pc + 1 } := by
  obtain ⟨silent, quiet⟩ : ¬ i.reads ∧ ∀ stack, i.printed stack = [] ∧ i.shown stack = [] := by
    cases i with
    | push n => cases jump
    | op o =>
      cases o
      case jmp | jeq | jnq | jgt | jlt => exact ⟨nofun, fun _ => ⟨rfl, rfl⟩⟩
      all_goals cases jump
  rcases Instruction.compute_of_isJump jump s with underflow | ⟨rest, taken, leads⟩
  · refine .inl fun m a top => ?_
    rw [execute_eq_carryOut silent, top, underflow a]
    rfl
  · refine .inr ⟨rest, taken, fun m a top => ?_⟩
    rw [execute_eq_carryOut silent, top, leads a, carryOut_of_quiet (quiet _).1 (quiet _).2]
    cases taken <;> rfl

end Machine

end StackAsm
