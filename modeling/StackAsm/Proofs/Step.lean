import StackAsm.Machine.Step
import StackAsm.Proofs.Numeral

set_option autoImplicit false

/-!
# How an instruction fails

Every instruction checks all it needs before it takes a value from the stack, and moves the program
counter last. So an instruction that fails leaves the stack, the program counter and the program as
they were; only what it has read is gone and what a full sink still took is written.

## Main definitions

* `StackAsm.Instruction.printed`, `StackAsm.Instruction.shown` — the bytes that an instruction
  writes.
* `StackAsm.Machine.Fails` — the ways in which an instruction fails.

## Main results

* `StackAsm.Machine.fails_of_execute` — there are no other ways.
* `StackAsm.Machine.streams_of_execute` — what an instruction that does not fail has written.
* `StackAsm.Machine.step_failed_unchanged` — what a failed step leaves.
-/

namespace StackAsm

/-! ## What an instruction writes -/

/-- The bytes that an instruction writes to the output. -/
def Instruction.printed : Instruction → List Word → Bytes
  | .op .print, a :: _ => Utf8.encode a.text
  | .op .cprint, a :: _ => [UInt8.ofNat (a.toInt % 256).toNat]
  | _, _ => []

/-- The bytes that an instruction writes to the diagnostics. -/
def Instruction.shown : Instruction → List Word → Bytes
  | .op .dbg, stack => Utf8.encode (stackText stack.reverse ++ "\n")
  | _, _ => []

/-- The errors that an instruction raises, and the one where there is no instruction. -/
def RuntimeError.IsOfStep : RuntimeError → Prop
  | stackUnderflow _ _ | divisionByZero _ | invalidIndex _ _ _ | invalidInput _ _ | endOfProgram _
  | stream .sinkFull => True
  | _ => False

namespace Sink

/-- `after` is the sink `before` with the first bytes of `bytes` written to it, but not all of
them. -/
def GainsPartOf (bytes : Bytes) (before after : Sink) : Prop :=
  after.capacity = before.capacity ∧ ∃ gained lost, bytes = gained ++ lost ∧ lost ≠ [] ∧
    after.written.toList = before.written.toList ++ gained

/-- A sink that bytes do not fit gains a part of them. -/
lemma gainsPartOf_write {s : Sink} {bytes : Bytes} (full : ¬ s.fits bytes) :
    GainsPartOf bytes s (s.write bytes) := by
  refine ⟨rfl, ?_⟩
  unfold fits at full
  rw [written_write]
  unfold fitting
  cases hc : s.capacity with
  | none => simp [hc] at full
  | some n =>
    simp only [hc, decide_eq_true_eq, Nat.not_le] at full
    refine ⟨_, bytes.drop (n - s.written.size), (List.take_append_drop _ _).symm, ?_, rfl⟩
    rw [ne_eq, List.drop_eq_nil_iff]
    omega

/-- To write nothing changes nothing. -/
@[simp] lemma write_nil (s : Sink) : s.write [] = s := by
  have written : (s.write []).written = s.written := by
    apply Array.toList_inj.1
    rw [written_write]
    cases hc : s.capacity <;> simp [fitting, hc]
  calc s.write [] = ⟨(s.write []).written, s.capacity⟩ := rfl
    _ = s := by rw [written]

end Sink

namespace Machine

variable {m m' : Machine} {i : Instruction} {l : Location} {e : RuntimeError}

/-! ## The ways to fail -/

/-- The ways in which an instruction that comes from `l` fails, each with its error and with the
machine that it leaves. -/
inductive Fails (m : Machine) (l : Location) : Instruction → RuntimeError → Machine → Prop where
  /-- There are fewer values than the instruction takes. -/
  | operands {i : Instruction} (short : m.stack.length < i.effect.1) :
    Fails m l i (.stackUnderflow i l) m
  /-- The divisor is zero. -/
  | divisor {a : Word} {s : List Word} (zero : m.stack = 0 :: a :: s) :
    Fails m l (.op .div) (.divisionByZero l) m
  /-- The index of a value to push names none. -/
  | getIndex {index : Word} {s : List Word} (top : m.stack = index :: s)
    (outside : slot? s index = none) : Fails m l (.op .get) (.invalidIndex index s.length l) m
  /-- The index of a value to replace names none. -/
  | setIndex {index value : Word} {s : List Word} (top : m.stack = index :: value :: s)
    (outside : slot? s index = none) : Fails m l (.op .set) (.invalidIndex index s.length l) m
  /-- The input does not begin with an integer. -/
  | input {fault : InputFault} (wrong : (Numeral.split m.input).value = .error fault) :
    Fails m l (.op .read) (.invalidInput fault l) { m with input := (Numeral.split m.input).rest }
  /-- The output does not take all that is written. -/
  | output {i : Instruction} (writes : i = .op .print ∨ i = .op .cprint)
    (full : ¬ m.output.fits (i.printed m.stack)) :
    Fails m l i (.stream .sinkFull) { m with output := m.output.write (i.printed m.stack) }
  /-- The diagnostics do not take all that is written. -/
  | diagnostics (full : ¬ m.diagnostics.fits (Instruction.shown (.op .dbg) m.stack)) :
    Fails m l (.op .dbg) (.stream .sinkFull)
      { m with diagnostics := m.diagnostics.write (Instruction.shown (.op .dbg) m.stack) }

/-- A branch does not fail. -/
lemma branch_ne_failed {taken : Bool} {target : Address} {s : List Word} :
    m.branch taken target s ≠ .failed e m' := by
  unfold branch
  split <;> nofun

/-- Writing fails, and going on afterwards does not. -/
lemma failed_of_write_advance {bytes : Bytes} {s : List Word}
    (h : ((m.write bytes).andThen fun m => m.advance s) = .failed e m') :
    ¬ m.output.fits bytes ∧ e = .stream .sinkFull ∧
      m' = { m with output := m.output.write bytes } := by
  unfold write at h
  split at h
  · cases h
  · rename_i full
    cases h
    exact ⟨full, rfl, rfl⟩

/-- Reporting fails, and going on afterwards does not. -/
lemma failed_of_report_advance {bytes : Bytes} {s : List Word}
    (h : ((m.report bytes).andThen fun m => m.advance s) = .failed e m') :
    ¬ m.diagnostics.fits bytes ∧ e = .stream .sinkFull ∧
      m' = { m with diagnostics := m.diagnostics.write bytes } := by
  unfold report at h
  split at h
  · cases h
  · rename_i full
    cases h
    exact ⟨full, rfl, rfl⟩

/-! ### Operands -/

/-- A stack of at least one value has a top. -/
lemma exists_operand {s : List Word} (h : 1 ≤ s.length) : ∃ a r, s = a :: r :=
  match s, h with
  | a :: r, _ => ⟨a, r, rfl⟩

/-- A stack of at least two values has two on top. -/
lemma exists_operands_two {s : List Word} (h : 2 ≤ s.length) : ∃ b a r, s = b :: a :: r :=
  match s, h with
  | b :: a :: r, _ => ⟨b, a, r, rfl⟩

/-- A stack of at least three values has three on top. -/
lemma exists_operands_three {s : List Word} (h : 3 ≤ s.length) :
    ∃ t b a r, s = t :: b :: a :: r :=
  match s, h with
  | t :: b :: a :: r, _ => ⟨t, b, a, r, rfl⟩

/-- The table of effects says how many values an instruction needs: with fewer it does nothing but
fail. -/
lemma execute_of_short (short : m.stack.length < i.effect.1) :
    m.execute i l = .failed (.stackUnderflow i l) m := by
  cases i with
  | push n => exact absurd short (Nat.not_lt_zero _)
  | op op =>
    cases op
    case ppos | size | dbg | read | cread => exact absurd short (Nat.not_lt_zero _)
    case jmp | get | dup | pop | print | cprint =>
      have empty : m.stack = [] := List.eq_nil_of_length_eq_zero (Nat.lt_one_iff.1 short)
      simp only [execute, empty]
    case add | sub | mul | div | set | swap =>
      rcases hs : m.stack with _ | ⟨b, _ | ⟨a, s⟩⟩
      · simp only [execute, hs]
      · simp only [execute, hs]
      · simp only [hs, List.length_cons, Instruction.effect, Opcode.effect] at short
        omega
    case jeq | jnq | jgt | jlt =>
      rcases hs : m.stack with _ | ⟨t, _ | ⟨b, _ | ⟨a, s⟩⟩⟩
      · simp only [execute, hs]
      · simp only [execute, hs]
      · simp only [execute, hs]
      · simp only [hs, List.length_cons, Instruction.effect, Opcode.effect] at short
        omega

/-! ### Nothing else fails -/

/-- An instruction fails only in the ways of `Fails`.

**Proof sketch.** With too few operands it fails for that reason. With enough of them each opcode
finds its operands on the stack, and what is left are the checks of the opcode itself. -/
theorem fails_of_execute (h : m.execute i l = .failed e m') : Fails m l i e m' := by
  by_cases short : m.stack.length < i.effect.1
  · rw [execute_of_short short] at h
    cases h
    exact .operands short
  rw [Nat.not_lt] at short
  cases i with
  | push n => cases h
  | op op =>
    cases op
    case add | sub | mul | swap =>
      obtain ⟨b, a, s, top⟩ := exists_operands_two short
      simp only [execute, top] at h
      cases h
    case div =>
      obtain ⟨b, a, s, top⟩ := exists_operands_two short
      simp only [execute, top] at h
      split at h
      · rename_i zero
        cases h
        exact .divisor (zero ▸ top)
      · cases h
    case jmp | dup | pop =>
      obtain ⟨a, s, top⟩ := exists_operand short
      simp only [execute, top] at h
      cases h
    case jeq | jnq | jgt | jlt =>
      obtain ⟨t, b, a, s, top⟩ := exists_operands_three short
      simp only [execute, top] at h
      exact absurd h branch_ne_failed
    case get =>
      obtain ⟨index, s, top⟩ := exists_operand short
      simp only [execute, top] at h
      split at h
      · cases h
      · rename_i outside
        cases h
        exact .getIndex top outside
    case set =>
      obtain ⟨index, value, s, top⟩ := exists_operands_two short
      simp only [execute, top] at h
      split at h
      · cases h
      · rename_i outside
        cases h
        exact .setIndex top outside
    case ppos | size => cases h
    case dbg =>
      obtain ⟨full, rfl, rfl⟩ := failed_of_report_advance h
      exact .diagnostics full
    case print =>
      obtain ⟨a, s, top⟩ := exists_operand short
      have written : Instruction.printed (.op .print) m.stack = Utf8.encode a.text := by
        rw [top, Instruction.printed]
      simp only [execute, top] at h
      obtain ⟨full, rfl, rfl⟩ := failed_of_write_advance h
      rw [← written] at full ⊢
      exact .output (.inl rfl) full
    case cprint =>
      obtain ⟨a, s, top⟩ := exists_operand short
      have written : Instruction.printed (.op .cprint) m.stack =
          [UInt8.ofNat (a.toInt % 256).toNat] := by
        rw [top, Instruction.printed]
      simp only [execute, top] at h
      obtain ⟨full, rfl, rfl⟩ := failed_of_write_advance h
      rw [← written] at full ⊢
      exact .output (.inr rfl) full
    case read =>
      simp only [execute, readInteger] at h
      split at h
      · cases h
      · rename_i fault wrong
        cases h
        exact .input wrong
    case cread =>
      simp only [execute, readByte] at h
      split at h <;> cases h

/-! ### What is written -/

/-- A branch writes nothing. -/
lemma branch_streams {taken : Bool} {target : Address} {s : List Word}
    (h : m.branch taken target s = .done m') :
    m'.output = m.output ∧ m'.diagnostics = m.diagnostics := by
  unfold branch at h
  split at h <;> (cases h; exact ⟨rfl, rfl⟩)

/-- A write with a step on behind it leaves the bytes written. -/
lemma done_of_write_advance {bytes : Bytes} {s : List Word}
    (h : ((m.write bytes).andThen fun m => m.advance s) = .done m') :
    m' = { m with output := m.output.write bytes, stack := s, pc := m.pc + 1 } := by
  unfold write at h
  split at h
  · cases h
    rfl
  · cases h

/-- A report with a step on behind it leaves the bytes written. -/
lemma done_of_report_advance {bytes : Bytes} {s : List Word}
    (h : ((m.report bytes).andThen fun m => m.advance s) = .done m') :
    m' = { m with diagnostics := m.diagnostics.write bytes, stack := s, pc := m.pc + 1 } := by
  unfold report at h
  split at h
  · cases h
    rfl
  · cases h

/-- An instruction that succeeds has written all its bytes, and nothing else. -/
theorem streams_of_execute (h : m.execute i l = .done m') :
    m'.output = m.output.write (i.printed m.stack) ∧
      m'.diagnostics = m.diagnostics.write (i.shown m.stack) := by
  by_cases short : m.stack.length < i.effect.1
  · rw [execute_of_short short] at h
    cases h
  rw [Nat.not_lt] at short
  cases i with
  | push n =>
    cases h
    simp [Instruction.printed, Instruction.shown]
  | op op =>
    cases op
    case add | sub | mul | swap =>
      obtain ⟨b, a, s, top⟩ := exists_operands_two short
      simp only [execute, top] at h
      cases h
      simp [Instruction.printed, Instruction.shown]
    case div =>
      obtain ⟨b, a, s, top⟩ := exists_operands_two short
      simp only [execute, top] at h
      split at h <;> cases h
      simp [Instruction.printed, Instruction.shown]
    case jmp | dup | pop =>
      obtain ⟨a, s, top⟩ := exists_operand short
      simp only [execute, top] at h
      cases h
      simp [Instruction.printed, Instruction.shown]
    case jeq | jnq | jgt | jlt =>
      obtain ⟨t, b, a, s, top⟩ := exists_operands_three short
      simp only [execute, top] at h
      simpa [Instruction.printed, Instruction.shown] using branch_streams h
    case get =>
      obtain ⟨index, s, top⟩ := exists_operand short
      simp only [execute, top] at h
      split at h <;> cases h
      simp [Instruction.printed, Instruction.shown]
    case set =>
      obtain ⟨index, value, s, top⟩ := exists_operands_two short
      simp only [execute, top] at h
      split at h <;> cases h
      simp [Instruction.printed, Instruction.shown]
    case ppos | size =>
      cases h
      simp [Instruction.printed, Instruction.shown]
    case dbg =>
      obtain rfl := done_of_report_advance h
      simp [Instruction.printed, Instruction.shown, stackText]
    case print =>
      obtain ⟨a, s, top⟩ := exists_operand short
      simp only [execute, top] at h
      obtain rfl := done_of_write_advance h
      simp [Instruction.printed, Instruction.shown, top]
    case cprint =>
      obtain ⟨a, s, top⟩ := exists_operand short
      simp only [execute, top] at h
      obtain rfl := done_of_write_advance h
      simp [Instruction.printed, Instruction.shown, top]
    case read =>
      simp only [execute, readInteger] at h
      split at h <;> cases h
      simp [Instruction.printed, Instruction.shown]
    case cread =>
      simp only [execute, readByte] at h
      split at h <;> cases h <;> simp [Instruction.printed, Instruction.shown]

/-- A step at an instruction executes it. -/
lemma step_eq_execute (instruction : m.instruction? = some i) (location : m.location? = some l) :
    m.step = m.execute i l := by
  rw [step, instruction, location]

/-- A step that is taken executes an instruction. -/
lemma exists_of_step_done (step : m.step = .done m') :
    ∃ i l, m.instruction? = some i ∧ m.location? = some l ∧ m.execute i l = .done m' := by
  unfold Machine.step at step
  split at step
  · rename_i i l instruction location
    exact ⟨i, l, instruction, location, step⟩
  · cases step

/-- A step fails where an instruction fails, or where there is none. -/
lemma fails_of_step (h : m.step = .failed e m') :
    (∃ i l, m.instruction? = some i ∧ m.location? = some l ∧ Fails m l i e m') ∨
      (m.instruction? = none ∨ m.location? = none) ∧ e = .endOfProgram m.pc ∧ m' = m := by
  unfold step at h
  cases hi : m.instruction? with
  | none =>
    simp only [hi] at h
    cases h
    exact .inr ⟨.inl rfl, rfl, rfl⟩
  | some i =>
    cases hl : m.location? with
    | none =>
      simp only [hi, hl] at h
      cases h
      exact .inr ⟨.inr rfl, rfl, rfl⟩
    | some l =>
      simp only [hi, hl] at h
      exact .inl ⟨i, l, rfl, rfl, fails_of_execute h⟩

/-! ## What a failed step leaves -/

namespace Fails

variable (fails : Fails m l i e m')
include fails

/-- The error is one that instructions raise. -/
lemma isOfStep : e.IsOfStep := by cases fails <;> trivial

/-- All but the streams is kept. -/
lemma kept : m'.stack = m.stack ∧ m'.pc = m.pc ∧ m'.code = m.code ∧ m'.budget = m.budget := by
  cases fails <;> exact ⟨rfl, rfl, rfl, rfl⟩

/-- The output is kept unless it is what is full. -/
lemma output_eq (other : ¬ (e = .stream .sinkFull ∧ (i = .op .print ∨ i = .op .cprint))) :
    m'.output = m.output := by
  cases fails with
  | output writes _ => exact absurd ⟨rfl, writes⟩ other
  | _ => rfl

/-- An output that is full gains a part of what the instruction prints. -/
lemma output_gains (writes : i = .op .print ∨ i = .op .cprint)
    (sinkFull : e = .stream .sinkFull) :
    Sink.GainsPartOf (i.printed m.stack) m.output m'.output := by
  cases fails with
  | output _ full => exact Sink.gainsPartOf_write full
  | diagnostics => simp at writes
  | operands | divisor | getIndex | setIndex | input => cases sinkFull

/-- The diagnostics are kept unless they are what is full. -/
lemma diagnostics_eq (other : ¬ (e = .stream .sinkFull ∧ i = .op .dbg)) :
    m'.diagnostics = m.diagnostics := by
  cases fails with
  | diagnostics _ => exact absurd ⟨rfl, rfl⟩ other
  | _ => rfl

/-- Diagnostics that are full gain a part of what the instruction shows. -/
lemma diagnostics_gains (shows : i = .op .dbg) (sinkFull : e = .stream .sinkFull) :
    Sink.GainsPartOf (Instruction.shown (.op .dbg) m.stack) m.diagnostics m'.diagnostics := by
  cases fails with
  | diagnostics full => exact Sink.gainsPartOf_write full
  | output writes _ => simp [shows] at writes
  | operands | divisor | getIndex | setIndex | input => cases sinkFull

/-- The input is kept unless it is invalid. -/
lemma input_eq (other : ∀ fault l, e ≠ .invalidInput fault l) : m'.input = m.input := by
  cases fails with
  | input _ => exact absurd rfl (other _ l)
  | _ => rfl

/-- Where the input is at fault, the blanks, the sign and the digits at its front are gone. -/
lemma input_split {fault : InputFault} {place : Location}
    (wrong : e = .invalidInput fault place) :
    i = .op .read ∧ ∃ n, Numeral.Splits m.input n ∧ m'.input = n.rest := by
  cases fails with
  | input _ => exact ⟨rfl, _, Numeral.splits_split m.input, rfl⟩
  | _ => cases wrong

end Fails

/-- **A step that fails changes nothing but the streams**, and those only as far as it has to: the
output only if `print` or `cprint` finds it full, the diagnostics only if `dbg` finds them full,
and then each by a proper part of what was to be written; the input only if `read` finds no word at
its front, and then by the blanks, the sign and the digits there. -/
theorem step_failed_unchanged (h : m.step = .failed e m') :
    e.IsOfStep ∧
    m'.stack = m.stack ∧ m'.pc = m.pc ∧ m'.code = m.code ∧ m'.budget = m.budget ∧
    (¬ (e = .stream .sinkFull ∧
        (m.instruction? = some (.op .print) ∨ m.instruction? = some (.op .cprint))) →
      m'.output = m.output) ∧
    (∀ i, m.instruction? = some i → i = .op .print ∨ i = .op .cprint → e = .stream .sinkFull →
      Sink.GainsPartOf (i.printed m.stack) m.output m'.output) ∧
    (¬ (e = .stream .sinkFull ∧ m.instruction? = some (.op .dbg)) →
      m'.diagnostics = m.diagnostics) ∧
    (m.instruction? = some (.op .dbg) → e = .stream .sinkFull →
      Sink.GainsPartOf (Instruction.shown (.op .dbg) m.stack) m.diagnostics m'.diagnostics) ∧
    ((∀ fault l, e ≠ .invalidInput fault l) → m'.input = m.input) ∧
    (∀ fault l, e = .invalidInput fault l → m.instruction? = some (.op .read) ∧
      ∃ n, Numeral.Splits m.input n ∧ m'.input = n.rest) := by
  rcases fails_of_step h with ⟨i, l, hi, hl, fails⟩ | ⟨-, rfl, rfl⟩
  · obtain ⟨stack, pc, code, budget⟩ := fails.kept
    rw [hi]
    simp only [Option.some.injEq]
    refine ⟨fails.isOfStep, stack, pc, code, budget, fails.output_eq, ?_, fails.diagnostics_eq,
      fails.diagnostics_gains, fails.input_eq, fun _ _ wrong => fails.input_split wrong⟩
    rintro _ rfl writes sinkFull
    exact fails.output_gains writes sinkFull
  · refine ⟨trivial, rfl, rfl, rfl, rfl, fun _ => rfl, ?_, fun _ => rfl, ?_, fun _ => rfl, ?_⟩
    · intro _ _ _ sinkFull
      cases sinkFull
    · intro _ sinkFull
      cases sinkFull
    · intro _ _ wrong
      cases wrong

/-- A `read` in front of a blank and a sign that no digit follows: both are gone, the letter and
the stack stay. -/
theorem step_failed_unchanged_lone_sign :
    ∃ e m', step ⟨⟨0, #[.op .read], #[⟨"f", 1, 1⟩]⟩, 0, [7], none, [9, 45, 97], {}, {}⟩
        = .failed e m' ∧
      m'.stack = [7] ∧ m'.pc = 0 ∧ m'.input = [97] := by
  refine ⟨.invalidInput .expectedInteger ⟨"f", 1, 1⟩, _, rfl, ?_⟩
  obtain ⟨-, stack, pc, -⟩ := step_failed_unchanged
    (m := ⟨⟨0, #[.op .read], #[⟨"f", 1, 1⟩]⟩, 0, [7], none, [9, 45, 97], {}, {}⟩) rfl
  exact ⟨stack, pc, rfl⟩

end Machine

end StackAsm
