import StackAsm.Proofs.Effect
import StackAsm.Proofs.Reachable

set_option autoImplicit false

/-!
# The table of effects

The table of effects says how many values an instruction takes and how many it leaves, and nothing
about what becomes of the others. A machine uses the table only to tell whether there are enough
values. This module says that it describes what is executed: an instruction that succeeds has taken
so many values off the top and left so many there, and all below them are where they were. Only
`set` reaches further down, to the one slot that its index names.

## Main definitions

* `StackAsm.Machine.slots` — the values of a stack, bottom first.
* `StackAsm.Instruction.JumpsTo` — where an instruction jumps to.
* `StackAsm.Machine.HasEffect` — what the table says that an instruction makes of a machine.

## Main results

* `StackAsm.Instruction.exists_operands_of_compute` — the values that an instruction takes and
  leaves.
* `StackAsm.Instruction.target?_eq_some_iff` — an instruction jumps where it should.
* `StackAsm.Machine.hasEffect_of_execute` — an instruction that succeeds has its effect.
* `StackAsm.Machine.step_by_effect` — the table describes every step.
-/

namespace StackAsm

/-! ## What the table says -/

/-- The values of a stack by slots: slot 0 is at the bottom. -/
def Machine.slots (m : Machine) : List Word := m.stack.reverse

/-- The condition of a jump on the two values below the address, of which `b` is the upper one. -/
def Opcode.Holds : Opcode → (a b : Word) → Prop
  | jeq, a, b => a = b
  | jnq, a, b => a ≠ b
  | jgt, a, b => b.toInt < a.toInt
  | jlt, a, b => a.toInt < b.toInt
  | _, _, _ => False

/-- An instruction jumps: it is a jump whose condition holds, and the address is on top of the
stack. -/
inductive Instruction.JumpsTo : Instruction → List Word → Address → Prop where
  /-- A jump without a condition. -/
  | always {target : Address} {s : List Word} : JumpsTo (.op .jmp) (target :: s) target
  /-- A jump with a condition. -/
  | holding {o : Opcode} {target : Address} {a b : Word} {s : List Word} (holds : o.Holds a b) :
    JumpsTo (.op o) (target :: b :: a :: s) target

/-- The machine `m'` is what the table of effects says that the instruction `i` makes of the machine
`m`. -/
structure Machine.HasEffect (i : Instruction) (m m' : Machine) : Prop where
  /-- There are as many values as the instruction takes. -/
  enough : i.effect.1 ≤ m.stack.length
  /-- It takes them, and leaves as many values as the table says. -/
  depth : m'.stack.length = m.stack.length - i.effect.1 + i.effect.2
  /-- It leaves the slots below those that it takes alone. -/
  below : i ≠ .op .set → ∀ k < m.stack.length - i.effect.1, m'.slots[k]? = m.slots[k]?
  /-- Only `set` replaces one of them, the one that its index names, by the value below its
  index. -/
  replaced : i = .op .set → ∃ index value s, m.stack = index :: value :: s ∧ 0 ≤ index.toInt ∧
    index.toInt < (m.stack.length - 2 : Nat) ∧
    ∀ k < m.stack.length - 2,
      m'.slots[k]? = if (k : Int) = index.toInt then some value else m.slots[k]?
  /-- It goes on where it jumps to. -/
  jumped : ∀ target, i.JumpsTo m.stack target → m'.pc = target
  /-- It goes on at the next address if it does not jump. -/
  passed : (∀ target, ¬ i.JumpsTo m.stack target) → m'.pc = m.pc + 1

/-! ## What an instruction makes of a stack -/

/-- The place that an index names is its distance from the bottom. -/
lemma slot?_eq_some {s : List Word} {index : Word} {k : Fin s.length}
    (found : slot? s index = some k) :
    0 ≤ index.toInt ∧ index.toInt < s.length ∧ (k : Nat) = s.length - 1 - index.toInt.toNat := by
  unfold slot? at found
  split at found
  · rename_i inside
    cases found
    exact ⟨inside.1, inside.2, rfl⟩
  · cases found

/-- A value stored at the place that an index names is in the slot of this index. -/
lemma getElem?_reverse_set_slot? {s : List Word} {index : Word} {k : Fin s.length}
    (found : slot? s index = some k) (value : Word) {j : Nat} (inside : j < s.length) :
    (s.set k value).reverse[j]? =
      if (j : Int) = index.toInt then some value else s.reverse[j]? := by
  obtain ⟨low, high, place⟩ := slot?_eq_some found
  rw [List.getElem?_reverse (by simpa using inside), List.getElem?_reverse inside,
    List.length_set, List.getElem?_set]
  by_cases same : (j : Int) = index.toInt
  · have at_place : (k : Nat) = s.length - 1 - j := by omega
    rw [if_pos same, if_pos at_place, if_pos k.isLt]
  · have elsewhere : (k : Nat) ≠ s.length - 1 - j := by omega
    rw [if_neg same, if_neg elsewhere]

/-- Whatever is on top of them, the values of the rest of a stack are in the same slots. -/
lemma getElem?_reverse_append (top rest : List Word) {k : Nat} (inside : k < rest.length) :
    (top ++ rest).reverse[k]? = rest.reverse[k]? := by
  rw [List.reverse_append, List.getElem?_append_left (by simpa using inside)]

namespace Instruction

variable {i : Instruction} {stack : List Word} {effect : Effect}

/-- An instruction with an effect finds its operands. -/
lemma enough_of_compute (computes : i.compute stack = .ok effect) :
    i.effect.1 ≤ stack.length := by
  by_contra short
  rw [compute_of_short (Nat.not_le.1 short)] at computes
  cases computes

/-- **An instruction takes and leaves as many values as the table says**, and leaves the others
below them, unless it is `set`. -/
theorem exists_operands_of_compute (computes : i.compute stack = .ok effect)
    (other : i ≠ .op .set) :
    ∃ took left rest, stack = took ++ rest ∧ effect.stack = left ++ rest ∧
      took.length = i.effect.1 ∧ left.length = i.effect.2 := by
  have enough := enough_of_compute computes
  cases i with
  | push n =>
    cases computes
    exact ⟨[], [n], stack, rfl, rfl, rfl, rfl⟩
  | op o =>
    cases o
    case add | sub | mul =>
      obtain ⟨b, a, s, rfl⟩ := Machine.exists_operands_two enough
      cases computes
      exact ⟨[b, a], [_], s, rfl, rfl, rfl, rfl⟩
    case div =>
      obtain ⟨b, a, s, rfl⟩ := Machine.exists_operands_two enough
      simp only [compute] at computes
      split at computes
      · cases computes
      · cases computes
        exact ⟨[b, a], [a / b], s, rfl, rfl, rfl, rfl⟩
    case jmp | pop | print | cprint =>
      obtain ⟨a, s, rfl⟩ := Machine.exists_operand enough
      cases computes
      exact ⟨[a], [], s, rfl, rfl, rfl, rfl⟩
    case jeq | jnq | jgt | jlt =>
      obtain ⟨t, b, a, s, rfl⟩ := Machine.exists_operands_three enough
      cases computes
      exact ⟨[t, b, a], [], s, rfl, rfl, rfl, rfl⟩
    case get =>
      obtain ⟨index, s, rfl⟩ := Machine.exists_operand enough
      simp only [compute] at computes
      split at computes
      · cases computes
        exact ⟨[index], [_], s, rfl, rfl, rfl, rfl⟩
      · cases computes
    case set => exact absurd rfl other
    case dup =>
      obtain ⟨a, s, rfl⟩ := Machine.exists_operand enough
      cases computes
      exact ⟨[a], [a, a], s, rfl, rfl, rfl, rfl⟩
    case ppos | size =>
      cases computes
      exact ⟨[], [_], stack, rfl, rfl, rfl, rfl⟩
    case swap =>
      obtain ⟨b, a, s, rfl⟩ := Machine.exists_operands_two enough
      cases computes
      exact ⟨[b, a], [a, b], s, rfl, rfl, rfl, rfl⟩
    case dbg =>
      cases computes
      exact ⟨[], [], stack, rfl, rfl, rfl, rfl⟩
    case read | cread => cases computes

/-- What `set` takes and where it stores. -/
lemma exists_slot_of_compute_set (computes : compute (.op .set) stack = .ok effect) :
    ∃ index value s k, stack = index :: value :: s ∧ slot? s index = some k ∧
      effect.stack = s.set k value := by
  obtain ⟨index, value, s, rfl⟩ := Machine.exists_operands_two (enough_of_compute computes)
  simp only [compute] at computes
  split at computes
  · rename_i k found
    cases computes
    exact ⟨index, value, s, k, rfl, found, rfl⟩
  · cases computes

/-- Only jumps jump. -/
lemma JumpsTo.isJump {target : Address} (jumps : i.JumpsTo stack target) : i.isJump := by
  cases jumps with
  | always => rfl
  | @holding o target a b s holds =>
    cases o
    case jeq | jnq | jgt | jlt => rfl
    all_goals exact holds.elim

/-- A jump with a condition jumps exactly if the condition holds, and to the address on top. -/
lemma jumpsTo_iff_holds {o : Opcode} {target t : Address} {a b : Word} {s : List Word}
    (conditional : o ≠ .jmp) :
    JumpsTo (.op o) (t :: b :: a :: s) target ↔ o.Holds a b ∧ t = target := by
  constructor
  · intro jumps
    cases jumps with
    | always => exact absurd rfl conditional
    | holding holds => exact ⟨holds, rfl⟩
  · rintro ⟨holds, rfl⟩
    exact .holding holds

/-- **An instruction jumps where it should**: to the address on top of the stack if it is a jump and
its condition holds, and not at all otherwise. -/
theorem target?_eq_some_iff (computes : i.compute stack = .ok effect) {target : Address} :
    effect.target? = some target ↔ i.JumpsTo stack target := by
  by_cases jump : i.isJump
  · have enough := enough_of_compute computes
    cases i with
    | push n => cases jump
    | op o =>
      cases o
      case jmp =>
        obtain ⟨t, s, rfl⟩ := Machine.exists_operand enough
        cases computes
        constructor
        · rintro ⟨rfl⟩
          exact .always
        · rintro ⟨⟩
          · rfl
          · rename_i holds
            exact holds.elim
      case jeq | jnq | jgt | jlt =>
        obtain ⟨t, b, a, s, rfl⟩ := Machine.exists_operands_three enough
        cases computes
        rw [jumpsTo_iff_holds (by decide)]
        simp [Opcode.Holds, Int64.lt_iff_toInt_lt]
      all_goals cases jump
  · rw [target?_of_not_isJump jump computes]
    exact ⟨nofun, fun jumps => absurd jumps.isJump jump⟩

end Instruction

/-! ## What an instruction makes of a machine -/

/-- Two parts succeed, one behind the other, exactly if each of them does. -/
lemma Outcome.andThen_eq_done_iff {o : Outcome} {next : Machine → Outcome} {m : Machine} :
    o.andThen next = .done m ↔ ∃ n, o = .done n ∧ next n = .done m := by
  cases o <;> simp

namespace Machine

variable {m m' : Machine} {i : Instruction} {l : Location}

/-- An instruction that succeeds pushes what it reads, or leaves what it makes of the stack. -/
lemma exists_effect_of_execute (done : m.execute i l = .done m') :
    (i.reads ∧ (∃ n, m'.stack = n :: m.stack) ∧ m'.pc = m.pc + 1) ∨
      ∃ effect, i.compute m.stack = .ok effect ∧ m'.stack = effect.stack ∧
        m'.pc = effect.target?.getD (m.pc + 1) := by
  by_cases reads : i.reads
  · refine .inl ⟨reads, ?_⟩
    rcases Instruction.reads_iff.1 reads with rfl | rfl
    · simp only [execute, readInteger] at done
      split at done
      · cases done
        exact ⟨⟨_, rfl⟩, rfl⟩
      · cases done
    · simp only [execute, readByte] at done
      split at done <;> cases done <;> exact ⟨⟨_, rfl⟩, rfl⟩
  · rw [execute_eq_carryOut reads] at done
    cases computes : i.compute m.stack with
    | error e =>
      rw [computes] at done
      cases done
    | ok effect =>
      rw [computes, carryOut, Outcome.andThen_eq_done_iff] at done
      obtain ⟨n, -, done⟩ := done
      cases done
      exact .inr ⟨effect, rfl, rfl, rfl⟩

/-- **An instruction that succeeds has its effect.** -/
theorem hasEffect_of_execute (done : m.execute i l = .done m') : HasEffect i m m' := by
  rcases exists_effect_of_execute done with ⟨reads, ⟨n, pushed⟩, pc⟩ |
    ⟨effect, computes, stack, pc⟩
  · have row : i.effect = (0, 1) ∧ i ≠ .op .set ∧ ¬ i.isJump := by
      rcases Instruction.reads_iff.1 reads with rfl | rfl <;> exact ⟨rfl, nofun, nofun⟩
    obtain ⟨row, other, quiet⟩ := row
    refine ⟨by simp [row], by simp [row, pushed], fun _ k inside => ?_, fun set => absurd set other,
      fun target jumps => absurd jumps.isJump quiet, fun _ => pc⟩
    rw [slots, slots, pushed]
    exact getElem?_reverse_append [n] m.stack (by simpa [row] using inside)
  · have enough := Instruction.enough_of_compute computes
    have jumped {target : Address} (jumps : i.JumpsTo m.stack target) : m'.pc = target := by
      rw [pc, (Instruction.target?_eq_some_iff computes).2 jumps, Option.getD_some]
    have passed (stays : ∀ target, ¬ i.JumpsTo m.stack target) : m'.pc = m.pc + 1 := by
      have none : effect.target? = none := Option.eq_none_iff_forall_ne_some.2 fun target found =>
        stays target ((Instruction.target?_eq_some_iff computes).1 found)
      rw [pc, none, Option.getD_none]
    by_cases set : i = .op .set
    · subst set
      obtain ⟨index, value, s, k, top, found, stored⟩ :=
        Instruction.exists_slot_of_compute_set computes
      have rest : m.stack.length - 2 = s.length := by simp [top]
      obtain ⟨low, high, -⟩ := slot?_eq_some found
      refine ⟨enough, ?_, fun other => absurd rfl other, fun _ => ?_, fun _ => jumped, passed⟩
      · rw [stack, stored, List.length_set]
        exact rest.symm
      · refine ⟨index, value, s, top, low, rest ▸ high, fun j inside => ?_⟩
        rw [rest] at inside
        have before : m.slots[j]? = s.reverse[j]? := by
          rw [slots, top]
          exact getElem?_reverse_append [index, value] s inside
        rw [before, slots, stack, stored]
        exact getElem?_reverse_set_slot? found value inside
    · obtain ⟨took, left, rest, before, after, taken, remaining⟩ :=
        Instruction.exists_operands_of_compute computes set
      have below : m.stack.length - i.effect.1 = rest.length := by
        rw [before, List.length_append]
        omega
      refine ⟨enough, ?_, fun _ k inside => ?_, fun same => absurd same set, fun _ => jumped,
        passed⟩
      · rw [below, stack, after, List.length_append, remaining, Nat.add_comm]
      · rw [below] at inside
        rw [slots, slots, stack, after, before, getElem?_reverse_append left rest inside,
          getElem?_reverse_append took rest inside]

/-- **The table of effects describes execution.** Let a machine that can be reached be at an
instruction. Its step fails for lack of values exactly if there are fewer of them than the table
says that the instruction takes, and then the error names the instruction and its location. If the
step succeeds, it has the effect that the table says; and the next address is one more than the
address of the instruction, as integers. -/
theorem step_by_effect (reachable : Reachable m) (running : m.isRunning) :
    ∃ i l, m.instruction? = some i ∧ m.location? = some l ∧
      ((∃ j place m', m.step = .failed (.stackUnderflow j place) m') ↔
        m.stack.length < i.effect.1) ∧
      (∀ j place m', m.step = .failed (.stackUnderflow j place) m' → j = i ∧ place = l) ∧
      (∀ m', m.step = .done m' → HasEffect i m m') ∧
      (m.pc + 1).toInt = m.pc.toInt + 1 := by
  have wf := wellFormed_of_reachable reachable
  obtain ⟨i, instruction⟩ : ∃ i, m.instruction? = some i :=
    Option.isSome_iff_exists.1 (Program.isSome_instructionAt?_iff.2 running)
  obtain ⟨l, location⟩ : ∃ l, m.location? = some l :=
    Option.isSome_iff_exists.1 (wf.isSome_locationAt?_iff.2 running)
  have steps : m.step = m.execute i l := by rw [step, instruction, location]
  have underflows {j : Instruction} {place : Location} {m' : Machine}
      (failed : m.step = .failed (.stackUnderflow j place) m') :
      m.stack.length < i.effect.1 ∧ j = i ∧ place = l := by
    rw [steps] at failed
    cases fails_of_execute failed with
    | operands short => exact ⟨short, rfl, rfl⟩
  refine ⟨i, l, instruction, location, ⟨?_, fun short => ?_⟩, ?_, ?_, toInt_pc_add_one wf running⟩
  · rintro ⟨j, place, m', failed⟩
    exact (underflows failed).1
  · exact ⟨i, l, m, steps.trans (execute_of_short short)⟩
  · exact fun j place m' failed => (underflows failed).2
  · intro m' done
    exact hasEffect_of_execute (steps.symm.trans done)

/-- A `set` with the value 7 and the index 0: it takes both and replaces the value at the bottom,
two values below the index, and not the one in between. -/
theorem step_by_effect_set :
    ∃ m m' : Machine, Reachable m ∧ m.isRunning ∧ m.instruction? = some (.op .set) ∧
      m.stack = [0, 7, 5, 6] ∧ m.step = .done m' ∧ m'.stack.length = 4 - 2 + 0 ∧
      m'.slots[0]? = some 7 ∧ m'.slots[1]? = m.slots[1]? ∧ m'.pc = m.pc + 1 := by
  let l : Location := ⟨"f", 1, 1⟩
  let p : Program := ⟨0, #[.push 6, .push 5, .push 7, .push 0, .op .set], #[l, l, l, l, l]⟩
  let m : Machine := ⟨p, 4, [0, 7, 5, 6], some 4, [], {}, {}⟩
  have permitted : Operation.Permitted (.load p) := rfl
  have loaded := Reachable.perform (.fresh (some 4) [] {} {}) permitted rfl
  -- a run with a budget of four steps ends in front of the last instruction
  have run : Machine.run 5 ⟨p, 0, [], some 4, [], {}, {}⟩ =
      some (.failed (.stepLimitExceeded 4) m) := by decide +kernel
  have reachable : Reachable m := @Reachable.perform _ _ .run loaded trivial ⟨5, _, run, rfl⟩
  obtain ⟨i, l, instruction, -, -, -, effect, -⟩ := step_by_effect reachable (by decide +kernel)
  obtain rfl : .op .set = i := Option.some.inj instruction
  have done : m.step = .done { m with pc := 5, stack := [5, 7] } := by decide +kernel
  obtain ⟨-, depth, -, replaced, -, passed⟩ := effect _ done
  obtain ⟨index, value, s, top, -, -, slots⟩ := replaced rfl
  cases top
  refine ⟨m, _, reachable, by decide, rfl, rfl, done, depth, ?_, ?_, passed ?_⟩
  · exact slots 0 (by decide)
  · exact slots 1 (by decide)
  · exact fun target jumps => absurd jumps.isJump (by decide)

end Machine

end StackAsm
