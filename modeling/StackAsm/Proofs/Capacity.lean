import StackAsm.Proofs.Budget

set_option autoImplicit false

/-!
# Runs with a full output

An instruction that prints writes before it takes its operand off the stack, and no other
instruction writes to the output. So a limit to the output does not matter to a run as long as all
that it prints fits. The first instruction whose bytes do not fit fails: it fills the output up, and
leaves all else as it was in front of it.

## Main definitions

* `StackAsm.Machine.withCapacity` — a machine whose output takes so many bytes in all.
* `StackAsm.Machine.ComesTo` — the machines of a run that its budget pays for.
* `StackAsm.Machine.PassesAt` — where a run prints more than so many bytes for the first time.

## Main results

* `StackAsm.Machine.step_withCapacity` — a step that prints what fits does not notice the limit.
* `StackAsm.Machine.PassesAt.ends` — the step that prints what does not fit is where the run ends.
* `StackAsm.Machine.run_withCapacity` — how a limit to the output changes a run.
-/

namespace StackAsm

/-- Only the two instructions that print have something to print, and only with an operand. -/
lemma Instruction.operand_of_printed {i : Instruction} {stack : List Word}
    (some : i.printed stack ≠ []) :
    (i = .op .print ∨ i = .op .cprint) ∧ ∃ v s, stack = v :: s := by
  unfold printed at some
  split at some
  · exact ⟨.inl rfl, _, _, rfl⟩
  · exact ⟨.inr rfl, _, _, rfl⟩
  · exact absurd rfl some

/-- An instruction that lacks operands prints nothing. -/
lemma Instruction.printed_of_short {i : Instruction} {stack : List Word}
    (short : stack.length < i.effect.1) : i.printed stack = [] := by
  by_contra some
  obtain ⟨rfl | rfl, v, s, rfl⟩ := operand_of_printed some <;>
    exact absurd short (Nat.not_lt.2 (Nat.succ_le_succ (Nat.zero_le _)))

namespace Sink

/-- A sink that grows has at least as many bytes as before. -/
lemma size_le_of_grows {s t : Sink} (grows : s.written.toList <+: t.written.toList) :
    s.written.size ≤ t.written.size := grows.length_le

/-- A sink that takes `total` bytes in all. -/
def withCapacity (s : Sink) (total : Nat) : Sink := { s with capacity := some total }

variable {s : Sink} {bytes : Bytes} {total : Nat}

/-- A sink only grows. -/
lemma prefix_write (s : Sink) (bytes : Bytes) :
    s.written.toList <+: (s.write bytes).written.toList :=
  ⟨_, (written_write s bytes).symm⟩

section Unlimited

variable (unlimited : s.capacity = none)
include unlimited

/-- An unlimited sink grows by all the bytes written to it. -/
lemma size_write : (s.write bytes).written.size = s.written.size + bytes.length := by
  rw [← Array.length_toList, written_write_of_unlimited unlimited, List.length_append,
    Array.length_toList]

/-- What is written without a limit fits into a sink with a limit if it stays within this limit. -/
lemma fits_withCapacity_iff (room : s.written.size ≤ total) :
    (s.withCapacity total).fits bytes ↔ (s.write bytes).written.size ≤ total := by
  have limited : (s.withCapacity total).fits bytes ↔ bytes.length ≤ total - s.written.size :=
    decide_eq_true_iff
  rw [size_write unlimited, limited]
  omega

/-- What is written to a sink with a limit is the front of what is written without one. -/
lemma write_withCapacity_eq_take (room : s.written.size ≤ total) :
    (s.withCapacity total).write bytes =
      ⟨((s.write bytes).written.toList.take total).toArray, some total⟩ := by
  have all : s.written.toList.take total = s.written.toList := List.take_of_length_le room
  have written : ((s.withCapacity total).write bytes).written =
      ((s.write bytes).written.toList.take total).toArray := by
    apply Array.toList_inj.1
    rw [List.toList_toArray, written_write_of_unlimited unlimited, List.take_append, all,
      written_write]
    rfl
  rw [← written]
  rfl

/-- A write that fits does the same within a limit as without one. -/
lemma write_withCapacity (fits : (s.withCapacity total).fits bytes) :
    (s.withCapacity total).write bytes = (s.write bytes).withCapacity total := by
  have same : (s.withCapacity total).fitting bytes = s.fitting bytes := by
    rw [fitting_of_fits fits, fitting_of_fits (fits_of_unlimited unlimited bytes)]
  rw [write, same]
  rfl

end Unlimited

end Sink

namespace Machine

variable {m n : Machine} {i : Instruction} {l : Location} {total : Nat}

/-- A machine whose output takes `total` bytes in all. -/
def withCapacity (total : Nat) (m : Machine) : Machine :=
  { m with output := m.output.withCapacity total }

/-! ## What is printed -/

/-- A step takes nothing back of the output. -/
lemma output_grows_of_step (m : Machine) :
    m.output.written.toList <+: m.step.machine.output.written.toList := by
  cases step : m.step with
  | done n =>
    obtain ⟨i, l, -, -, execute⟩ := exists_of_step_done step
    rw [Outcome.machine, (streams_of_execute execute).1]
    exact Sink.prefix_write _ _
  | failed e n =>
    rcases fails_of_step step with ⟨i, l, -, -, fails⟩ | ⟨-, -, rfl⟩
    · cases fails with
      | output => exact Sink.prefix_write _ _
      | _ => exact List.prefix_rfl
    · exact List.prefix_rfl

/-- A run only appends to the output. -/
lemma Visits.output_grows {k : Nat} (visits : Visits k m n) :
    m.output.written.toList <+: n.output.written.toList := by
  induction visits with
  | start => exact List.prefix_rfl
  | @step k m next n running step more ih =>
    have grows := output_grows_of_step m
    rw [step] at grows
    exact grows.trans ih

/-! ## Steps that print what fits -/

section Fitting

/-- A report on the diagnostics does not depend on the limit of the output. -/
lemma report_withCapacity (m : Machine) (bytes : Bytes) :
    (m.withCapacity total).report bytes = (m.report bytes).map (withCapacity total) := by
  unfold report
  split <;> rename_i fits
  · exact (if_pos fits).symm ▸ rfl
  · exact (if_neg fits).symm ▸ rfl

variable (unlimited : m.output.capacity = none)
include unlimited

/-- A write to the output that fits does the same within a limit as without one. -/
lemma write_withCapacity {bytes : Bytes} (fits : (m.output.withCapacity total).fits bytes) :
    (m.withCapacity total).write bytes = (m.write bytes).map (withCapacity total) := by
  have free : m.output.fits bytes := Sink.fits_of_unlimited unlimited bytes
  calc (m.withCapacity total).write bytes
      = .done { m with output := (m.output.withCapacity total).write bytes } := if_pos fits
    _ = .done { m with output := (m.output.write bytes).withCapacity total } := by
        rw [Sink.write_withCapacity unlimited fits]
    _ = (m.write bytes).map (withCapacity total) := by
        rw [write, if_pos free]
        rfl

/-- An instruction that prints what fits does not notice the limit. -/
lemma execute_withCapacity (fits : (m.output.withCapacity total).fits (i.printed m.stack)) :
    (m.withCapacity total).execute i l = (m.execute i l).map (withCapacity total) := by
  by_cases reads : i.reads
  · have input : (m.withCapacity total).input = m.input := rfl
    rcases Instruction.reads_iff.1 reads with rfl | rfl
    · simp only [execute, readInteger, input]
      split <;> rfl
    · simp only [execute, readByte, input]
      split <;> rfl
  · rw [execute_eq_carryOut reads, execute_eq_carryOut reads]
    exact carryOut_map rfl rfl (write_withCapacity unlimited fits)
      (fun n => report_withCapacity n _) (fun _ _ _ => rfl) _

/-- Without a limit only what prints nothing fails, and nothing is printed. -/
lemma Fails.quiet_of_unlimited {e : RuntimeError} (fails : Fails m l i e n) :
    i.printed m.stack = [] ∧ n.output = m.output := by
  cases fails with
  | operands short => exact ⟨Instruction.printed_of_short short, rfl⟩
  | output _ full => exact absurd (Sink.fits_of_unlimited unlimited _) full
  | divisor | getIndex | setIndex | input | diagnostics => exact ⟨rfl, rfl⟩

/-- Without a limit an instruction prints all that it has to print. -/
lemma output_execute (l : Location) :
    (m.execute i l).machine.output = m.output.write (i.printed m.stack) := by
  cases execute : m.execute i l with
  | done n => exact (streams_of_execute execute).1
  | failed e n =>
    obtain ⟨printed, kept⟩ := (fails_of_execute execute).quiet_of_unlimited unlimited
    rw [printed, Sink.write_nil]
    exact kept

/-- Without a limit a step that fails has written nothing to the output. -/
lemma output_of_step_failed {e : RuntimeError} (failed : m.step = .failed e n) :
    n.output = m.output := by
  rcases fails_of_step failed with ⟨i, l, -, -, fails⟩ | ⟨-, -, rfl⟩
  · exact (fails.quiet_of_unlimited unlimited).2
  · rfl

/-- **A step that prints what fits does not notice the limit.** -/
theorem step_withCapacity (room : m.step.machine.output.written.size ≤ total) :
    (m.withCapacity total).step = m.step.map (withCapacity total) := by
  refine step_map rfl rfl fun i l instruction location => execute_withCapacity unlimited ?_
  have before := (Sink.size_le_of_grows (output_grows_of_step m)).trans room
  rw [Sink.fits_withCapacity_iff unlimited before, ← output_execute unlimited l,
    ← step_eq_execute instruction location]
  exact room

end Fitting

/-! ## The step that prints what does not fit -/

/-- In a run that begins at `m`, the step at `before`, which `k` steps come before, leads to `after`
and is the first one behind which more than `total` bytes are printed. -/
structure PassesAt (total : Nat) (m : Machine) (k : Nat) (before after : Machine) : Prop where
  /-- The run comes by `before`. -/
  visits : Visits k m before
  /-- Its budget pays for the step there. -/
  paid : Affords m.budget (k + 1)
  /-- The step succeeds. -/
  step : before.step = .done after
  /-- It prints. -/
  prints : before.instruction? = some (.op .print) ∨ before.instruction? = some (.op .cprint)
  /-- It has an operand. -/
  operand : ∃ v s, before.stack = v :: s
  /-- It passes the limit. -/
  passes : total < after.output.written.size
  /-- No step in front of it has passed the limit. -/
  first : ∀ j ≤ k, ∀ n, Visits j m n → n.output.written.size ≤ total

/-- A machine that is visited by the run of `m`, or left by it when it fails. -/
def ComesTo (m n : Machine) : Prop :=
  (∃ k, Visits k m n ∧ Affords m.budget k) ∨ ∃ e, m.Ends (.failed e n)

/-- An output without a limit has none at any later point. -/
lemma Visits.unlimited {k : Nat} (visits : Visits k m n) (unlimited : m.output.capacity = none) :
    n.output.capacity = none :=
  (congrArg (fun setup => setup.2.2.1) visits.setup_eq).trans unlimited

/-- With a limit, a run comes by the same machines as long as all that is printed fits. -/
lemma Visits.withCapacity {k : Nat} (visits : Visits k m n)
    (unlimited : m.output.capacity = none) (room : n.output.written.size ≤ total) :
    Visits k (m.withCapacity total) (n.withCapacity total) := by
  induction visits with
  | start => exact .start
  | @step k m next n running step more ih =>
    have fits : m.step.machine.output.written.size ≤ total := by
      rw [step]
      exact (Sink.size_le_of_grows more.output_grows).trans room
    have first : Visits 1 m next := .step running step .start
    refine .step running ?_ (ih (first.unlimited unlimited) room)
    rw [step_withCapacity unlimited fits, step]
    rfl

/-- A run that ends with an output that fits ends in the same way if there is a limit. -/
lemma RunEnds.withCapacity {o : Outcome} (ends : RunEnds 0 m o)
    (unlimited : m.output.capacity = none) (room : o.machine.output.written.size ≤ total) :
    RunEnds 0 (m.withCapacity total) (o.map (Machine.withCapacity total)) := by
  cases ends with
  | stopped visits paid stopped => exact .stopped (visits.withCapacity unlimited room) paid stopped
  | @failed k n last e visits paid running step =>
    have fits : n.step.machine.output.written.size ≤ total := by
      rw [step]
      exact room
    have before := (Sink.size_le_of_grows (output_grows_of_step n)).trans fits
    refine .failed (visits.withCapacity unlimited before) paid running ?_
    rw [step_withCapacity (visits.unlimited unlimited) fits, step]
    rfl
  | spent visits budget used running =>
    exact .spent (visits.withCapacity unlimited room) budget used running

/-- An instruction that prints what does not fit fills the output up and does nothing else. -/
lemma execute_of_full (prints : i = .op .print ∨ i = .op .cprint) {v : Word} {s : List Word}
    (top : m.stack = v :: s) (full : ¬ m.output.fits (i.printed m.stack)) :
    m.execute i l = .failed (.stream .sinkFull)
      { m with output := m.output.write (i.printed m.stack) } := by
  rcases prints with rfl | rfl
  all_goals
    simp only [Instruction.printed, top] at full ⊢
    simp only [execute, top, write, if_neg full]
    rfl

section Passing

variable {k : Nat} {before after : Machine}

/-- A run that prints more than so many bytes does so in a first step. -/
lemma exists_passesAt (few : m.output.written.size ≤ total) (visits : Visits k m n)
    (paid : Affords m.budget k) (many : total < n.output.written.size) :
    ∃ j before after, PassesAt total m j before after ∧
      after.output.written.toList <+: n.output.written.toList := by
  obtain ⟨j, rest, before, after, to_before, first, -, step, passes, behind, sum⟩ :=
    visits.exists_first_loss (P := fun n => n.output.written.size ≤ total) few (Nat.not_le.2 many)
  obtain ⟨i, l, instruction, -, execute⟩ := exists_of_step_done step
  have printed := (streams_of_execute execute).1
  have some : i.printed before.stack ≠ [] := by
    intro none
    rw [none, Sink.write_nil] at printed
    exact passes (printed ▸ first j le_rfl before to_before)
  obtain ⟨prints, operand⟩ := Instruction.operand_of_printed some
  have prints_there := prints.imp (fun same => instruction.trans (congrArg Option.some same))
    fun same => instruction.trans (congrArg Option.some same)
  exact ⟨j, before, after, ⟨to_before, paid.mono (by omega), step, prints_there, operand,
    Nat.not_le.1 passes, first⟩, behind.output_grows⟩

variable (unlimited : m.output.capacity = none)
include unlimited

/-- With a limit, the step that passes it fails. -/
lemma PassesAt.step_withCapacity (passing : PassesAt total m k before after) :
    (before.withCapacity total).step = .failed (.stream .sinkFull)
      { before with output := ⟨(after.output.written.toList.take total).toArray, some total⟩ } := by
  have free := passing.visits.unlimited unlimited
  have few := passing.first k le_rfl before passing.visits
  obtain ⟨i, l, instruction, location, execute⟩ := exists_of_step_done passing.step
  have printed := (streams_of_execute execute).1
  have prints : i = .op .print ∨ i = .op .cprint := by
    simpa only [instruction, Option.some.injEq] using passing.prints
  obtain ⟨v, s, top⟩ := passing.operand
  have full : ¬ (before.output.withCapacity total).fits (i.printed before.stack) := by
    rw [Sink.fits_withCapacity_iff free few, ← printed, Nat.not_le]
    exact passing.passes
  rw [printed, ← Sink.write_withCapacity_eq_take free few]
  calc (before.withCapacity total).step
      = (before.withCapacity total).execute i l := step_eq_execute instruction location
    _ = _ := execute_of_full prints top full

/-- **With a limit, a run ends at the step that passes it.** -/
theorem PassesAt.ends (passing : PassesAt total m k before after) :
    (m.withCapacity total).Ends (.failed (.stream .sinkFull) { before with
      output := ⟨(after.output.written.toList.take total).toArray, some total⟩ }) := by
  have few := passing.first k le_rfl before passing.visits
  obtain ⟨i, l, instruction, -, -⟩ := exists_of_step_done passing.step
  have running : before.isRunning := isRunning_of_instruction? instruction
  have paid : Affords m.budget (0 + k + 1) := by
    rw [Nat.zero_add]
    exact passing.paid
  exact ends_iff.2 (.failed (passing.visits.withCapacity unlimited few) paid running
    (passing.step_withCapacity unlimited))

end Passing

/-! ## Runs with a limit -/

/-- What a machine that a run comes to has written, a machine that it visits has written. -/
lemma exists_visits_of_comesTo (unlimited : m.output.capacity = none) (comes : m.ComesTo n) :
    ∃ k last, Visits k m last ∧ Affords m.budget k ∧ last.output = n.output := by
  rcases comes with ⟨k, visits, paid⟩ | ⟨e, ends⟩
  · exact ⟨k, n, visits, paid, rfl⟩
  · cases ends_iff.1 ends with
    | @failed k last left e visits paid running step =>
      exact ⟨k, last, visits, paid.mono (by omega),
        (output_of_step_failed (visits.unlimited unlimited) step).symm⟩
    | @spent k limit n visits budget used running =>
      exact ⟨k, n, visits, budget ▸ affords_of_le (by omega), rfl⟩

/-- **A limit to the output cuts a run off cleanly.** Take a machine without a limit to its output,
and the same machine with room for `room` more bytes. If the run of the first one ends and has
written no more, the run of the second one ends in the same way and leaves the same. If the first
one ever writes more, the second one fails at the first instruction that prints past the limit,
since its output is full: of all the bytes that the first one writes it has written the first
`room`, and the operand is still on the stack. But for its output it is the machine that the first
run has in front of this instruction. If the first run does not end and never writes more, the
second one does not end either. -/
theorem run_withCapacity (unlimited : m.output.capacity = none) {room total : Nat}
    (sum : m.output.written.size + room = total) :
    (∀ o, m.Ends o → o.machine.output.written.size ≤ total →
      (m.withCapacity total).Ends (o.map (withCapacity total))) ∧
    (∀ n, m.ComesTo n → total < n.output.written.size →
      ∃ bytes k before after, n.output.written.toList = m.output.written.toList ++ bytes ∧
        PassesAt total m k before after ∧
        (m.withCapacity total).Ends (.failed (.stream .sinkFull) { before with
          output := ⟨m.output.written ++ bytes.take room, some total⟩ })) ∧
    ((∀ o, ¬ m.Ends o) → (∀ n, m.ComesTo n → n.output.written.size ≤ total) →
      ∀ o, ¬ (m.withCapacity total).Ends o) := by
  have few : m.output.written.size ≤ total := by omega
  refine ⟨fun o ends fits => ends_iff.2 ((ends_iff.1 ends).withCapacity unlimited fits), ?_, ?_⟩
  · intro n comes many
    obtain ⟨k, last, visits, paid, same⟩ := exists_visits_of_comesTo unlimited comes
    rw [← same] at many ⊢
    obtain ⟨bytes, append⟩ := visits.output_grows
    obtain ⟨j, before, after, passing, front⟩ := exists_passesAt few visits paid many
    refine ⟨bytes, j, before, after, append.symm, passing, ?_⟩
    have written : m.output.written ++ bytes.take room =
        (after.output.written.toList.take total).toArray := by
      apply Array.toList_inj.1
      calc (m.output.written ++ bytes.take room).toList
          = m.output.written.toList ++ bytes.take room := Array.toList_appendList
        _ = (m.output.written.toList ++ bytes).take (m.output.written.toList.length + room) :=
            (List.take_length_add_append room).symm
        _ = last.output.written.toList.take total := by
            rw [append, ← sum]
            rfl
        _ = after.output.written.toList.take total := by
            obtain ⟨more, whole⟩ := front
            rw [← whole, List.take_append_of_le_length passing.passes.le]
    rw [written]
    exact passing.ends unlimited
  · intro endless fits
    obtain ⟨free, visits⟩ := endless_iff.1 endless
    refine endless_iff.2 ⟨free, fun k => ?_⟩
    obtain ⟨n, visits⟩ := visits k
    have room : n.output.written.size ≤ total :=
      fits n (.inl ⟨k, visits, affords_of_unlimited free k⟩)
    exact ⟨_, visits.withCapacity unlimited room⟩

/-- Two integers of three characters each. With room for six bytes the run ends as without a limit;
with room for four it fails inside the second integer, behind its sign. -/
theorem run_withCapacity_inside_integer :
    ∃ m last cut : Machine, m.output.capacity = none ∧ m.Ends (.done last) ∧
      last.output.written.toList = Utf8.encode "345-12" ∧
      (m.withCapacity 6).Ends (.done (last.withCapacity 6)) ∧
      (m.withCapacity 4).Ends (.failed (.stream .sinkFull) cut) ∧
      cut.output.written.toList = Utf8.encode "345-" ∧ ∃ v s, cut.stack = v :: s := by
  let l : Location := ⟨"f", 1, 1⟩
  let m : Machine := ⟨⟨0, #[.push (-12), .push 345, .op .print, .op .print], #[l, l, l, l]⟩, 0, [],
    none, [], {}, {}⟩
  let printed : Bytes := [51, 52, 53, 45, 49, 50]
  let last : Machine := { m with pc := 4, output := ⟨⟨printed⟩, none⟩ }
  have run : m.run 5 = some (.done last) := by decide +kernel
  have front : (m.output.written ++ printed.take 4).toList = Utf8.encode "345-" := by
    decide +kernel
  obtain ⟨k, visits, -, paid⟩ := ends_done_iff.1 ⟨5, run⟩
  obtain ⟨same, -, -⟩ := @run_withCapacity m rfl 6 6 rfl
  obtain ⟨-, cut_off, -⟩ := @run_withCapacity m rfl 4 4 rfl
  obtain ⟨bytes, j, before, after, append, passing, ends⟩ :=
    cut_off last (.inl ⟨k, visits, paid⟩) (by decide)
  obtain rfl : printed = bytes := append
  exact ⟨m, last, _, rfl, ⟨5, run⟩, by decide +kernel, same _ ⟨5, run⟩ (by decide), ends, front,
    passing.operand⟩

end Machine

end StackAsm
