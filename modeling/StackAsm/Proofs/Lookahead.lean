import StackAsm.Proofs.Effect.Unnoticed

set_option autoImplicit false

/-!
# Input that is not consumed

An instruction that reads looks at the front of the input and takes what it has looked at, but for
the byte behind the last digit of an integer, which it leaves where it is. That byte tells it where
the digits end, so it does not matter what is behind that byte. And as long as there is a byte left,
no instruction has seen the end of the input. So a run that leaves some input unread goes the same
way however the input goes on.

## Main results

* `StackAsm.Numeral.split_append_of_rest` — the parts of an input that has a rest do not depend on
  what is behind it.
* `StackAsm.Machine.RunEnds.input_suffix` — a run only takes bytes off the front of the input.
* `StackAsm.Machine.execute_feed_of_reads`, `StackAsm.Machine.step_feed` — an instruction that reads
  does the same with more input, and so does a step.
* `StackAsm.Machine.run_feed_of_unread` — a run does not depend on input that it has not consumed.
-/

namespace StackAsm

/-! ## Integers at the front of an input -/

namespace Numeral

/-- Where bytes of one kind end before the input does, more input changes nothing. -/
lemma span_append_of_dropWhile {p : UInt8 → Bool} {bytes : Bytes}
    (ends : bytes.dropWhile p ≠ []) (more : Bytes) :
    (bytes ++ more).takeWhile p = bytes.takeWhile p ∧
      (bytes ++ more).dropWhile p = bytes.dropWhile p ++ more := by
  have front : (bytes.takeWhile p).length ≠ bytes.length := by
    intro all
    have whole := congrArg List.length (List.takeWhile_append_dropWhile (p := p) (l := bytes))
    rw [List.length_append] at whole
    exact ends (List.eq_nil_of_length_eq_zero (by omega))
  constructor
  · rw [List.takeWhile_append, if_neg front]
  · rw [List.dropWhile_append, if_neg (by simpa using ends)]

/-- A sign is split off alike if more follows. -/
lemma splitSign_append_of_ne_nil {bytes : Bytes} (nonempty : bytes ≠ []) (more : Bytes) :
    splitSign (bytes ++ more) = ((splitSign bytes).1, (splitSign bytes).2 ++ more) := by
  cases bytes with
  | nil => exact absurd rfl nonempty
  | cons b bytes => by_cases sign : isSign b <;> simp [splitSign, sign]

/-- **An input with a rest behind its digits falls into the same parts if more input follows.** -/
theorem split_append_of_rest {input : Bytes} (unread : (split input).rest ≠ []) (more : Bytes) :
    split (input ++ more) = { split input with rest := (split input).rest ++ more } := by
  let signed := input.dropWhile isBlank
  let unsigned := (splitSign signed).2
  have digits_end : unsigned.dropWhile isDigit ≠ [] := unread
  have blanks_end : signed ≠ [] := by
    intro none
    apply digits_end
    simp [unsigned, none, splitSign]
  obtain ⟨blank, signed_append⟩ := span_append_of_dropWhile blanks_end more
  obtain ⟨digits, rest⟩ := span_append_of_dropWhile digits_end more
  have sign := splitSign_append_of_ne_nil blanks_end more
  rw [split, Numeral.mk.injEq, blank, signed_append, sign]
  exact ⟨rfl, rfl, digits, rest⟩

end Numeral

namespace Machine

variable {m n : Machine} {i : Instruction} {l : Location} {o : Outcome}

/-! ## What is taken off the input -/

/-- An instruction leaves an end of the input. -/
lemma input_suffix_of_execute (m : Machine) (i : Instruction) (l : Location) :
    (m.execute i l).machine.input <:+ m.input := by
  by_cases reads : i.reads
  · rcases Instruction.reads_iff.1 reads with rfl | rfl
    · have parts := Numeral.split_append m.input
      simp only [execute, readInteger]
      split <;> exact ⟨_, parts⟩
    · simp only [execute, readByte]
      split
      · exact List.suffix_rfl
      · rename_i b rest front
        rw [front]
        exact List.suffix_cons b rest
  · rw [input_execute_of_not_reads reads]

/-- A step leaves an end of the input. -/
lemma input_suffix_of_step (m : Machine) : m.step.machine.input <:+ m.input := by
  unfold step
  split
  · exact input_suffix_of_execute m _ _
  · exact List.suffix_rfl

/-- At every point of a run an end of the input is left. -/
lemma Visits.input_suffix {k : Nat} (visits : Visits k m n) : n.input <:+ m.input := by
  induction visits with
  | start => exact List.suffix_rfl
  | @step k m next n running step more ih =>
    have taken_off := input_suffix_of_step m
    rw [step] at taken_off
    exact ih.trans taken_off

/-- A run takes bytes off the front of the input, and does nothing else to it. -/
theorem RunEnds.input_suffix {taken : Nat} (ends : RunEnds taken m o) :
    o.machine.input <:+ m.input := by
  cases ends with
  | stopped visits => exact visits.input_suffix
  | @failed k n last e visits _ _ step =>
    have taken_off := input_suffix_of_step n
    rw [step] at taken_off
    exact taken_off.trans visits.input_suffix
  | spent visits => exact visits.input_suffix

/-! ## More input -/

/-- Instructions that do not read do not notice more input. -/
lemma unnoticed_feed (more : Bytes) : Unnoticed fun n => n.feed more :=
  ⟨fun _ => rfl, fun _ => rfl, fun _ => rfl, fun _ => rfl, fun _ => rfl, fun _ _ _ => rfl,
    fun _ _ => rfl, fun _ _ => rfl⟩

/-- **An instruction that reads and leaves some input does the same with more input.** -/
theorem execute_feed_of_reads (reads : i.reads) (unread : (m.execute i l).machine.input ≠ [])
    (more : Bytes) : (m.feed more).execute i l = (m.execute i l).map fun n => n.feed more := by
  have input : (m.feed more).input = m.input ++ more := rfl
  rcases Instruction.reads_iff.1 reads with rfl | rfl
  · have rest : (Numeral.split m.input).rest ≠ [] := by
      simp only [execute, readInteger] at unread
      split at unread <;> exact unread
    have parts := Numeral.split_append_of_rest rest more
    have value : (Numeral.split (m.input ++ more)).value = (Numeral.split m.input).value := by
      rw [parts]
      rfl
    have left : (Numeral.split (m.input ++ more)).rest = (Numeral.split m.input).rest ++ more := by
      rw [parts]
    simp only [execute, readInteger, input, value, left]
    split <;> rfl
  · cases front : m.input with
    | nil =>
      -- at the end of the input a byte is read, too, and then none is left
      simp [execute, readByte, front, advance, Outcome.machine] at unread
    | cons b rest =>
      simp only [execute, readByte, input, front]
      rfl

/-- A step that leaves some input does the same with more input. -/
theorem step_feed (unread : m.step.machine.input ≠ []) (more : Bytes) :
    (m.feed more).step = m.step.map fun n => n.feed more := by
  refine (unnoticed_feed more).step fun i l found place reads => execute_feed_of_reads reads ?_ more
  simpa only [step, found, place] using unread

/-- A run that leaves some input goes the same way with more input.

**Proof sketch.** Induction on the states that the run looks at. The input that is left at the end
is left behind each step, too, so each step does the same with more input. -/
lemma runFrom_feed {fuel taken : Nat} (run : m.runFrom fuel taken = some o)
    (unread : o.machine.input ≠ []) (more : Bytes) :
    (m.feed more).runFrom fuel taken = some (o.map fun n => n.feed more) := by
  induction fuel generalizing taken m with
  | zero => cases run
  | succ fuel ih =>
    have running : (m.feed more).isRunning = m.isRunning := rfl
    have spent : (m.feed more).spent? taken = m.spent? taken := rfl
    unfold Machine.runFrom at run ⊢
    rw [running, spent]
    split at run
    · rename_i runs
      rw [if_pos runs]
      cases left : m.spent? taken with
      | some limit =>
        simp only [left] at run ⊢
        cases run
        rfl
      | none =>
        simp only [left] at run ⊢
        cases step : m.step with
        | done next =>
          simp only [step] at run
          have behind : m.step.machine.input ≠ [] := by
            intro none
            rw [step] at none
            have paid := budget_of_step step ▸ spent?_eq_none_iff.1 left
            have taken_off := (runEnds_of_runFrom run paid).input_suffix
            rw [show next.input = [] from none, List.suffix_nil] at taken_off
            exact unread taken_off
          rw [step_feed behind more, step]
          exact ih run
        | failed e last =>
          simp only [step] at run
          cases run
          have behind : m.step.machine.input ≠ [] := by rwa [step]
          rw [step_feed behind more, step]
          rfl
    · rename_i stopped
      rw [if_neg stopped]
      cases run
      rfl

/-- **A run does not depend on input that it has not consumed.** Let the run of a machine, whatever
its program, its budget and its input, come to an end and leave some of the input unread. Then, with
any bytes behind the input, it comes to the same end: it succeeds, or fails with the same error, and
leaves the same machine but for these bytes, which are unread behind the rest. -/
theorem run_feed_of_unread {fuel : Nat} (run : m.run fuel = some o)
    (unread : o.machine.input ≠ []) (more : Bytes) :
    (m.feed more).run fuel = some (o.map fun n => n.feed more) :=
  runFrom_feed run unread more

/-- Two `read`s in front of an integer and a sign that no digit follows: the second one fails, and
the letter behind the sign is left. -/
theorem run_feed_of_unread_lone_sign :
    ∃ (m : Machine) (o : Outcome), m.input = [52, 32, 45, 120] ∧ m.run 3 = some o ∧
      o.machine.input = [120] ∧ (m.feed [57]).run 3 = some (o.map fun n => n.feed [57]) ∧
      o.error? = some (.invalidInput .expectedInteger ⟨"f", 1, 6⟩) ∧ o.machine.stack = [4] ∧
      (o.map fun n => n.feed [57]).machine.input = [120, 57] := by
  let m : Machine := ⟨⟨0, #[.op .read, .op .read], #[⟨"f", 1, 1⟩, ⟨"f", 1, 6⟩]⟩, 0, [], none,
    [52, 32, 45, 120], {}, {}⟩
  have run : m.run 3 = some (.failed (.invalidInput .expectedInteger ⟨"f", 1, 6⟩)
      { m with pc := 1, stack := [4], input := [120] }) := by decide +kernel
  exact ⟨m, _, rfl, run, rfl, run_feed_of_unread run (by decide) [57], rfl, rfl, rfl⟩

end Machine

end StackAsm
