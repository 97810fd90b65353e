import StackAsm.Proofs.Session.Lines
import StackAsm.Proofs.Streams
import StackAsm.Session.Debugger

set_option autoImplicit false

/-!
# What the debugger executes

The debugger executes what a run executes. Between two steps it takes a line off the input of the
machine and writes to its output, and neither matters to a program that does not read; so debugger
and run take the same steps, and what the debugger writes can be said step by step.

**Proof sketch.** A machine in the debugger and the same machine in a run differ in their inputs and
outputs alone. As long as there is input the debugger waits for a line of it (`await_eq`), and what
it does in one turn is a step between two writes (`debugFrom_succ`). The step is that of the run
(`step_withStreams`), so the two stay alike by induction on the number of states looked at.

## Main definitions

* `StackAsm.Machine.Attempt` — a step that was attempted; `StackAsm.Machine.Attempt.display` — what
  the debugger shows of it.
* `StackAsm.Machine.Attempts` — the steps that a run attempts.
* `StackAsm.Machine.DebugsTo` — what the debugger comes to where a run attempts some steps.

## Main results

* `StackAsm.Machine.debugFrom_agrees` — debugger and run stay alike.
* `StackAsm.Machine.debug_agrees_with_run` — the debugger comes to what a run comes to.
-/

namespace StackAsm

/-- Behind the first line of an input there are its other lines. -/
lemma inputLines_splitLine (bytes : Bytes) :
    inputLines (splitLine bytes).2 = (inputLines bytes).tail := by
  rcases eq_or_ne bytes [] with rfl | nonempty
  · rfl
  · rw [inputLines_eq_cons nonempty, List.tail_cons]

namespace Machine

variable {m : Machine} {i : Instruction} {l : Location} {fuel taken : Nat} {waiting : Bool}

/-! ## The steps that a run attempts -/

/-- A step that a run attempts. -/
structure Attempt where
  /-- The instruction. -/
  instruction : Instruction
  /-- Where it comes from. -/
  location : Location
  /-- What was written to the output in the step. -/
  written : Bytes
  /-- The stack that the step has left, if it succeeded. -/
  left? : Option (List Word)
  deriving DecidableEq, Repr

/-- A run without a budget that starts at a machine attempts the given steps and ends with the given
outcome. -/
inductive Attempts : Machine → List Attempt → Outcome → Prop where
  /-- There is no instruction. -/
  | stopped {m : Machine} (stopped : ¬ m.isRunning) : Attempts m [] (.done m)
  /-- The next step fails. -/
  | failed {m last : Machine} {i : Instruction} {l : Location} {e : RuntimeError} {w : Writing}
      (instruction : m.instruction? = some i) (location : m.location? = some l)
      (step : m.step = .failed e last) (wrote : m.Wrote w last) :
    Attempts m [⟨i, l, w.output, none⟩] (.failed e last)
  /-- The next step succeeds, and the run goes on. -/
  | done {m next : Machine} {i : Instruction} {l : Location} {w : Writing} {rest : List Attempt}
      {o : Outcome} (instruction : m.instruction? = some i) (location : m.location? = some l)
      (step : m.step = .done next) (wrote : m.Wrote w next) (more : Attempts next rest o) :
    Attempts m (⟨i, l, w.output, some next.stack⟩ :: rest) o

/-! ## What the debugger shows -/

/-- What the debugger shows before a step: its banner, and a line feed unless a line was `typed`. -/
def shownBefore (i : Instruction) (l : Location) (typed : Bool) : Bytes :=
  Utf8.encode (banner i l) ++ if typed then [] else Utf8.encode "\n"

/-- What the debugger shows behind a step that succeeded: the stack, and before it a line feed
behind the byte that `cprint` writes. -/
def shownBehind (i : Instruction) (stack : List Word) : Bytes :=
  (if i = .op .cprint then Utf8.encode "\n" else []) ++
    Utf8.encode (StackAsm.stackText stack.reverse ++ "\n")

/-- What the debugger shows of a step: what it shows before it, what is written in the step, and
what is shown behind it if it succeeds. -/
def Attempt.display (a : Attempt) (typed : Bool) : Bytes :=
  shownBefore a.instruction a.location typed ++ a.written ++
    match a.left? with
    | some stack => shownBehind a.instruction stack
    | none => []

/-- What the debugger shows of all steps if there are `lines` lines of input: a line is typed for
each of the first ones. -/
def displayAll (lines : Nat) (attempts : List Attempt) : Bytes :=
  (attempts.mapIdx fun k a => a.display (k < lines)).flatten

/-- What is shown of several steps is what is shown of the first one and of the others, a line
being typed for it if there is one. -/
lemma displayAll_cons (lines : Nat) (a : Attempt) (attempts : List Attempt) :
    displayAll lines (a :: attempts) =
      a.display (0 < lines) ++ displayAll (lines - 1) attempts := by
  have shift (k : Nat) : decide (k + 1 < lines) = decide (k < lines - 1) := by
    rw [decide_eq_decide]
    omega
  simp only [displayAll, List.mapIdx_cons, List.flatten_cons, shift]

/-- What the debugger comes to, beginning with the given input and output, where a run that attempts
the given steps comes to `o`: it ends in the same way, with the same stack, program counter and
diagnostics; it has shown each step, and has taken a line for each step as long as there was one. -/
structure DebugsTo (input : Bytes) (output : Sink) (attempts : List Attempt) (o d : Outcome) :
    Prop where
  /-- Both succeed, or both fail with the same error. -/
  error : d.error? = o.error?
  /-- They leave the same stack. -/
  stack : d.machine.stack = o.machine.stack
  /-- They leave the same program counter. -/
  pc : d.machine.pc = o.machine.pc
  /-- They leave the same diagnostics. -/
  diagnostics : d.machine.diagnostics = o.machine.diagnostics
  /-- The debugger has written what it shows of the steps. -/
  written : d.machine.output.written.toList =
    output.written.toList ++ displayAll (inputLines input).length attempts
  /-- The debugger has taken one line for each step, as long as there was one. -/
  unread : d.machine.input =
    ((inputLines input).drop (min attempts.length (inputLines input).length)).flatten

/-! ## One turn of the debugger -/

/-- Waiting takes the first line off the input, if there is one, and tells whether there was one. -/
lemma await_eq (decodes : (Utf8.decode? m.input).isSome) (ready : waiting ∨ m.input = []) :
    m.await waiting = (.ok (m.input ≠ []), { m with input := (splitLine m.input).2 }) := by
  cases waiting with
  | true =>
    have line := (isSome_decode?_splitLine decodes).1
    rcases eq_or_ne m.input [] with empty | nonempty
    · have nothing : Utf8.decode? [] = some "" := Utf8.decode?_encode ""
      simp [await, takeLine, empty, nothing, splitLine]
    · simp [await, takeLine, line, splitLine_fst_ne_nil nonempty, nonempty]
  | false =>
    have empty : m.input = [] := ready.resolve_left Bool.false_ne_true
    have same : { m with input := [] } = m := by rw [← empty]
    simp [await, empty, splitLine, same]

/-- In a turn the debugger takes a step between two writes. -/
lemma debugStep_eq (unlimited : m.Unlimited) (i : Instruction) (typed : Bool) :
    m.debugStep i typed =
      { m with output := m.output.write (if typed then [] else Utf8.encode "\n") }.step.andThen
        fun next => .done { next with
          output := next.output.write (shownBehind i next.stack) } := by
  have fed : (if typed then Outcome.done m else m.write (Utf8.encode "\n")) =
      .done { m with output := m.output.write (if typed then [] else Utf8.encode "\n") } := by
    cases typed with
    | true => simp [Sink.write_nil]
    | false => simp [write_of_unlimited unlimited]
  rw [debugStep, fed, Outcome.andThen_done]
  generalize stepped :
    { m with output := m.output.write (if typed then [] else Utf8.encode "\n") } = n
  have unlimited' : n.Unlimited := stepped ▸ unlimited.of_setup rfl
  cases step : n.step with
  | failed e last => rfl
  | done next =>
    have sinks : next.Unlimited := unlimited'.of_setup (setup_of_step step)
    rw [Outcome.andThen_done, Outcome.andThen_done]
    by_cases cprint : i = .op .cprint
    · have sinks' : { next with output := next.output.write (Utf8.encode "\n") }.Unlimited :=
        sinks.of_setup rfl
      rw [if_pos cprint, write_of_unlimited sinks, Outcome.andThen_done,
        write_of_unlimited sinks', shownBehind, if_pos cprint,
        Sink.write_append_of_unlimited sinks.output]
      rfl
    · rw [if_neg cprint, Outcome.andThen_done, write_of_unlimited sinks, shownBehind,
        if_neg cprint, List.nil_append]
      rfl

/-- The machine at which the debugger takes its next step: the banner is written, a line taken off
the input, and a line feed written if there was none. -/
def awaited (m : Machine) (i : Instruction) (l : Location) : Machine :=
  { m with
    input := (splitLine m.input).2
    output := m.output.write (shownBefore i l (m.input ≠ [])) }

/-- **A turn of the debugger.** -/
theorem debugFrom_succ (unlimited : m.Unlimited) (instruction : m.instruction? = some i)
    (location : m.location? = some l) (decodes : (Utf8.decode? m.input).isSome)
    (ready : waiting ∨ m.input = []) (fuel : Nat) :
    m.debugFrom (fuel + 1) waiting =
      match (m.awaited i l).step with
      | .failed e last => some (.failed e last)
      | .done next =>
        { next with output := next.output.write (shownBehind i next.stack) }.debugFrom fuel
          (m.input ≠ []) := by
  let taken : Machine := { m with
    input := (splitLine m.input).2
    output := m.output.write (Utf8.encode (banner i l)) }
  have await : { m with output := m.output.write (Utf8.encode (banner i l)) }.await waiting =
      (.ok (m.input ≠ []), taken) := await_eq decodes ready
  have sinks : taken.Unlimited := unlimited.of_setup rfl
  have fed : taken.output.write (if decide (m.input ≠ []) then [] else Utf8.encode "\n") =
      (m.awaited i l).output := by
    simp only [taken, awaited, shownBefore, Sink.write_append_of_unlimited unlimited.output]
  have turn : taken.debugStep i (m.input ≠ []) = (m.awaited i l).step.andThen fun next =>
      .done { next with output := next.output.write (shownBehind i next.stack) } := by
    rw [debugStep_eq sinks, fed]
    rfl
  rw [debugFrom]
  simp only [instruction, location, write_of_unlimited unlimited, await, turn]
  cases (m.awaited i l).step with
  | failed e last => rfl
  | done next => rfl

/-! ## Debugger and run, side by side -/

section DebugsTo

variable {input : Bytes} {output : Sink} {a : Attempt} {attempts : List Attempt} {o d : Outcome}

/-- There is a line exactly if the input is not empty. -/
lemma display_eq (input : Bytes) (a : Attempt) :
    a.display (0 < (inputLines input).length) = a.display (input ≠ []) := by
  congr 1
  rw [decide_eq_decide, List.length_pos_iff, ne_eq, ne_eq, inputLines_eq_nil_iff]

/-- What the debugger shows of a step comes before what it shows of the others. -/
lemma DebugsTo.cons (sink : output.capacity = none)
    (more : DebugsTo (splitLine input).2 (output.write (a.display (input ≠ []))) attempts o d) :
    DebugsTo input output (a :: attempts) o d where
  error := more.error
  stack := more.stack
  pc := more.pc
  diagnostics := more.diagnostics
  written := by
    rw [more.written, Sink.written_write_of_unlimited sink, displayAll_cons, display_eq,
      inputLines_splitLine, List.length_tail, List.append_assoc]
  unread := by
    rw [more.unread, inputLines_splitLine]
    cases inputLines input with
    | nil => simp
    | cons line lines => simp [Nat.succ_min_succ]

/-- Where a run fails in its first step, the debugger has shown this step. -/
lemma DebugsTo.single (sink : output.capacity = none) (error : d.error? = o.error?)
    (stack : d.machine.stack = o.machine.stack) (pc : d.machine.pc = o.machine.pc)
    (diagnostics : d.machine.diagnostics = o.machine.diagnostics)
    (written : d.machine.output = output.write (a.display (input ≠ [])))
    (unread : d.machine.input = (splitLine input).2) : DebugsTo input output [a] o d :=
  .cons sink
    { error, stack, pc, diagnostics
      written := by rw [written]; simp [displayAll]
      unread := by rw [unread]; simp [flatten_inputLines] }

end DebugsTo

/-- **Debugger and run stay alike**, as long as there is nothing to read for the steps of the run:
neither is over, or both are, and the debugger comes to what the run comes to. -/
theorem debugFrom_agrees (wf : m.code.WellFormed) (free : m.Free) {input : Bytes} {output : Sink}
    (sink : output.capacity = none) (decodes : (Utf8.decode? input).isSome)
    (ready : waiting ∨ input = [])
    (quiet : ∀ n i, RunStepsAt taken m n → n.instruction? = some i → i.reads →
      m.input = [] ∧ input = []) (fuel : Nat) :
    (m.runFrom fuel taken = none ∧
      (m.withStreams input output m.diagnostics).debugFrom fuel waiting = none) ∨
    ∃ attempts o d, m.runFrom fuel taken = some o ∧
      (m.withStreams input output m.diagnostics).debugFrom fuel waiting = some d ∧
      Attempts m attempts o ∧ DebugsTo input output attempts o d := by
  induction fuel generalizing m input output waiting taken with
  | zero => exact .inl ⟨rfl, rfl⟩
  | succ fuel ih =>
    have spent := spent?_of_unlimited free.budget taken
    have sinks : (m.withStreams input output m.diagnostics).Unlimited :=
      ⟨sink, free.unlimited.diagnostics⟩
    rw [runFrom, spent]
    by_cases running : m.isRunning
    · obtain ⟨i, instruction⟩ :=
        Option.isSome_iff_exists.1 (Program.isSome_instructionAt?_iff.2 running)
      obtain ⟨l, location⟩ := Option.isSome_iff_exists.1 (wf.isSome_locationAt?_iff.2 running)
      let rest := (splitLine input).2
      let typed : Bool := input ≠ []
      have rest_eq_nil (empty : input = []) : rest = [] := by
        rw [show rest = (splitLine input).2 from rfl, empty]
        rfl
      have awaited : (m.withStreams input output m.diagnostics).awaited i l =
        m.withStreams rest (output.write (shownBefore i l typed)) m.diagnostics := rfl
      have agree : Agree m rest (output.write (shownBefore i l typed)) m.diagnostics
          (some m.step) (some _) :=
        step_withStreams free.unlimited ⟨sink, free.unlimited.diagnostics⟩ fun j found reads =>
          (quiet m j (.now running spent) found reads).imp_right rest_eq_nil
      rw [if_pos running, debugFrom_succ sinks instruction location decodes ready, awaited]
      cases agree with
      | @finished _ _ w unread wrote same =>
        rw [same]
        cases step : m.step with
        | failed e last =>
          rw [step] at wrote
          have shown : (output.write (shownBefore i l typed)).write w.output =
              output.write (Attempt.display ⟨i, l, w.output, none⟩ typed) := by
            rw [Attempt.display, List.append_nil, Sink.write_append_of_unlimited sink]
          exact .inr ⟨_, _, _, rfl, rfl, .failed instruction location step wrote,
            .single sink rfl rfl rfl wrote.diagnostics.symm shown rfl⟩
        | done next =>
          rw [step] at wrote unread
          let a : Attempt := ⟨i, l, w.output, some next.stack⟩
          have shown : ((output.write (shownBefore i l typed)).write w.output).write
              (shownBehind i next.stack) = output.write (a.display typed) := by
            rw [Attempt.display, Sink.write_append_of_unlimited sink,
              Sink.write_append_of_unlimited sink]
          have diagnostics : m.diagnostics.write w.diagnostics = next.diagnostics :=
            wrote.diagnostics.symm
          have ready' : typed ∨ rest = [] := by
            by_cases empty : input = []
            · exact .inr (rest_eq_nil empty)
            · exact .inl (decide_eq_true empty)
          have quiet' (n : Machine) (j : Instruction) (steps : RunStepsAt (taken + 1) next n)
              (found : n.instruction? = some j) (reads : j.reads) :
              next.input = [] ∧ rest = [] := by
            obtain ⟨empty, none⟩ := quiet n j (.later running spent step steps) found reads
            exact ⟨unread.trans empty, rest_eq_nil none⟩
          have sink' : (output.write (a.display typed)).capacity = none := sink
          have alike := ih (m := next) (code_of_step step ▸ wf)
            (free.of_setup (setup_of_step step)) sink' (isSome_decode?_splitLine decodes).2 ready'
            quiet'
          rw [← shown, ← diagnostics] at alike
          rcases alike with unfinished | ⟨attempts, o, d, run, debug, attempted, debugs⟩
          · exact .inl unfinished
          · rw [shown] at debugs
            exact .inr ⟨a :: attempts, o, d, run, debug,
              .done instruction location step wrote attempted, debugs.cons sink⟩
    · have stopped : (m.withStreams input output m.diagnostics).instruction? = none := by
        rw [← Option.not_isSome_iff_eq_none]
        exact fun found => running (Program.isSome_instructionAt?_iff.1 found)
      rw [if_neg running, debugFrom, stopped]
      exact .inr ⟨[], _, _, rfl, rfl, .stopped running,
        { error := rfl
          stack := rfl
          pc := rfl
          diagnostics := rfl
          written := (List.append_nil _).symm
          unread := by
            rw [List.length_nil, Nat.zero_min, List.drop_zero, flatten_inputLines]
            rfl }⟩

/-- **The debugger executes what a run executes.** Take a machine without a budget whose sinks take
all that is written, and whose input is a text that is empty or that no step of the run reads from.
The run and the debugger both never end, or both end, with the same error if there is one, with the
same stack, program counter and diagnostics. The output of the debugger is its heading and what it
shows of each step that the run attempts, and it has taken a line off the input for each of them, as
long as there was one. -/
theorem debug_agrees_with_run (reachable : Reachable m) (free : m.Free)
    (decodes : (Utf8.decode? m.input).isSome)
    (quiet : m.input = [] ∨
      ∀ n i, Operation.StepsAt m n .run → n.instruction? = some i → ¬ i.reads) (fuel : Nat) :
    (m.run fuel = none ∧ m.debug fuel = none) ∨
    ∃ attempts o d, m.run fuel = some o ∧ m.debug fuel = some d ∧ Attempts m attempts o ∧
      DebugsTo m.input (m.output.write (Utf8.encode debugHeading)) attempts o d := by
  have quiet' (n : Machine) (i : Instruction) (steps : RunStepsAt 0 m n)
      (found : n.instruction? = some i) (reads : i.reads) : m.input = [] ∧ m.input = [] := by
    rcases quiet with empty | quiet
    · exact ⟨empty, empty⟩
    · exact absurd reads (quiet n i steps found)
  have sink : (m.output.write (Utf8.encode debugHeading)).capacity = none := free.unlimited.output
  have ready : true ∨ m.input = [] := .inl rfl
  rw [debug, write_of_unlimited free.unlimited]
  exact debugFrom_agrees (wellFormed_of_reachable reachable) free sink decodes ready quiet' fuel

/-- A program jumps over an instruction and then fails, while there are fewer lines than steps and
the last line does not end. -/
theorem debug_agrees_with_run_underflow :
    ∃ m attempts o d, Reachable m ∧ m.input = Utf8.encode "\nx" ∧ m.run 9 = some o ∧
      m.debug 9 = some d ∧ Attempts m attempts o ∧
      DebugsTo m.input (m.output.write (Utf8.encode debugHeading)) attempts o d ∧
      d.error? = some (.stackUnderflow (.op .add) ⟨"f", 2, 5⟩) ∧ d.machine.stack = [] ∧
      d.machine.pc = 10 := by
  let p : Program :=
    ⟨5, #[.push 33, .op .cprint, .push 10, .op .jmp, .op .dbg, .op .add],
      #[⟨"f", 1, 1⟩, ⟨"f", 1, 4⟩, ⟨"f", 1, 11⟩, ⟨"f", 1, 17⟩, ⟨"f", 2, 1⟩, ⟨"f", 2, 5⟩]⟩
  let m : Machine := ⟨p, 5, [], none, Utf8.encode "\nx", {}, {}⟩
  let last : Machine := { m with pc := 10, output := m.output.write [33] }
  have reachable : Reachable m :=
    @Reachable.perform _ _ (.load p) (.fresh none (Utf8.encode "\nx") {} {}) rfl rfl
  have silent : Silent m.code := by
    unfold Silent
    decide
  have quiet (n : Machine) (i : Instruction) (steps : Operation.StepsAt m n .run)
      (found : n.instruction? = some i) : ¬ i.reads := by
    have same : n.code = m.code := (isRunning_of_runStepsAt steps).2
    exact (same ▸ silent : Silent n.code).not_reads found
  have decodes : (Utf8.decode? m.input).isSome := by
    rw [Utf8.decode?_encode]
    rfl
  have run : m.run 9 = some (.failed (.stackUnderflow (.op .add) ⟨"f", 2, 5⟩) last) := by
    decide +kernel
  rcases debug_agrees_with_run reachable ⟨rfl, rfl, rfl⟩ decodes (.inr quiet) 9 with
    ⟨none, -⟩ | ⟨attempts, o, d, run', debug, attempted, debugs⟩
  · rw [run] at none
    cases none
  · obtain rfl := Option.some.inj (run'.symm.trans run)
    exact ⟨m, attempts, _, d, reachable, rfl, run, debug, attempted, debugs, debugs.error,
      debugs.stack, debugs.pc⟩

end Machine

end StackAsm
