import StackAsm.Proofs.Compiler.Main

set_option autoImplicit false

/-!
# Compiled programs do what machines do

A compiled program and a machine that runs the same program without a budget take the same steps.
As long as the stack fits into the array, they write and read the same and end in the same way, or
neither of them ends; at the first step after which it does not, the compiled program ends.

**Proof sketch.** One turn of the loop does what one step does, in every state that holds the
machine. So the loop comes, turn by turn, by states that hold the machines of the run, and ends
where the run does. The turns that it takes and those of the loops inside an instruction are bounded
for each finite part of a run, which bounds the fuel that is needed.

## Main definitions

* `StackAsm.C.Source.Ends` — how a source file ends that does not go on forever.
* `StackAsm.Compiler.Shows` — what is left of a compiled program that has returned.

## Main results

* `StackAsm.Compiler.LoopEnds.of_visits` — the loop ends as it does later in the run.
* `StackAsm.Program.toC_mirrors_run` — compiled programs do what machines do.
-/

namespace StackAsm

/-- Executed on an input, a source file ends in a way of which `P` holds. It is given up only with
too little fuel. -/
def C.Source.Ends (source : C.Source) (input : Bytes) (P : C.Result C.Value → Prop) : Prop :=
  ∃ enough, ∀ fuel, P (source.run fuel input) ∨
    source.run fuel input = .unfinished ∧ fuel ≤ enough

namespace Compiler

open C

/-! ## The loop -/

section Loop

variable {size : Nat} {m next n : Machine} {P : Result Flow → Prop}

/-- In all states that hold a machine the loop ends in a way of which `P` holds, unless it is given
up for lack of turns. -/
def LoopEnds (size : Nat) (m : Machine) (P : Result Flow → Prop) : Prop :=
  ∃ enough, ∀ fuel turns s, Holds size m.pc m s →
    P (loop m.code size fuel turns s) ∨
      loop m.code size fuel turns s = .unfinished ∧ (turns ≤ enough ∨ fuel ≤ enough)

/-- A machine whose stack fits into the array is held by a state. -/
lemma exists_holds (few : m.stack.length ≤ size) : ∃ s, Holds size m.pc m s :=
  ⟨_, List.replicate (max size 1 - m.stack.length) 0, 0, 0, 0,
    by rw [List.length_replicate]; omega, rfl⟩

/-- The loop goes on after a turn for a step that leaves a short enough stack. -/
lemma LoopEnds.of_step (wf : m.code.WellFormed) (unlimited : m.Unlimited) (bound : size < 2 ^ 63)
    (few : m.stack.length ≤ size) (running : m.isRunning) (step : m.step = .done next)
    (fits : next.stack.length ≤ size) (ends : LoopEnds size next P) : LoopEnds size m P := by
  obtain ⟨enough, ends⟩ := ends
  refine ⟨max (enough + 1) (m.input.length + m.stack.length), ?_⟩
  intro fuel turns s holds
  cases turns with
  | zero => exact .inr ⟨loop_zero m.code fuel s, .inl (Nat.zero_le _)⟩
  | succ turns =>
    obtain ⟨r, turned, is⟩ := turned_of_running fuel wf unlimited bound few running holds
    rw [step] at turned
    cases turned with
    | @on _ flow s' fits going holds =>
      rw [loop_succ]
      rcases is with goes | ⟨stops, less⟩
      · have later := ends fuel turns s' holds
        rw [Machine.code_of_step step] at later
        rw [goes]
        rcases going with rfl | rfl <;>
          exact later.imp id fun ⟨stops, less⟩ => ⟨stops, by omega⟩
      · rw [stops]
        exact .inr ⟨rfl, .inr (by omega)⟩
    | overflow many fails => exact absurd fits (Nat.not_le.2 many)

/-- The loop ends with a turn that ends the program or returns. -/
lemma LoopEnds.of_last {k : Nat}
    (last : ∀ fuel s, Holds size m.pc m s → ∃ r, Final r ∧ P r ∧
      Result.Is fuel k r ((turn m.code).exec (libraryScope size fuel) fuel none s)) :
    LoopEnds size m P := by
  refine ⟨k, ?_⟩
  intro fuel turns s holds
  cases turns with
  | zero => exact .inr ⟨loop_zero m.code fuel s, .inl (Nat.zero_le _)⟩
  | succ turns =>
    obtain ⟨r, final, so, is⟩ := last fuel s holds
    rcases is with ends | ⟨stops, less⟩
    · rw [loop_succ_of_final final ends]
      exact .inl so
    · rw [loop_succ, stops]
      exact .inr ⟨rfl, .inr less⟩

/-- No turn follows a failure. -/
lemma FailsWith.final {message : String} {r : Result Flow} (fails : FailsWith message n r) :
    Final r := by
  obtain ⟨s, rfl, -⟩ := fails
  trivial

variable (size) in
/-- Where the machine has stopped, the loop returns zero. -/
lemma loopEnds_stopped (wf : m.code.WellFormed) (stopped : ¬ m.isRunning) :
    LoopEnds size m fun r => ∃ s, r = .ok (.return (.int .int 0)) s ∧ Holds size m.pc m s := by
  refine .of_last (k := 0) ?_
  intro fuel s holds
  exact ⟨.ok (.return (.int .int 0)) s, trivial, ⟨s, rfl, holds⟩,
    exec_turn_stopped fuel wf stopped holds⟩

/-- Where a step fails, the loop ends with the message of the error. -/
lemma loopEnds_failed {e : RuntimeError} {m' : Machine} (wf : m.code.WellFormed)
    (unlimited : m.Unlimited) (bound : size < 2 ^ 63) (few : m.stack.length ≤ size)
    (running : m.isRunning) (step : m.step = .failed e m') :
    ∃ message, failureMessage? e = some message ∧ LoopEnds size m (FailsWith message m') := by
  have turned (fuel : Nat) (s : State) (holds : Holds size m.pc m s) :=
    turned_of_running fuel wf unlimited bound few running holds
  rw [step] at turned
  obtain ⟨s, holds⟩ := exists_holds few
  obtain ⟨r, first, -⟩ := turned 0 s holds
  cases first with
  | @failed _ _ message _ raised fails =>
    refine ⟨message, raised, .of_last (k := m.input.length + m.stack.length) ?_⟩
    intro fuel s holds
    obtain ⟨r, turned, is⟩ := turned fuel s holds
    cases turned with
    | failed again fails =>
      rw [raised] at again
      cases again
      exact ⟨r, fails.final, fails, is⟩

/-- Where a step makes the stack too big, the loop ends with a stack overflow. -/
lemma loopEnds_overflow (wf : m.code.WellFormed)
    (unlimited : m.Unlimited) (bound : size < 2 ^ 63) (few : m.stack.length ≤ size)
    (running : m.isRunning) (step : m.step = .done next) (many : size < next.stack.length) :
    LoopEnds size m (FailsWith "stack overflow" m) := by
  refine .of_last (k := m.input.length + m.stack.length) ?_
  intro fuel s holds
  obtain ⟨r, turned, is⟩ := turned_of_running fuel wf unlimited bound few running holds
  rw [step] at turned
  cases turned with
  | on fits => exact absurd fits (Nat.not_le.2 many)
  | overflow many fails => exact ⟨r, fails.final, fails, is⟩

/-- **The loop ends as it does later in the run**, if all stacks up to there fit into the array. -/
theorem LoopEnds.of_visits {k : Nat} (visits : Machine.Visits k m n) (wf : m.code.WellFormed)
    (unlimited : m.Unlimited) (bound : size < 2 ^ 63)
    (fits : ∀ j ≤ k, ∀ v, Machine.Visits j m v → v.stack.length ≤ size)
    (ends : LoopEnds size n P) : LoopEnds size m P := by
  induction visits with
  | start => exact ends
  | @step k m next n running step more ih =>
    have few := fits 0 (Nat.zero_le _) m .start
    have later : ∀ j ≤ k, ∀ v, Machine.Visits j next v → v.stack.length ≤ size :=
      fun j le v visits => fits (j + 1) (Nat.succ_le_succ le) v (.step running step visits)
    refine .of_step wf unlimited bound few running step (later 0 (Nat.zero_le _) next .start) ?_
    exact ih (Machine.code_of_step step ▸ wf) (unlimited.of_setup (Machine.setup_of_step step))
      later ends

/-- The loop never ends if the run does not. -/
lemma loop_unfinished {taken : Nat} (wf : m.code.WellFormed) (unlimited : m.Unlimited)
    (bound : size < 2 ^ 63) (free : m.budget = none) (within : m.StaysWithin size)
    (run : ∀ fuel, m.runFrom fuel taken = none) (fuel turns : Nat) {s : State}
    (holds : Holds size m.pc m s) : loop m.code size fuel turns s = .unfinished := by
  induction turns generalizing m s taken with
  | zero => exact loop_zero m.code fuel s
  | succ turns ih =>
    obtain ⟨running, next, step, run⟩ := Machine.step_of_run_none free run
    obtain ⟨r, turned, is⟩ :=
      turned_of_running fuel wf unlimited bound within.start running holds
    have later := within.of_step running step
    rw [step] at turned
    rw [loop_succ]
    rcases is with goes | ⟨stops, -⟩
    · cases turned with
      | @on _ flow s' fits going holds =>
        have code := Machine.code_of_step step
        have ended := ih (code ▸ wf) (unlimited.of_setup (Machine.setup_of_step step))
          ((Machine.budget_of_step step).trans free) later run holds
        rw [code] at ended
        rw [goes]
        rcases going with rfl | rfl <;> exact ended
      | overflow many fails => exact absurd later.start (Nat.not_le.2 many)
    · rw [stops]

end Loop

/-! ## Whole runs -/

/-- What is left of a compiled program that has returned, where a machine has stopped: the stack,
bottom first, and the streams. -/
structure Shows (m : Machine) (s : State) : Prop where
  /-- The depth of the stack is in `sp`. -/
  depth : s.globals = [⟨"sp", .int64, some (.int .int64 m.stack.length)⟩]
  /-- The stack stands at the front of the array. -/
  values : s.array.take m.stack.length = m.stack.reverse.map Int64.toInt
  /-- The input that is not read. -/
  input : s.input = m.input
  /-- The output. -/
  output : s.output = m.output.written.toList
  /-- The diagnostics. -/
  diagnostics : s.diagnostics = m.diagnostics.written.toList

/-- A state that holds a machine shows it when the variables of the main function are gone. -/
lemma Holds.shows {size : Nat} {pc : Address} {m : Machine} {s : State}
    (holds : Holds size pc m s) : Shows m { s with locals := [] } := by
  obtain ⟨free, a, b, t, -, rfl⟩ := holds
  refine ⟨rfl, ?_, rfl, rfl, rfl⟩
  have length : m.stack.length = (m.stack.reverse.map Int64.toInt).length := by simp
  rw [memory, List.map_append, length, List.take_left]

/-- A fresh machine takes over the program that is loaded. -/
lemma load_fresh {p : Program} (fits : p.endAddress? ≠ none) (input : Bytes) :
    (Machine.fresh none input {} {}).load p = .ok ⟨p, p.start, [], none, input, {}, {}⟩ :=
  Machine.load_fresh_eq fits none input {} {}

/-- A compiled program begins with what the machine begins with. -/
lemma holds_start (p : Program) (size : Nat) (input : Bytes) :
    Holds size p.start ⟨p, p.start, [], none, input, {}, {}⟩
      (memory [] (List.replicate (max size 1) 0) (mainVars p.start 0 0 0) input [] []) :=
  ⟨_, 0, 0, 0, by simp, rfl⟩

/-- A compiled program ends as its loop does. -/
lemma ends_of_loopEnds {p : Program} {size : Nat} {input : Bytes} {P : Result Flow → Prop}
    {Q : Result Value → Prop} (bound : size < 2 ^ 63)
    (ends : LoopEnds size ⟨p, p.start, [], none, input, {}, {}⟩ P)
    (implies : ∀ r, P r → Q (returned r)) : (p.toC size).Ends input Q := by
  obtain ⟨enough, ends⟩ := ends
  refine ⟨enough, fun fuel => ?_⟩
  rw [run_toC p bound]
  rcases ends fuel fuel _ (holds_start p size input) with done | ⟨stops, few⟩
  · exact .inl (implies _ done)
  · rw [stops]
    exact .inr ⟨rfl, few.elim id id⟩

/-- The main function ends with the message that its loop ends with. -/
lemma FailsWith.returned {message : String} {m : Machine} {r : Result Flow}
    (fails : FailsWith message m r) : FailsWith message m (returned r) := by
  obtain ⟨s, rfl, streams⟩ := fails
  exact ⟨s, rfl, streams⟩

end Compiler

open Compiler

/-- **Compiled programs do what machines do.** Take a program with equally long tables and a last
address, a size for the stack of its compiled form and an input, and a fresh machine that loads the
program and has neither a budget nor limits to its sinks. If all stacks of its run fit into that
size, the compiled program returns where the run ends, fails with the wording of the error where the
run fails, and goes on forever where the run does. If they do not, it fails at the first step after
which the stack is too long, and has written by then what the machine had written before it. -/
theorem Program.toC_mirrors_run {p : Program} (tables : p.instructions.size = p.locations.size)
    (fits : p.endAddress? ≠ none) {size : Nat} (bound : size < 2 ^ 63) (input : Bytes) :
    ∃ m, (Machine.fresh none input {} {}).load p = .ok m ∧
      (m.StaysWithin size →
        (∀ fuel m', m.run fuel = some (.done m') →
          (p.toC size).Ends input fun r => ∃ s, r = .ok (.int .int 0) s ∧ Shows m' s) ∧
        (∀ fuel e m', m.run fuel = some (.failed e m') →
          ∃ message, failureMessage? e = some message ∧
            (p.toC size).Ends input (FailsWith message m')) ∧
        ((∀ fuel, m.run fuel = none) → ∀ fuel, (p.toC size).run fuel input = .unfinished)) ∧
      (∀ before, m.OutgrowsAt size before →
        (p.toC size).Ends input (FailsWith "stack overflow" before)) ∧
      (m.StaysWithin size ∨ ∃ before, m.OutgrowsAt size before) := by
  have wf : p.WellFormed := ⟨tables, Program.endAddress?_ne_none_iff.1 fits⟩
  let m : Machine := ⟨p, p.start, [], none, input, {}, {}⟩
  have unlimited : m.Unlimited := ⟨rfl, rfl⟩
  refine ⟨m, load_fresh fits input, fun within => ⟨?_, ?_, ?_⟩, ?_, ?_⟩
  · intro fuel m' run
    obtain ⟨k, visits, stopped⟩ := Machine.visits_of_run_done rfl run
    have last := loopEnds_stopped size (visits.code_eq ▸ wf) stopped
    refine ends_of_loopEnds bound
      (.of_visits visits wf unlimited bound (fun j _ => within j) last) ?_
    rintro r ⟨s, rfl, holds⟩
    exact ⟨_, rfl, holds.shows⟩
  · intro fuel e m' run
    obtain ⟨k, n, visits, running, step⟩ := Machine.visits_of_run_failed rfl run
    obtain ⟨message, raised, last⟩ := loopEnds_failed (visits.code_eq ▸ wf)
      (unlimited.of_setup visits.setup_eq) bound (within k n visits) running step
    refine ⟨message, raised, ends_of_loopEnds bound
      (.of_visits visits wf unlimited bound (fun j _ => within j) last) ?_⟩
    exact fun r fails => fails.returned
  · intro run fuel
    have loops := loop_unfinished wf unlimited bound rfl within run fuel fuel
      (holds_start p size input)
    rw [run_toC p bound, loops]
    rfl
  · rintro before ⟨k, visits, few, running, after, step, many⟩
    have last := loopEnds_overflow (visits.code_eq ▸ wf) (unlimited.of_setup visits.setup_eq) bound
      (few k (Nat.le_refl k) before visits) running step many
    refine ends_of_loopEnds bound (.of_visits visits wf unlimited bound few last) ?_
    exact fun r fails => fails.returned
  · exact Machine.staysWithin_or_outgrowsAt (Nat.zero_le size)

/-- A program that prints a number, which takes a stack of one value. -/
theorem Program.toC_mirrors_run_print :
    ∃ p : Program, p.instructions = #[.push 7, .op .print] ∧
      (p.toC 1).Ends [] fun r => ∃ s, r = .ok (.int .int 0) s ∧ s.output = Utf8.encode "7" := by
  let p : Program := ⟨0, #[.push 7, .op .print], #[⟨"f", 1, 1⟩, ⟨"f", 1, 3⟩]⟩
  refine ⟨p, rfl, ?_⟩
  obtain ⟨m, loaded, within, -⟩ :=
    toC_mirrors_run (p := p) rfl (by decide) (show 1 < 2 ^ 63 by decide) []
  obtain rfl : ⟨p, 0, [], none, [], {}, {}⟩ = m :=
    Except.ok.inj ((load_fresh (p := p) (by decide) []).symm.trans loaded)
  have first : Machine.step ⟨p, 0, [], none, [], {}, {}⟩ =
      .done ⟨p, 1, [7], none, [], {}, {}⟩ := rfl
  have second : Machine.step ⟨p, 1, [7], none, [], {}, {}⟩ =
      .done ⟨p, 2, [], none, [], ⟨#[55], none⟩, {}⟩ := by decide
  have short : Machine.StaysWithin 1 ⟨p, 0, [], none, [], {}, {}⟩ := by
    intro k n visits
    cases k with
    | zero =>
      cases visits
      decide
    | succ k =>
      have visits := visits.of_step first
      cases k with
      | zero =>
        cases visits
        decide
      | succ k =>
        have visits := visits.of_step second
        cases visits with
        | start => decide
        | step running => exact absurd running (by decide)
  obtain ⟨enough, ends⟩ := (within short).1 3 ⟨p, 2, [], none, [], ⟨#[55], none⟩, {}⟩ (by decide)
  exact ⟨enough, fun fuel => (ends fuel).imp (fun ⟨s, value, shows⟩ => ⟨s, value, shows.output⟩) id⟩

end StackAsm
