import StackAsm.Proofs.Budget
import StackAsm.Proofs.Lookahead
import StackAsm.Proofs.Session.Dialogue

set_option autoImplicit false

/-!
# Sessions within a budget

Each line of a session that is a program is run with the whole budget, whatever the lines before it
have used. So a session with a budget ends: every turn takes at least the line off the input, which
is not empty, and a program takes nothing but bytes off the front of what is left; and the run of a
turn is over when its budget is used up.

## Main definitions

* `StackAsm.Machine.Executes` — how many instructions a run executes.
* `StackAsm.Machine.Accepts`, `StackAsm.Machine.GoesOn`, `StackAsm.Machine.BreaksOff` — a session
  accepts its next line, goes on behind it, or is ended by the answer to it.
* `StackAsm.Machine.TurnWithin` — a turn of a session stays within a budget.

## Main results

* `StackAsm.Machine.Executes.le_limit` — a run executes as many instructions as its budget pays for.
* `StackAsm.Machine.GoesOn.exists_consumed` — every turn takes something off the input.
* `StackAsm.Machine.exists_interact_of_budget` — a session with a budget ends.
* `StackAsm.Machine.breaksOff_spent_iff` — when a line is cut off.
* `StackAsm.Machine.interact_within_budget` — all of this for the turns that a session comes to.
-/

namespace StackAsm.Machine

variable {m n next last taken loaded : Machine} {o : Outcome} {e : RuntimeError} {line : Bytes}
  {text : String} {fuel k before limit : Nat}

/-! ## The instructions that a run executes -/

/-- A run, `before` steps of which are taken already, executes `k` more instructions and ends with
the given outcome. An instruction that fails is executed, too. -/
inductive Executes : (before k : Nat) → Machine → Outcome → Prop where
  /-- There is no instruction. -/
  | stopped {before : Nat} {m : Machine} (stopped : ¬ m.isRunning) : Executes before 0 m (.done m)
  /-- The budget does not pay for the next instruction. -/
  | spent {before limit : Nat} {m : Machine} (running : m.isRunning)
    (spent : m.spent? before = some limit) :
    Executes before 0 m (.failed (.stepLimitExceeded limit) m)
  /-- The next instruction fails. -/
  | failed {before : Nat} {m last : Machine} {e : RuntimeError} (running : m.isRunning)
    (paid : m.spent? before = none) (step : m.step = .failed e last) :
    Executes before 1 m (.failed e last)
  /-- The next instruction succeeds, and the run goes on. -/
  | step {before k : Nat} {m next : Machine} {o : Outcome} (running : m.isRunning)
    (paid : m.spent? before = none) (step : m.step = .done next)
    (more : Executes (before + 1) k next o) : Executes before (k + 1) m o

/-- A run that looks at one state more than it executes instructions is over. -/
lemma Executes.runFrom (executes : Executes before k m o) :
    m.runFrom (k + 1) before = some o := by
  induction executes with
  | stopped stopped => rw [Machine.runFrom, if_neg stopped]
  | spent running spent => rw [Machine.runFrom, if_pos running, spent]
  | failed running paid step =>
    rw [Machine.runFrom, if_pos running, paid]
    simp only [step]
  | step running paid step more ih =>
    rw [Machine.runFrom, if_pos running, paid]
    simp only [step]
    exact ih

/-- **A run that is over has executed some number of instructions.** -/
theorem exists_executes (run : m.runFrom fuel before = some o) :
    ∃ k, Executes before k m o := by
  induction fuel generalizing m before with
  | zero => cases run
  | succ fuel ih =>
    unfold Machine.runFrom at run
    by_cases running : m.isRunning
    · rw [if_pos running] at run
      cases spent : m.spent? before with
      | some limit =>
        simp only [spent] at run
        cases run
        exact ⟨0, .spent running spent⟩
      | none =>
        simp only [spent] at run
        cases step : m.step with
        | failed e last =>
          simp only [step] at run
          cases run
          exact ⟨1, .failed running spent step⟩
        | done next =>
          simp only [step] at run
          obtain ⟨k, executes⟩ := ih run
          exact ⟨k + 1, .step running spent step executes⟩
    · rw [if_neg running] at run
      cases run
      exact ⟨0, .stopped running⟩

/-- **A run executes no more instructions than its budget pays for.** -/
theorem Executes.le_limit (executes : Executes before k m o) (budget : m.budget = some limit)
    (le : before ≤ limit) : before + k ≤ limit := by
  induction executes with
  | stopped | spent => exact le
  | failed running paid step => exact spent?_eq_none_iff.1 paid limit budget
  | @step before k m next o running paid step more ih =>
    have paid_for := spent?_eq_none_iff.1 paid limit budget
    have rest := ih ((budget_of_step step).trans budget) paid_for
    omega

/-! ## Turns -/

/-- A session accepts its next line, and the run that answers it starts at the machine `loaded`. -/
inductive Accepts (m : Machine) : (loaded : Machine) → Prop where
  /-- The line is a program, and is loaded. -/
  | accepts {taken loaded : Machine} {line : Bytes} {text : String}
    (takes : m.TakesLine line taken) (decoded : Utf8.decode? line = some text)
    (load : taken.loadLine text = .ok loaded) : Accepts m loaded

/-- A session answers its next line and goes on behind it. -/
inductive GoesOn (m : Machine) : (next : Machine) → Prop where
  /-- The line is answered. -/
  | answered {fuel : Nat} {taken next : Machine} {line : Bytes} (takes : m.TakesLine line taken)
    (answer : taken.answerLine fuel line = some (.done next)) : GoesOn m next

/-- A session is ended by an error in the answer to its next line. -/
inductive BreaksOff (m : Machine) : (e : RuntimeError) → (last : Machine) → Prop where
  /-- The answer fails. -/
  | answered {fuel : Nat} {taken last : Machine} {line : Bytes} {e : RuntimeError}
    (takes : m.TakesLine line taken)
    (answer : taken.answerLine fuel line = some (.failed e last)) : BreaksOff m e last

/-- A line that is a program is answered by its run. -/
lemma answerLine_of_load (decoded : Utf8.decode? line = some text)
    (load : taken.loadLine text = .ok loaded) (fuel : Nat) :
    taken.answerLine fuel line = (loaded.run fuel).map fun o =>
      o.andThen fun m => m.write (Utf8.encode (m.stackText ++ "\n")) := by
  simp only [answerLine, decoded, load]

/-- Loading a line leaves the budget and the streams alone. -/
lemma kept_of_loadLine (load : taken.loadLine text = .ok loaded) :
    loaded.budget = taken.budget ∧ loaded.input = taken.input := by
  obtain ⟨tokens, q, -, -, rfl⟩ := exists_of_loadLine load
  exact ⟨rfl, rfl⟩

/-- The prompt is not read, and the line is all that is taken off the input. -/
lemma TakesLine.kept (takes : m.TakesLine line taken) :
    line ≠ [] ∧ taken.budget = m.budget ∧ m.input = line ++ taken.input := by
  obtain ⟨ask, more⟩ := takes
  obtain rfl := eq_of_write ask
  exact ⟨more, rfl, (splitLine_append m.input).symm⟩

/-- An answer leaves the budget alone, and takes nothing but bytes off the front of the input. -/
lemma kept_of_answerLine (answer : taken.answerLine fuel line = some (.done next)) :
    next.budget = taken.budget ∧ next.input <:+ taken.input := by
  cases decoded : Utf8.decode? line with
  | none =>
    simp only [answerLine, decoded] at answer
    cases answer
  | some text =>
    cases load : taken.loadLine text with
    | error message =>
      simp only [answerLine, decoded, load, Option.some.injEq] at answer
      unfold report at answer
      split at answer <;> cases answer
      exact ⟨rfl, List.suffix_rfl⟩
    | ok loaded =>
      rw [answerLine_of_load decoded load] at answer
      obtain ⟨ran, run, shown⟩ := Option.map_eq_some_iff.1 answer
      obtain ⟨budget, input⟩ := kept_of_loadLine load
      cases ran with
      | failed e last => cases shown
      | done ran =>
        have ends : RunEnds 0 loaded (.done ran) := runEnds_of_runFrom run (affords_zero _)
        have taken_off := ends.input_suffix
        obtain rfl := eq_of_write shown
        rw [input] at taken_off
        refine ⟨?_, taken_off⟩
        cases ends with
        | stopped visits => exact visits.budget_eq.trans budget

/-- A session goes on with the budget it has. -/
lemma GoesOn.budget_eq (goesOn : m.GoesOn next) : next.budget = m.budget := by
  obtain ⟨takes, answer⟩ := goesOn
  exact (kept_of_answerLine answer).1.trans takes.kept.2.1

/-- **Every turn takes something off the input**: the line, and what its run has read. -/
theorem GoesOn.exists_consumed (goesOn : m.GoesOn next) :
    ∃ front, front ≠ [] ∧ m.input = front ++ next.input := by
  obtain ⟨takes, answer⟩ := goesOn
  obtain ⟨nonempty, -, input⟩ := takes.kept
  obtain ⟨read, rest⟩ := (kept_of_answerLine answer).2
  exact ⟨_ ++ read, List.append_ne_nil_of_left_ne_nil nonempty _, by
    rw [input, ← rest, List.append_assoc]⟩

/-- A session goes on with less input. -/
lemma GoesOn.length_lt (goesOn : m.GoesOn next) : next.input.length < m.input.length := by
  obtain ⟨front, nonempty, input⟩ := goesOn.exists_consumed
  rw [input, List.length_append]
  exact Nat.lt_add_of_pos_left (List.length_pos_iff.2 nonempty)

/-! ## Sessions that end -/

/-- A session that is over stays as it is if more is allowed. -/
lemma interact_mono {more : Nat} (ends : m.interact fuel = some o) (le : fuel ≤ more) :
    m.interact more = some o := by
  induction fuel generalizing m more with
  | zero => cases ends
  | succ fuel ih =>
    obtain ⟨more, rfl⟩ := Nat.exists_eq_add_one_of_ne_zero (n := more) (by omega)
    rw [interact] at ends ⊢
    split at ends
    · exact ends
    · rename_i asked ask
      dsimp only at ends ⊢
      split_ifs at ends ⊢ with none
      · exact ends
      · cases answer : asked.takeLine.2.answerLine (fuel + 1) asked.takeLine.1 with
        | none => simp only [answer, reduceCtorEq] at ends
        | some answered =>
          rw [answerLine_mono answer le]
          rw [answer] at ends
          cases answered with
          | failed e last => exact ends
          | done next => exact ih ends (Nat.le_of_succ_le_succ le)

/-- With a budget every line is answered. -/
lemma exists_answerLine_of_budget (budget : taken.budget = some limit) (enough : limit < fuel)
    (line : Bytes) : ∃ o, taken.answerLine fuel line = some o := by
  cases decoded : Utf8.decode? line with
  | none => exact ⟨.failed (.stream .invalidUtf8) taken, by simp only [answerLine, decoded]⟩
  | some text =>
    cases load : taken.loadLine text with
    | error message =>
      exact ⟨taken.report (Utf8.encode ("error: " ++ message ++ "\n")),
        by simp only [answerLine, decoded, load]⟩
    | ok loaded =>
      obtain ⟨ran, run⟩ :=
        exists_run_of_budget ((kept_of_loadLine load).1.trans budget) enough
      exact ⟨_, by rw [answerLine_of_load decoded load, run, Option.map_some]⟩

/-- **A session with a budget ends.**

**Proof sketch.** Induction on the states that are looked at. A turn needs one for each step of its
budget and one more; and there are no more turns than there are bytes, because each takes one off
the input. -/
theorem exists_interact_of_budget (budget : m.budget = some limit)
    (enough : limit + m.input.length + 1 < fuel) : ∃ o, m.interact fuel = some o := by
  induction fuel generalizing m with
  | zero => omega
  | succ fuel ih =>
    cases ask : m.write (Utf8.encode prompt) with
    | failed e last => exact ⟨_, by rw [interact, ask]⟩
    | done asked =>
      by_cases more : asked.takeLine.1 = []
      · exact ⟨_, by simp only [interact, ask, if_pos more]; rfl⟩
      · have takes : m.TakesLine asked.takeLine.1 asked.takeLine.2 := .takes ask more
        have paid : asked.takeLine.2.budget = some limit := takes.kept.2.1.trans budget
        obtain ⟨answered, answer⟩ :
            ∃ o, asked.takeLine.2.answerLine (fuel + 1) asked.takeLine.1 = some o :=
          exists_answerLine_of_budget paid (by omega) asked.takeLine.1
        rw [takes.interact, answer]
        cases answered with
        | failed e last => exact ⟨_, rfl⟩
        | done next =>
          have goesOn : m.GoesOn next := .answered takes answer
          have shorter := goesOn.length_lt
          exact ih (goesOn.budget_eq.trans budget) (by omega)

/-- A session ends as it does behind a turn. -/
lemma GoesOn.exists_interact (goesOn : m.GoesOn next)
    (ends : ∃ fuel, next.interact fuel = some o) : ∃ fuel, m.interact fuel = some o := by
  obtain ⟨fuel, ends⟩ := ends
  cases goesOn with
  | @answered states taken next line takes answer =>
    refine ⟨max states fuel + 1, ?_⟩
    rw [takes.interact, answerLine_mono answer (by omega)]
    exact interact_mono ends (Nat.le_max_right _ _)

/-- A session ends with the error in the answer to its next line. -/
lemma BreaksOff.exists_interact (breaksOff : m.BreaksOff e last) :
    ∃ fuel, m.interact fuel = some (.failed e last) := by
  cases breaksOff with
  | @answered states taken last line e takes answer =>
    exact ⟨states + 1, by rw [takes.interact, answerLine_mono answer (Nat.le_succ _)]⟩

/-! ## Lines that are cut off -/

/-- The budget with which a line is run is that of the session. -/
lemma Accepts.budget_eq (accepts : m.Accepts loaded) : loaded.budget = m.budget := by
  obtain ⟨takes, decoded, load⟩ := accepts
  exact (kept_of_loadLine load).1.trans takes.kept.2.1

/-- **A line is cut off exactly if its run uses up the whole budget of the session**: if as many
steps as the budget pays for succeed and leave the program counter at an instruction.

**Proof sketch.** Behind the run nothing is done but to write the stack, and a write that fails is
another error. -/
theorem breaksOff_spent_iff (accepts : m.Accepts loaded) :
    m.BreaksOff (.stepLimitExceeded limit) last ↔
      m.budget = some limit ∧ Visits limit loaded last ∧ last.isRunning := by
  rw [← accepts.budget_eq, ← ends_spent_iff]
  obtain ⟨takes, decoded, load⟩ := accepts
  constructor
  · rintro ⟨takes', answer⟩
    obtain ⟨rfl, rfl⟩ := takes.unique takes'
    rw [answerLine_of_load decoded load] at answer
    obtain ⟨ran, run, shown⟩ := Option.map_eq_some_iff.1 answer
    cases ran with
    | failed e last =>
      cases shown
      exact ⟨_, run⟩
    | done ran =>
      rw [Outcome.andThen_done, write] at shown
      split at shown <;> cases shown
  · rintro ⟨fuel, run⟩
    refine @BreaksOff.answered _ fuel _ _ _ _ takes ?_
    rw [answerLine_of_load decoded load, run]
    rfl

/-! ## The turns of a session -/

/-- The next turn of a session stays within a budget of `limit` steps, whatever the turns before it
have used; `start` is the machine that the session began with. -/
structure TurnWithin (limit : Nat) (start m : Machine) : Prop where
  /-- If the next line is accepted, its run is over at some time. -/
  runs (loaded : Machine) : m.Accepts loaded → ∃ k o, Executes 0 k loaded o
  /-- Counted from zero, it executes no more instructions than the budget pays for. -/
  executes (loaded : Machine) (k : Nat) (o : Outcome) :
    m.Accepts loaded → Executes 0 k loaded o → k ≤ limit
  /-- It is cut off exactly if all steps that the budget pays for succeed and leave the program
  counter at an instruction. -/
  cut_off (loaded : Machine) (l : Nat) (last : Machine) : m.Accepts loaded →
    (m.BreaksOff (.stepLimitExceeded l) last ↔
      l = limit ∧ Visits limit loaded last ∧ last.isRunning)
  /-- An error in the answer to the next line ends the session. -/
  ends (e : RuntimeError) (last : Machine) :
    m.BreaksOff e last → ∃ fuel, start.interact fuel = some (.failed e last)
  /-- If the session goes on behind the next line, the turn has taken something off the input. -/
  consumes (next : Machine) : m.GoesOn next → ∃ front, front ≠ [] ∧ m.input = front ++ next.input

/-- **A session with a budget ends, and gives each line the whole budget.** Take any machine with a
budget of `limit` steps, whatever program is loaded and whatever the input is. A session that is
held with it ends; and each turn that it comes to stays within the budget (`TurnWithin`): the run of
a line that is accepted executes no more than `limit` instructions of its own, it ends the session
for lack of budget exactly if its first `limit` steps succeed and leave the program counter at an
instruction, and a turn that does not end the session has taken at least one byte off the input. -/
theorem interact_within_budget {limit : Nat} (budget : m.budget = some limit) :
    (∃ o, ∀ fuel, limit + m.input.length + 1 < fuel → m.interact fuel = some o) ∧
      ∀ n, Relation.ReflTransGen GoesOn m n → TurnWithin limit m n := by
  constructor
  · obtain ⟨o, ends⟩ := exists_interact_of_budget budget (Nat.lt_succ_self _)
    exact ⟨o, fun fuel enough => interact_mono ends enough⟩
  · intro n turns
    have same : n.budget = some limit := by
      induction turns with
      | refl => exact budget
      | tail turns goesOn ih => exact goesOn.budget_eq.trans ih
    exact
      { runs := fun loaded accepts => by
          obtain ⟨o, run⟩ :=
            exists_run_of_budget (accepts.budget_eq.trans same) (Nat.lt_succ_self limit)
          obtain ⟨k, executes⟩ := exists_executes run
          exact ⟨k, o, executes⟩
        executes := fun loaded k o accepts executes => by
          have paid := executes.le_limit (accepts.budget_eq.trans same) (Nat.zero_le limit)
          rwa [Nat.zero_add] at paid
        cut_off := fun loaded l last accepts => by
          rw [breaksOff_spent_iff accepts, same]
          constructor
          · rintro ⟨⟨⟩, visits, running⟩
            exact ⟨rfl, visits, running⟩
          · rintro ⟨rfl, visits, running⟩
            exact ⟨rfl, visits, running⟩
        ends := fun e last breaksOff => by
          induction turns using Relation.ReflTransGen.head_induction_on with
          | refl => exact breaksOff.exists_interact
          | head goesOn turns ih =>
            exact goesOn.exists_interact (ih (goesOn.budget_eq.trans budget))
        consumes := fun next goesOn => goesOn.exists_consumed }

/-- With a budget of two steps, behind a program that is loaded already: the first line uses the
whole budget and reads from the second one, what is left of which has a budget of its own and is cut
off. -/
theorem interact_within_budget_loop :
    ∃ m n loaded last, Reachable m ∧ m.code.length = 1 ∧ m.budget = some 2 ∧
      m.input = Utf8.encode "1 read\n8:l: @l jmp\n" ∧ Relation.ReflTransGen GoesOn m n ∧
      n.stack = [8, 1] ∧ n.Accepts loaded ∧ Visits 2 loaded last ∧ last.isRunning ∧
      ∃ fuel, m.interact fuel = some (.failed (.stepLimitExceeded 2) last) := by
  let place (column : Nat) : Location := ⟨"CIN", 1, column⟩
  let p : Program := ⟨0, #[.op .dbg], #[⟨"f", 1, 1⟩]⟩
  let line := "1 read\n"
  let line' := ":l: @l jmp\n"
  let input := Utf8.encode "1 read\n8:l: @l jmp\n"
  let m : Machine := ⟨p, 0, [], some 2, input, {}, {}⟩
  have reachable : Reachable m :=
    @Reachable.perform _ _ (.load p) (.fresh (some 2) input {} {}) rfl rfl
  -- the first line
  have split : splitLine m.input = (Utf8.encode line, Utf8.encode "8:l: @l jmp\n") := by
    decide +kernel
  have takes : m.TakesLine (Utf8.encode line) m.asked :=
    (takesLine_iff ⟨rfl, rfl⟩).2 ⟨by decide, by rw [split], rfl⟩
  have read : Source.tokens sessionFile line =
      .ok [⟨.instr (.push 1), place 1⟩, ⟨.instr (.op .read), place 3⟩] := by cbv
  let loaded : Machine := { m.asked with
    code := ⟨0, #[.op .dbg, .push 1, .op .read], #[⟨"f", 1, 1⟩, place 1, place 3]⟩
    pc := 1 }
  have load : m.asked.loadLine line = .ok loaded := by
    unfold loadLine loadTokens
    rw [read]
    rfl
  let ran : Machine := { loaded with pc := 3, stack := [8, 1], input := Utf8.encode line' }
  have run : loaded.run 3 = some (.done ran) := by decide +kernel
  let n : Machine := { ran with output := ran.output.write (Utf8.encode "[1, 8]\n") }
  have answer : m.asked.answerLine 3 (Utf8.encode line) = some (.done n) := by
    rw [answerLine_of_load (Utf8.decode?_encode line) load, run]
    rfl
  have goesOn : m.GoesOn n := .answered takes answer
  -- the second line
  have split' : splitLine n.input = (Utf8.encode line', []) := by decide +kernel
  have takes' : n.TakesLine (Utf8.encode line') n.asked :=
    (takesLine_iff ⟨rfl, rfl⟩).2 ⟨by decide, by rw [split'], rfl⟩
  have read' : Source.tokens sessionFile line' =
      .ok [⟨.define "l", place 1⟩, ⟨.refer "l", place 5⟩, ⟨.instr (.op .jmp), place 8⟩] := by cbv
  let loaded' : Machine := { n.asked with
    code := ⟨0, #[.op .dbg, .push 1, .op .read, .push 3, .op .jmp],
      #[⟨"f", 1, 1⟩, place 1, place 3, place 5, place 8]⟩ }
  have load' : n.asked.loadLine line' = .ok loaded' := by
    unfold loadLine loadTokens
    rw [read']
    rfl
  have accepts : n.Accepts loaded' := .accepts takes' (Utf8.decode?_encode line') load'
  have visits : Visits 2 loaded' loaded' := .step (by decide) rfl (.step (by decide) rfl .start)
  have running : loaded'.isRunning := by decide
  have budget : m.budget = some 2 := rfl
  obtain ⟨-, turns⟩ := interact_within_budget budget
  have within := turns n (.single goesOn)
  have breaksOff := (within.cut_off loaded' 2 loaded' accepts).2 ⟨rfl, visits, running⟩
  exact ⟨m, n, loaded', loaded', reachable, rfl, rfl, rfl, .single goesOn, rfl, accepts, visits,
    running, within.ends _ _ breaksOff⟩

end StackAsm.Machine
