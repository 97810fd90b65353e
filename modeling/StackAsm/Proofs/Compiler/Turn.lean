import StackAsm.Proofs.Compiler.Instruction

set_option autoImplicit false

/-!
# The turns of the loop

A turn of the loop in the main function finds the case of the program counter, executes the
statements there and moves the program counter on unless they have set it. At an address without an
instruction it returns.

## Main definitions

* `StackAsm.Compiler.turn` — a turn of the loop.
* `StackAsm.Compiler.Turned` — the end of a turn, for what becomes of a step of a machine.

## Main results

* `StackAsm.Compiler.exec_cases_of_find?` — the case that is executed.
* `StackAsm.Compiler.turned_of_running`, `StackAsm.Compiler.exec_turn_stopped` — what a turn does.
-/

namespace StackAsm

/-! ## Entries and addresses -/

namespace Program

variable {p : Program} {a : Address} {k : Nat}

/-- A well-formed program has an entry for each of its instructions. -/
lemma WellFormed.length_entries (wf : p.WellFormed) : p.entries.length = p.length := by
  simp [entries, length, wf.tables]

/-- The addresses of the entries do not wrap. -/
lemma WellFormed.address_getElem (wf : p.WellFormed) (inside : k < p.entries.length) :
    p.entries[k].address.toInt = p.start.toInt + k := by
  have place : p.entries[k].address = p.start + Int64.ofNat k := by simp [entries]
  have fits := wf.fits
  rw [wf.length_entries] at inside
  rw [place]
  exact Word.toInt_add_ofNat (by omega)

/-- The entry at an address is the one at its place. -/
lemma WellFormed.find?_entries (wf : p.WellFormed) (inside : p.indexOf? a = some k) :
    ∃ e, p.entries.find? (·.address = a) = some e ∧ p.instructionAt? a = some e.instruction := by
  obtain ⟨address, bound⟩ := indexOf?_eq_some_iff.1 inside
  have place : k < p.entries.length := by rwa [wf.length_entries]
  have instruction : p.instructions[k]? = some p.entries[k].instruction := by
    have here : k < p.instructions.size := bound
    simp [entries, here]
  refine ⟨p.entries[k], ?_, (instructionAt?_of_indexOf? inside).trans instruction⟩
  rw [List.find?_eq_some_iff_getElem]
  refine ⟨decide_eq_true (Int64.toInt_inj.1 ?_), k, place, rfl, fun j before => ?_⟩
  · rw [wf.address_getElem, address]
  · have first := wf.address_getElem (Nat.lt_trans before place)
    simp only [Bool.not_eq_true', decide_eq_false_iff_not, ← Int64.toInt_inj]
    omega

/-- At an address outside of the program there is no entry. -/
lemma WellFormed.address_ne (wf : p.WellFormed) (outside : p.indexOf? a = none) :
    ∀ e ∈ p.entries, e.address ≠ a := by
  intro e mem same
  obtain ⟨k, inside, rfl⟩ := List.mem_iff_getElem.1 mem
  have address := wf.address_getElem inside
  rw [wf.length_entries] at inside
  rw [same] at address
  rw [indexOf?_eq_some_iff.2 ⟨address, inside⟩] at outside
  cases outside

end Program

namespace Compiler

open C

/-! ## Cases -/

section Cases

variable {scope : Scope} {fuel turns : Nat} {s : State}

/-- A jump to a label goes to the first of two statements if the label is in it, and else to the
second. -/
lemma exec_seq_label (layout : Layout) (first second : Stmt) (label : C.Label) :
    (Stmt.seq layout first second).exec scope fuel (some label) = (do
      if first.hasLabel label then
        match ← first.exec scope fuel (some label) with
        | .next => second.exec scope fuel none
        | flow => return flow
      else second.exec scope fuel (some label)) := (rfl)

/-- The statements of an instruction have no labels. -/
lemma labels_instructionBody (i : Instruction) : (instructionBody i).labels = [] := by
  cases i with
  | push n => rfl
  | op op => cases op <;> rfl

/-- The case of an entry has its address as the only label. -/
lemma labels_entryCase (e : Program.Entry) :
    (entryCase e).labels = [.value e.address.toInt] := by
  rw [entryCase, Stmt.labels, Stmt.labels, labels_instructionBody, List.append_nil]

/-- The cases of a program have the addresses as labels, and the default one. -/
lemma labels_cases (entries : List Program.Entry) :
    (cases entries).labels = entries.map (fun e => .value e.address.toInt) ++ [.default] := by
  induction entries with
  | nil => rfl
  | cons e entries ih =>
    show (entryCase e).labels ++ (cases entries).labels = _
    rw [labels_entryCase, ih]
    rfl

/-- A jump to an address ends at the case of an entry exactly if the entry has that address. -/
lemma hasLabel_entryCase (e : Program.Entry) (a : Address) :
    (entryCase e).hasLabel (.value a.toInt) = decide (e.address = a) := by
  simp [Stmt.hasLabel, labels_entryCase, Int64.toInt_inj, eq_comm]

/-- The case of an entry executes the statements of its instruction. -/
lemma exec_entryCase (e : Program.Entry) (s : State) :
    (entryCase e).exec scope fuel (some (.value e.address.toInt)) s =
      (instructionBody e.instruction).exec scope fuel none s := by
  have here : (Stmt.caseLabel e.address (caseComment e)).hasLabel (.value e.address.toInt) = true :=
    decide_eq_true (List.mem_singleton_self _)
  rw [entryCase, exec_seq_label, here]
  rfl

/-- Statements that do not go on to the next one are not followed by it. -/
lemma is_of_stops {first second : Eval Flow} {r : Result Flow} (stops : ∀ s, r ≠ .ok .next s)
    (body : Result.Is fuel turns r (first s)) :
    Result.Is fuel turns r ((do
      match ← first with
      | .next => second
      | flow => return flow) s) := by
  rw [Eval.bind_run]
  rcases body with rfl | ⟨unfinished, few⟩
  · refine .inl ?_
    cases ends : first s with
    | ok flow s' =>
      cases flow with
      | next => exact absurd ends (stops s')
      | _ => rfl
    | _ => rfl
  · rw [unfinished]
    exact .inr ⟨rfl, few⟩

/-- At the label of an entry its statements are executed, and nothing behind them, since they do not
end by going on to the next statement. -/
theorem exec_cases_of_find? {entries : List Program.Entry} {a : Address} {e : Program.Entry}
    {r : Result Flow} (found : entries.find? (·.address = a) = some e)
    (stops : ∀ s, r ≠ .ok .next s)
    (body : Result.Is fuel turns r ((instructionBody e.instruction).exec scope fuel none s)) :
    Result.Is fuel turns r ((cases entries).exec scope fuel (some (.value a.toInt)) s) := by
  induction entries with
  | nil => cases found
  | cons first entries ih =>
    show Result.Is fuel turns r ((Stmt.seq .lines (entryCase first) (cases entries)).exec scope
      fuel (some (.value a.toInt)) s)
    rw [exec_seq_label, hasLabel_entryCase]
    rw [List.find?_cons] at found
    by_cases here : first.address = a
    · subst here
      simp only [decide_eq_true, Option.some.injEq] at found ⊢
      subst found
      exact is_of_stops stops (by rwa [exec_entryCase])
    · simp only [decide_eq_false here] at found ⊢
      exact ih found

variable (fuel) in
/-- All other values of the program counter take the default case. -/
lemma exec_cases_default (entries : List Program.Entry) (size : Nat) (stack free : List Word)
    (pc a b t : Word) (input output diagnostics : Bytes) :
    (cases entries).exec (libraryScope size fuel) fuel (some .default)
        (memory stack free (mainVars pc a b t) input output diagnostics) =
      .ok (.return (.int .int 0))
        (memory stack free (mainVars pc a b t) input output diagnostics) := by
  induction entries with
  | nil =>
    have call : callFunction (libraryScope size fuel) "fflush" = libraryCall "fflush" :=
      call_library (by decide)
    have here : Stmt.defaultLabel.hasLabel .default = true := rfl
    have label (s : State) :
        Stmt.defaultLabel.exec (libraryScope size fuel) fuel (some .default) s = .ok .next s := rfl
    show (Stmt.ofList .lines [.defaultLabel, .expr (.call "fflush" [.name "stdout"]),
      .return (.num 0)]).exec _ _ _ _ = _
    have hidden : namedVariable? (mainVars pc a b t) "stdout" = none := rfl
    have constant : (libraryScope size fuel).constants.lookup "stdout" = none := by
      rw [libraryScope, lookup_constants]
      rfl
    simp [exec_seq_label, here, label, call, hidden, constant]
  | cons e entries ih =>
    show (Stmt.seq .lines (entryCase e) (cases entries)).exec _ _ _ _ = _
    have other : (entryCase e).hasLabel .default = false := by
      simp [Stmt.hasLabel, labels_entryCase]
    rw [exec_seq_label, other]
    exact ih

end Cases

/-! ## Turns -/

/-- A turn of the loop in the main function. -/
def turn (p : Program) : Stmt :=
  .block .lines (.ofList .lines
    [.switch (.name "pc") (.block .lines (cases p.entries)), .expr (.postIncr "pc")])

/-- How a turn of the loop ends, for what becomes of a step of the machine `m`. -/
inductive Turned (size : Nat) (m : Machine) : Outcome → Result Flow → Prop where
  /-- The loop goes on. -/
  | on {m' : Machine} {flow : Flow} {s : State} (few : m'.stack.length ≤ size)
    (going : flow = .next ∨ flow = .again) (holds : Holds size m'.pc m' s) :
    Turned size m (.done m') (.ok flow s)
  /-- The new stack does not fit into the array. -/
  | overflow {m' : Machine} {r : Result Flow} (many : size < m'.stack.length)
    (fails : FailsWith "stack overflow" m r) : Turned size m (.done m') r
  /-- The step fails. -/
  | failed {e : RuntimeError} {m' : Machine} {message : String} {r : Result Flow}
    (raised : failureMessage? e = some message) (fails : FailsWith message m' r) :
    Turned size m (.failed e m') r

section Turn

variable {size fuel turns : Nat} {stack free : List Word} {pc a b t : Word}
  {input output diagnostics : Bytes}

/-- The `switch` goes to the case of the program counter, or to the default one. -/
lemma exec_switch {entries : List Program.Entry} {label : C.Label}
    (chosen : label =
      if (entries.find? (·.address = pc)).isSome then .value pc.toInt else .default) :
    (Stmt.switch (.name "pc") (.block .lines (cases entries))).exec (libraryScope size fuel) fuel
        none (memory stack free (mainVars pc a b t) input output diagnostics) =
      (do
        match ← inBlock ((cases entries).exec (libraryScope size fuel) fuel (some label)) with
        | .leave => return Flow.next
        | flow => return flow)
        (memory stack free (mainVars pc a b t) input output diagnostics) := by
  have value : (Stmt.block .lines (cases entries)).hasLabel (.value pc.toInt) =
      (entries.find? (·.address = pc)).isSome := by
    rw [Bool.eq_iff_iff, List.find?_isSome]
    simp [Stmt.hasLabel, Stmt.labels, labels_cases, Int64.toInt_inj]
  have default : (Stmt.block .lines (cases entries)).hasLabel .default = true := by
    simp [Stmt.hasLabel, Stmt.labels, labels_cases]
  have inside : (Stmt.block .lines (cases entries)).hasLabel label = true := by
    rw [chosen]
    split
    · rwa [value]
    · exact default
  rw [Stmt.exec, Eval.bind_run, Expr.eval_name, readName_memory, namedVariable?_pc]
  simp only [Eval.ofOption_some, value, ← chosen, inside, if_true]
  rfl

/-- The statement behind the `switch` moves the program counter on. -/
lemma exec_next (next : (pc + 1).toInt = pc.toInt + 1) :
    (Stmt.expr (.postIncr "pc")).exec (libraryScope size fuel) fuel none
        (memory stack free (mainVars pc a b t) input output diagnostics) =
      .ok .next (memory stack free (mainVars (pc + 1) a b t) input output diagnostics) := by
  have sum : BinOp.add.apply (.int .int64 pc.toInt) (.int .int 1) =
      some (.int .int64 (pc + 1).toInt) := by
    rw [BinOp.apply_word (.inl rfl) (Word.inRange_toInt pc) (by decide), next]
    exact CType.result?_int64 (next ▸ Word.inRange_toInt (pc + 1))
  simp [addToName, sum, -Int64.toInt_add]

variable {p : Program} {label : C.Label} {stack' free' : List Word} {pc' a' b' t' : Word}
  {input' output' diagnostics' : Bytes}

/-- After statements that leave the `switch`, the program counter moves on. -/
lemma exec_turn_leave (chosen : label =
      if (p.entries.find? (·.address = pc)).isSome then .value pc.toInt else .default)
    (next : (pc + 1).toInt = pc.toInt + 1)
    (body : Result.Is fuel turns
      (.ok .leave (memory stack' free' (mainVars pc a' b' t') input' output' diagnostics'))
      ((cases p.entries).exec (libraryScope size fuel) fuel (some label)
        (memory stack free (mainVars pc a b t) input output diagnostics))) :
    Result.Is fuel turns
      (.ok .next (memory stack' free' (mainVars (pc + 1) a' b' t') input' output' diagnostics'))
      ((turn p).exec (libraryScope size fuel) fuel none
        (memory stack free (mainVars pc a b t) input output diagnostics)) := by
  rcases body with ends | ⟨stops, few⟩
  · exact .inl (by simp [turn, exec_switch chosen, ends, -Stmt.exec_expr, exec_next next])
  · exact .inr ⟨by simp [turn, exec_switch chosen, stops], few⟩

/-- Statements that do not leave the `switch` end the turn, too. -/
lemma exec_turn_pass {flow : Flow} (chosen : label =
      if (p.entries.find? (·.address = pc)).isSome then .value pc.toInt else .default)
    (passes : flow ≠ .next ∧ flow ≠ .leave)
    (body : Result.Is fuel turns
      (.ok flow (memory stack' free' (mainVars pc' a' b' t') input' output' diagnostics'))
      ((cases p.entries).exec (libraryScope size fuel) fuel (some label)
        (memory stack free (mainVars pc a b t) input output diagnostics))) :
    Result.Is fuel turns
      (.ok flow (memory stack' free' (mainVars pc' a' b' t') input' output' diagnostics'))
      ((turn p).exec (libraryScope size fuel) fuel none
        (memory stack free (mainVars pc a b t) input output diagnostics)) := by
  rcases body with ends | ⟨stops, few⟩
  · refine .inl ?_
    cases flow with
    | next => exact absurd rfl passes.1
    | leave => exact absurd rfl passes.2
    | _ => simp [turn, exec_switch chosen, ends]
  · exact .inr ⟨by simp [turn, exec_switch chosen, stops], few⟩

/-- A turn ends the program if the case that is chosen does. -/
lemma exec_turn_exit {status : Int} {s : State} (chosen : label =
      if (p.entries.find? (·.address = pc)).isSome then .value pc.toInt else .default)
    (body : Result.Is fuel turns (.exit status s)
      ((cases p.entries).exec (libraryScope size fuel) fuel (some label)
        (memory stack free (mainVars pc a b t) input output diagnostics))) :
    Result.Is fuel turns (.exit status s)
      ((turn p).exec (libraryScope size fuel) fuel none
        (memory stack free (mainVars pc a b t) input output diagnostics)) := by
  rcases body with ends | ⟨stops, few⟩
  · exact .inl (by simp [turn, exec_switch chosen, ends])
  · exact .inr ⟨by simp [turn, exec_switch chosen, stops], few⟩

end Turn

section Step

variable {size : Nat} (fuel : Nat) {m : Machine} {s : State}

/-- **A turn does what a step does**, at an instruction of a well-formed program and in a state that
holds the machine. -/
theorem turned_of_running (wf : m.code.WellFormed) (unlimited : m.Unlimited)
    (bound : size < 2 ^ 63) (few : m.stack.length ≤ size) (running : m.isRunning)
    (holds : Holds size m.pc m s) :
    ∃ r, Turned size m m.step r ∧ Result.Is fuel (m.input.length + m.stack.length) r
      ((turn m.code).exec (libraryScope size fuel) fuel none s) := by
  obtain ⟨i, l, instruction, step⟩ := Machine.step_of_running wf running
  obtain ⟨k, place⟩ := Option.isSome_iff_exists.1 running
  obtain ⟨e, found, same⟩ := wf.find?_entries place
  obtain rfl : i = e.instruction := Option.some.inj (instruction.symm.trans same)
  obtain ⟨r, mirrors, body⟩ :=
    mirrors_instructionBody fuel e.instruction l unlimited bound few holds
  obtain ⟨free, a, b, t, capacity, rfl⟩ := holds
  have chosen : C.Label.value m.pc.toInt =
      if (m.code.entries.find? (·.address = m.pc)).isSome then .value m.pc.toInt else .default := by
    rw [found]
    rfl
  have body := exec_cases_of_find? found mirrors.ne_next body
  rw [step]
  generalize m.execute e.instruction l = o at mirrors
  cases mirrors with
  | @leave m' s' few next holds =>
    obtain ⟨free', a', b', t', capacity', rfl⟩ := holds
    refine ⟨_, ?_, exec_turn_leave chosen (Machine.toInt_pc_add_one wf running) body⟩
    rw [← next]
    exact .on few (.inl rfl) ⟨free', a', b', t', capacity', rfl⟩
  | @again m' s' few holds =>
    obtain ⟨free', a', b', t', capacity', rfl⟩ := holds
    exact ⟨_, .on few (.inr rfl) ⟨free', a', b', t', capacity', rfl⟩,
      exec_turn_pass chosen (by decide) body⟩
  | overflow many fails =>
    obtain ⟨s', rfl, fails⟩ := fails
    exact ⟨_, .overflow many ⟨s', rfl, fails⟩, exec_turn_exit chosen body⟩
  | failed raised fails =>
    obtain ⟨s', rfl, fails⟩ := fails
    exact ⟨_, .failed raised ⟨s', rfl, fails⟩, exec_turn_exit chosen body⟩

/-- At an address without an instruction the main function returns. -/
theorem exec_turn_stopped (wf : m.code.WellFormed) (stopped : ¬ m.isRunning)
    (holds : Holds size m.pc m s) :
    Result.Is fuel 0 (.ok (.return (.int .int 0)) s)
      ((turn m.code).exec (libraryScope size fuel) fuel none s) := by
  have outside : m.code.indexOf? m.pc = none := Option.not_isSome_iff_eq_none.1 stopped
  obtain ⟨free, a, b, t, capacity, rfl⟩ := holds
  have none : m.code.entries.find? (·.address = m.pc) = none := by
    rw [List.find?_eq_none]
    simpa using wf.address_ne outside
  have chosen : C.Label.default =
      if (m.code.entries.find? (·.address = m.pc)).isSome then .value m.pc.toInt else .default := by
    rw [none]
    rfl
  have body := exec_cases_default fuel m.code.entries size m.stack free m.pc a b t m.input
    m.output.written.toList m.diagnostics.written.toList
  exact exec_turn_pass chosen (by decide) (.inl body)

end Step

end Compiler

end StackAsm
