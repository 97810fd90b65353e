import StackAsm.Proofs.Session.Dialogue

set_option autoImplicit false

/-!
# Lines that a session rejects

A line that is no program is reported and leaves everything else as it was. So if such lines are
deleted from the input, a session does the same without them: what it writes lacks their prompts and
reports, and nothing else is different.

**Proof sketch.** Two sessions go side by side, one held to all lines and one to those that are
kept; their machines differ in their streams alone. At a line that is kept both do the same
(`answerLine_withStreams`). At a line that is deleted the first one writes its prompt and its report
and is the same machine afterwards (`Reports.answer`), and the second one does nothing. The
induction is on the lines.

## Main definitions

* `StackAsm.without` — a list without the members at some places.
* `StackAsm.Machine.Alongside` — two sessions come out alike, but for the lines that are deleted.
* `StackAsm.Machine.LeavesNoTrace` — what they have in common, and what not.

## Main results

* `StackAsm.Machine.Alongside.reported`, `StackAsm.Machine.Alongside.kept` — what one line does.
* `StackAsm.Machine.alongside_without` — what a whole session does.
* `StackAsm.Machine.interact_without` — lines that are reported may be deleted.
-/

namespace StackAsm

/-! ## Deleting from a list -/

/-- A list without the members at the places that are `deleted`, counted from 0. -/
def without {α : Type} (deleted : Nat → Bool) : List α → List α
  | [] => []
  | a :: as =>
    if deleted 0 then without (fun k => deleted (k + 1)) as
    else a :: without (fun k => deleted (k + 1)) as

/-- A list of which no member is deleted stays as it is. -/
lemma without_eq_self {α : Type} {deleted : Nat → Bool} (none : ∀ k, ¬ deleted k)
    (as : List α) : without deleted as = as := by
  induction as generalizing deleted with
  | nil => rfl
  | cons a as ih => rw [without, if_neg (none 0), ih fun k => none (k + 1)]

namespace Machine

variable {m n taken next : Machine} {line : Bytes} {fuel : Nat} {message : String} {w : Writing}
  {output diagnostics : Sink}

/-! ## Two sessions, side by side -/

/-- A session held to `n` is one held to `m` without the turns at the places that are `deleted`:
neither of them ends, or both end and leave the same but for what they have written. -/
inductive Alongside (deleted : Nat → Bool) (m n : Machine) : Prop where
  /-- Neither of them ends. -/
  | endless (endless : ∀ fuel, m.interact fuel = none) (endless' : ∀ fuel, n.interact fuel = none)
  /-- Both end. -/
  | ended {ws : List Writing} {o o' : Outcome} (dialogue : Dialogue m ws o)
      (dialogue' : Dialogue n (without deleted ws) o')
      (same : o' = o.map fun last =>
        last.withStreams last.input o'.machine.output o'.machine.diagnostics)

variable {deleted : Nat → Bool} {taken' next' : Machine} {e : RuntimeError} {last : Machine}

/-- The second session does nothing at a line that is deleted. -/
theorem Alongside.reported (gone : deleted 0) (reports : Reports 0 m message)
    (unlimited : m.Unlimited)
    (behind : Alongside (fun k => deleted (k + 1)) (m.reported message) n) :
    Alongside deleted m n := by
  obtain ⟨takes, answer⟩ := reports.answer unlimited 0
  cases behind with
  | endless endless endless' => exact .endless (takes.endless_behind answer endless) endless'
  | @ended ws o o' dialogue dialogue' same =>
    have kept : without deleted (reportOf message :: ws) = without (fun k => deleted (k + 1)) ws :=
      if_pos gone
    exact .ended (.answered takes answer (wrote_reported m message) dialogue) (kept ▸ dialogue')
      same

/-- Both sessions go on behind a line that is kept. -/
lemma Alongside.answered (kept : ¬ deleted 0) (takes : m.TakesLine line taken)
    (takes' : n.TakesLine line taken') (answer : taken.answerLine fuel line = some (.done next))
    (answer' : taken'.answerLine fuel line = some (.done next')) (wrote : m.Wrote w next)
    (wrote' : n.Wrote w next') (behind : Alongside (fun k => deleted (k + 1)) next next') :
    Alongside deleted m n := by
  cases behind with
  | endless endless endless' =>
    exact .endless (takes.endless_behind answer endless) (takes'.endless_behind answer' endless')
  | @ended ws o o' dialogue dialogue' same =>
    have both : without deleted (w :: ws) = w :: without (fun k => deleted (k + 1)) ws :=
      if_neg kept
    refine .ended (.answered takes answer wrote dialogue) ?_ same
    rw [both]
    exact .answered takes' answer' wrote' dialogue'

/-- Both sessions end at a line that is kept. -/
lemma Alongside.failed (kept : ¬ deleted 0) (takes : m.TakesLine line taken)
    (takes' : n.TakesLine line taken') (answer : taken.answerLine fuel line = some (.failed e last))
    (answer' : taken'.answerLine fuel line =
      some (.failed e (last.withStreams last.input output diagnostics)))
    (wrote : m.Wrote w last)
    (wrote' : n.Wrote w (last.withStreams last.input output diagnostics)) :
    Alongside deleted m n := by
  have both : without deleted [w] = [w] := if_neg kept
  have dialogue' : Dialogue n [w] _ := .failed takes' answer' wrote'
  rw [← both] at dialogue'
  exact .ended (.failed takes answer wrote) dialogue' rfl

/-- Where there is no line left, a session ends. -/
lemma dialogue_of_empty (unlimited : m.Unlimited) (empty : m.input = []) :
    Dialogue m [⟨Utf8.encode prompt ++ Utf8.encode "\n", []⟩]
      (.done { m with output := m.output.write (Utf8.encode prompt ++ Utf8.encode "\n") }) := by
  let asked : Machine := { m with output := m.output.write (Utf8.encode prompt) }
  have none : asked.takeLine = ([], asked) := by simp [takeLine, asked, empty, splitLine]
  have sinks : asked.Unlimited := ⟨unlimited.output, unlimited.diagnostics⟩
  refine .closed (write_of_unlimited unlimited _) (congrArg Prod.fst none) ?_
    ⟨rfl, (Sink.write_nil _).symm⟩
  rw [none, write_of_unlimited sinks, Sink.write_append_of_unlimited unlimited.output]

/-- Both sessions end where there is no line left. -/
lemma Alongside.closed (unlimited : m.Unlimited)
    (unlimited' : (m.withStreams [] output diagnostics).Unlimited) (empty : m.input = [])
    (kept : ¬ deleted 0) : Alongside deleted m (m.withStreams [] output diagnostics) := by
  have both (w : Writing) : without deleted [w] = [w] := if_neg kept
  refine .ended (dialogue_of_empty unlimited empty)
    (both _ ▸ dialogue_of_empty unlimited' rfl) ?_
  simp [Outcome.map, Outcome.machine, withStreams, empty]

/-- **A turn of two sessions at a line that is kept**: both give the same answer, and they go on
side by side if they do so behind the line. -/
theorem Alongside.kept {rest : Bytes} (kept : ¬ deleted 0) (nonempty : m.input ≠ [])
    (last : (splitLine m.input).2 = [] → rest = []) (unlimited : m.Unlimited)
    (unlimited' : (m.withStreams ((splitLine m.input).1 ++ rest) output diagnostics).Unlimited)
    (quiet : ∀ n i, SessionStepsAt m n → n.instruction? = some i → ¬ i.reads)
    (failed : ∀ fuel e last, m.asked.answerLine fuel (splitLine m.input).1 = some (.failed e last) →
      rest = (splitLine m.input).2)
    (behind : ∀ fuel next, m.asked.answerLine fuel (splitLine m.input).1 = some (.done next) →
      next.input = (splitLine m.input).2 → next.Unlimited →
      ∀ {output diagnostics}, (next.withStreams rest output diagnostics).Unlimited →
        Alongside (fun k => deleted (k + 1)) next (next.withStreams rest output diagnostics)) :
    Alongside deleted m (m.withStreams ((splitLine m.input).1 ++ rest) output diagnostics) := by
  have takes : m.TakesLine (splitLine m.input).1 m.asked :=
    (takesLine_iff unlimited).2 ⟨nonempty, rfl, rfl⟩
  let taken' := m.asked.withStreams rest (output.write (Utf8.encode prompt)) diagnostics
  have takes' : (m.withStreams ((splitLine m.input).1 ++ rest) output diagnostics).TakesLine
      (splitLine m.input).1 taken' := by
    have split : splitLine ((splitLine m.input).1 ++ rest) = ((splitLine m.input).1, rest) :=
      splitLine_of_splitLine rfl last
    refine (takesLine_iff unlimited').2 ⟨?_, (congrArg Prod.fst split).symm, ?_⟩
    · exact List.append_ne_nil_of_left_ne_nil (splitLine_fst_ne_nil nonempty) rest
    · simp only [asked, withStreams, split, taken']
  have sinks : m.asked.Unlimited := ⟨unlimited.output, unlimited.diagnostics⟩
  have sinks' : taken'.Unlimited := ⟨unlimited'.output, unlimited'.diagnostics⟩
  have agree (fuel : Nat) := answerLine_withStreams sinks sinks' fuel (splitLine m.input).1
    fun text loaded decoded load n i steps => quiet n i (takes.stepsAt_now decoded load steps)
  by_cases ends : ∃ fuel o, m.asked.answerLine fuel (splitLine m.input).1 = some o
  · obtain ⟨fuel, o, answer⟩ := ends
    have agree := agree fuel
    rw [answer] at agree
    generalize answer' : taken'.answerLine fuel (splitLine m.input).1 = a at agree
    cases agree with
    | @finished _ _ w unread wrote same =>
      let whole : Writing := ⟨Utf8.encode prompt ++ w.output, w.diagnostics⟩
      have out : output.capacity = none := unlimited'.output
      have before : m.Wrote whole o.machine := by
        refine ⟨?_, wrote.diagnostics⟩
        rw [Sink.write_append_of_unlimited unlimited.output]
        exact wrote.output
      have before' : (m.withStreams ((splitLine m.input).1 ++ rest) output diagnostics).Wrote whole
          (o.machine.withStreams rest ((output.write (Utf8.encode prompt)).write w.output)
            (diagnostics.write w.diagnostics)) :=
        ⟨(Sink.write_append_of_unlimited out _ _).symm, rfl⟩
      rw [same] at answer'
      cases o with
      | failed e last =>
        obtain rfl : rest = last.input := (failed fuel e last answer).trans unread.symm
        exact .failed kept takes takes' answer answer' before before'
      | done next =>
        exact .answered kept takes takes' answer answer' before before'
          (behind fuel next answer unread (before.unlimited unlimited)
            ⟨unlimited'.output, unlimited'.diagnostics⟩)
  · have endless (fuel : Nat) : m.asked.answerLine fuel (splitLine m.input).1 = none :=
      Option.eq_none_iff_forall_ne_some.2 fun o answer => ends ⟨fuel, o, answer⟩
    have endless' (fuel : Nat) : taken'.answerLine fuel (splitLine m.input).1 = none := by
      have agree := agree fuel
      rw [endless fuel] at agree
      generalize taken'.answerLine fuel (splitLine m.input).1 = a at agree
      cases agree
      rfl
    exact .endless (takes.endless endless) (takes'.endless endless')

/-- **Two sessions, side by side.** One is held to all lines, and reports those that are deleted;
the other one is held to those that are kept. -/
theorem alongside_without {lines : List Bytes} (split : inputLines m.input = lines)
    (unlimited : m.Unlimited)
    (unlimited' : (m.withStreams (without deleted lines).flatten output diagnostics).Unlimited)
    (quiet : ∀ n i, SessionStepsAt m n → n.instruction? = some i → ¬ i.reads)
    (rejected : ∀ k, deleted k → ∃ message, Reports k m message) :
    Alongside deleted m
      (m.withStreams (without deleted lines).flatten output diagnostics) := by
  induction lines generalizing m deleted output diagnostics with
  | nil =>
    refine .closed unlimited unlimited' (inputLines_eq_nil_iff.1 split) fun gone => ?_
    obtain ⟨message, reports⟩ := rejected 0 gone
    have nonempty := ((takesLine_iff unlimited).1 (reports.answer unlimited 0).1).1
    exact nonempty (inputLines_eq_nil_iff.1 split)
  | cons line lines ih =>
    have nonempty : m.input ≠ [] := by
      rintro empty
      rw [empty] at split
      cases split
    rw [inputLines_eq_cons nonempty] at split
    obtain ⟨rfl, behind⟩ := List.cons.inj split
    by_cases gone : deleted 0
    · obtain ⟨message, reports⟩ := rejected 0 gone
      have kept : without deleted ((splitLine m.input).1 :: lines) =
          without (fun k => deleted (k + 1)) lines := if_pos gone
      rw [kept] at unlimited' ⊢
      obtain ⟨takes, answer⟩ := reports.answer unlimited 0
      refine .reported gone reports unlimited (ih (m := m.reported message) behind ?_ unlimited' ?_
        fun k later => ?_)
      · exact (wrote_reported m message).unlimited unlimited
      · exact fun n i steps => quiet n i (takes.stepsAt_behind answer steps)
      · obtain ⟨message', reports'⟩ := rejected (k + 1) later
        obtain ⟨next, same, reports''⟩ := reports'.behind takes answer
        cases same
        exact ⟨message', reports''⟩
    · have kept : (without deleted ((splitLine m.input).1 :: lines)).flatten =
          (splitLine m.input).1 ++ (without (fun k => deleted (k + 1)) lines).flatten :=
        (congrArg List.flatten (if_neg gone)).trans List.flatten_cons
      rw [kept] at unlimited' ⊢
      have takes : m.TakesLine (splitLine m.input).1 m.asked :=
        (takesLine_iff unlimited).2 ⟨nonempty, rfl, rfl⟩
      refine .kept gone nonempty ?_ unlimited unlimited' quiet ?_ ?_
      · intro empty
        rw [empty] at behind
        subst behind
        rfl
      · intro fuel e last answer
        -- behind the last answer no line is reported
        rw [without_eq_self, ← behind, flatten_inputLines]
        intro k later
        obtain ⟨message, reports⟩ := rejected (k + 1) later
        obtain ⟨next, same, -⟩ := reports.behind takes answer
        cases same
      · intro fuel next answer unread sinks output diagnostics sinks'
        refine ih (unread.symm ▸ behind) sinks sinks' ?_ fun k later => ?_
        · exact fun n i steps => quiet n i (takes.stepsAt_behind answer steps)
        · obtain ⟨message, reports⟩ := rejected (k + 1) later
          obtain ⟨_, same, reports'⟩ := reports.behind takes answer
          cases same
          exact ⟨message, reports'⟩

/-! ## Lines that are reported may be deleted -/

/-- What a session held to `m`, which has written `ws` turn by turn and ends with `o`, and a session
without the lines that are `deleted`, which ends with `o'`, have in common, and what not. -/
structure LeavesNoTrace (deleted : Nat → Bool) (m : Machine) (ws : List Writing) (o o' : Outcome) :
    Prop where
  /-- Both succeed, or both fail with the same error. -/
  error : o'.error? = o.error?
  /-- They leave the same stack. -/
  stack : o'.machine.stack = o.machine.stack
  /-- They leave the same program counter. -/
  pc : o'.machine.pc = o.machine.pc
  /-- They leave the same program, at the same base address. -/
  code : o'.machine.code = o.machine.code
  /-- They leave the same input. -/
  input : o'.machine.input = o.machine.input
  /-- The output of the first one is what it has written in all its turns. -/
  output : o.machine.output.written.toList =
    m.output.written.toList ++ ws.flatMap Writing.output
  /-- The output of the second one lacks the turns of the deleted lines. -/
  output' : o'.machine.output.written.toList =
    m.output.written.toList ++ (without deleted ws).flatMap Writing.output
  /-- The diagnostics of the first one are what it has written in all its turns. -/
  diagnostics : o.machine.diagnostics.written.toList =
    m.diagnostics.written.toList ++ ws.flatMap Writing.diagnostics
  /-- The diagnostics of the second one lack the turns of the deleted lines. -/
  diagnostics' : o'.machine.diagnostics.written.toList =
    m.diagnostics.written.toList ++ (without deleted ws).flatMap Writing.diagnostics
  /-- In the turn of a line that it reports the first one has written its prompt to the output and
  the report to the diagnostics. -/
  reports : ∀ k message, Reports k m message → ws[k]? = some (reportOf message)

/-- **Rejected lines leave no trace.** Take a machine whose sinks take all that is written, to which
a session is held in which no step reads, and delete from its input any lines that the session
reports. Then neither session ends, or both end, with the same error if there is one, with the same
stack, program counter and program; and what the second one has written is what the first one has
written, but for the prompt and the report in the turn of each deleted line. -/
theorem interact_without (unlimited : m.Unlimited)
    (quiet : ∀ n i, Operation.StepsAt m n .interact → n.instruction? = some i → ¬ i.reads)
    (rejected : ∀ k, deleted k → ∃ message, Reports k m message) :
    ((∀ fuel, m.interact fuel = none) ∧ ∀ fuel,
      { m with input := (without deleted (inputLines m.input)).flatten }.interact fuel = none) ∨
    ∃ ws o o' enough, (∀ fuel ≥ enough, m.interact fuel = some o ∧
        { m with input := (without deleted (inputLines m.input)).flatten }.interact fuel =
          some o') ∧
      Dialogue m ws o ∧
      Dialogue { m with input := (without deleted (inputLines m.input)).flatten }
        (without deleted ws) o' ∧
      LeavesNoTrace deleted m ws o o' := by
  have alongside : Alongside deleted m
      { m with input := (without deleted (inputLines m.input)).flatten } :=
    alongside_without rfl unlimited ⟨unlimited.output, unlimited.diagnostics⟩ quiet rejected
  cases alongside with
  | endless endless endless' => exact .inl ⟨endless, endless'⟩
  | @ended ws o o' dialogue dialogue' same =>
    obtain ⟨enough, interacts⟩ := dialogue.interact
    obtain ⟨enough', interacts'⟩ := dialogue'.interact
    obtain ⟨output, diagnostics⟩ := dialogue.written unlimited
    obtain ⟨output', diagnostics'⟩ :=
      dialogue'.written ⟨unlimited.output, unlimited.diagnostics⟩
    have error := congrArg Outcome.error? same
    have machine := congrArg Outcome.machine same
    rw [Outcome.error?_map] at error
    rw [Outcome.machine_map] at machine
    refine .inr ⟨ws, o, o', max enough enough', fun fuel le => ?_, dialogue, dialogue', ?_⟩
    · exact ⟨interacts fuel (le_of_max_le_left le), interacts' fuel (le_of_max_le_right le)⟩
    · exact
        { error, output, output', diagnostics, diagnostics'
          stack := (congrArg Machine.stack machine).trans rfl
          pc := (congrArg Machine.pc machine).trans rfl
          code := (congrArg Machine.code machine).trans rfl
          input := (congrArg Machine.input machine).trans rfl
          reports := fun k message reports => dialogue.getElem?_of_reports reports unlimited }

/-- No step of a session reads if none does in the run of its next line and behind it. -/
lemma TakesLine.quiet (takes : m.TakesLine line taken)
    (answer : taken.answerLine fuel line = some (.done next))
    (run : ∀ text loaded, Utf8.decode? line = some text → taken.loadLine text = .ok loaded →
      Silent loaded.code)
    (behind : ∀ n i, SessionStepsAt next n → n.instruction? = some i → ¬ i.reads)
    (n : Machine) (i : Instruction) (steps : SessionStepsAt m n)
    (found : n.instruction? = some i) : ¬ i.reads := by
  cases steps with
  | now ask more decoded load steps =>
    obtain ⟨rfl, rfl⟩ := takes.unique (.takes ask more)
    have code : n.code = _ := (isRunning_of_runStepsAt steps).2
    exact (code ▸ run _ _ decoded load : Silent n.code).not_reads found
  | later ask more answer' steps =>
    obtain ⟨rfl, rfl⟩ := takes.unique (.takes ask more)
    cases answerLine_unique answer answer'
    exact behind n i steps found

/-- The first line refers to a label that there is not; the second one is resolved for the address
where the first one would have stood, and does not end with a line feed. -/
theorem interact_without_first :
    ∃ m ws o o' enough, Reachable m ∧ m.input = Utf8.encode "@no\n@f 5 :f:" ∧
      (∀ fuel ≥ enough, m.interact fuel = some o ∧
        { m with input := Utf8.encode "@f 5 :f:" }.interact fuel = some o') ∧
      o.error? = none ∧ o.machine.stack = [5, 2] ∧ Dialogue m ws o ∧
      Dialogue { m with input := Utf8.encode "@f 5 :f:" } (without (· = 0) ws) o' ∧
      LeavesNoTrace (· = 0) m ws o o' := by
  let line := "@no\n"
  let line' := "@f 5 :f:"
  let m : Machine := fresh none (Utf8.encode "@no\n@f 5 :f:") {} {}
  have unlimited : m.Unlimited := ⟨rfl, rfl⟩
  -- the first line is reported
  have split : splitLine m.input = (Utf8.encode line, Utf8.encode line') := by decide +kernel
  have takes : m.TakesLine (Utf8.encode line) m.asked :=
    (takesLine_iff unlimited).2 ⟨by decide, by rw [split], rfl⟩
  have read : Source.tokens sessionFile line = .ok [⟨.refer "no", ⟨"CIN", 1, 1⟩⟩] := by cbv
  have load : m.asked.loadLine line =
      .error (ResolveError.unknownLabel "no" ⟨"CIN", 1, 1⟩).message := by
    unfold loadLine loadTokens
    rw [read]
    rfl
  have reports : Reports 0 m _ := .now takes (Utf8.decode?_encode line) load
  have answer := (reports.answer unlimited 0).2
  rw [split] at answer
  -- the second line is run
  let next := m.reported (ResolveError.unknownLabel "no" ⟨"CIN", 1, 1⟩).message
  have input : next.input = Utf8.encode line' := congrArg Prod.snd split
  have split' : splitLine next.input = (Utf8.encode line', []) := by
    rw [input]
    decide +kernel
  have takes' : next.TakesLine (Utf8.encode line') next.asked :=
    (takesLine_iff ⟨rfl, rfl⟩).2 ⟨by rw [input]; decide, by rw [split'], rfl⟩
  have read' : Source.tokens sessionFile line' = .ok [⟨.refer "f", ⟨"CIN", 1, 1⟩⟩,
      ⟨.instr (.push 5), ⟨"CIN", 1, 4⟩⟩, ⟨.define "f", ⟨"CIN", 1, 6⟩⟩] := by cbv
  let loaded : Machine :=
    { next.asked with code := ⟨0, #[.push 2, .push 5], #[⟨"CIN", 1, 1⟩, ⟨"CIN", 1, 4⟩]⟩ }
  let ran : Machine := { loaded with stack := [5, 2], pc := 2 }
  have load' : next.asked.loadLine line' = .ok loaded := by
    unfold loadLine loadTokens
    rw [read']
    rfl
  have run : loaded.run 3 = some (.done ran) := by rfl
  let last : Machine := { ran with output := ran.output.write (Utf8.encode "[2, 5]\n") }
  have answer' : next.asked.answerLine 3 (Utf8.encode line') = some (.done last) := by
    rw [answerLine, Utf8.decode?_encode]
    simp only [load', run]
    rfl
  have empty : last.input = [] := congrArg Prod.snd split'
  have wrote : next.Wrote ⟨Utf8.encode prompt ++ Utf8.encode "[2, 5]\n", []⟩ last :=
    ⟨(Sink.write_append_of_unlimited rfl _ _).symm, (Sink.write_nil _).symm⟩
  have dialogue := Dialogue.answered takes answer (wrote_reported m _)
    (.answered takes' answer' wrote (dialogue_of_empty ⟨rfl, rfl⟩ empty))
  have closed (n : Machine) (i : Instruction) (steps : SessionStepsAt last n) :
      n.instruction? = some i → ¬ i.reads := by
    have more : last.input ≠ [] := by
      cases steps with
      | now ask more => exact ((takesLine_iff ⟨rfl, rfl⟩).1 (.takes ask more)).1
      | later ask more => exact ((takesLine_iff ⟨rfl, rfl⟩).1 (.takes ask more)).1
    exact absurd empty more
  have silent (text : String) (other : Machine) (decoded : Utf8.decode? (Utf8.encode line') = text)
      (loads : next.asked.loadLine text = .ok other) : Silent other.code := by
    rw [Utf8.decode?_encode] at decoded
    cases decoded
    cases load'.symm.trans loads
    unfold Silent
    decide
  have none (text : String) (other : Machine) (decoded : Utf8.decode? (Utf8.encode line) = text)
      (loads : m.asked.loadLine text = .ok other) : Silent other.code := by
    rw [Utf8.decode?_encode] at decoded
    cases decoded
    cases load.symm.trans loads
  have rejected (k : Nat) (gone : decide (k = 0)) : ∃ message, Reports k m message := by
    obtain rfl := of_decide_eq_true gone
    exact ⟨_, reports⟩
  have kept : (without (fun k => decide (k = 0)) (inputLines m.input)).flatten =
      Utf8.encode line' := by
    decide +kernel
  obtain ⟨enough, interacts⟩ := dialogue.interact
  rcases interact_without unlimited
    (takes.quiet answer none (takes'.quiet answer' silent closed)) rejected with
    ⟨endless, -⟩ | ⟨ws, o, o', enough', both, written, written', noTrace⟩
  · cases (endless enough).symm.trans (interacts enough (Nat.le_refl enough))
  · rw [kept] at both written'
    have same := (interacts _ (Nat.le_max_left enough enough')).symm.trans
      (both _ (Nat.le_max_right enough enough')).1
    obtain rfl := Option.some.inj same
    exact ⟨m, ws, _, o', enough', .fresh _ _ _ _, rfl, both, rfl, rfl, written, written', noTrace⟩

end Machine

end StackAsm
