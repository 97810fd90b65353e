import StackAsm.Proofs.Diagnosis
import StackAsm.Proofs.Effect
import StackAsm.Proofs.Resolution.Parts
import StackAsm.Proofs.Session.Turns
import StackAsm.Proofs.Source.Pieces

set_option autoImplicit false

/-!
# A session and the program of all its lines

In a session every line is resolved on its own, for the next free address, and run as soon as it is
read. If no line refers to labels of another one, resolving all lines at once gives the same
instructions; and if each run ends behind its line, the next one begins where it has ended. So a run
of the whole program goes the same way, without prompts and without the stacks in between.

**Proof sketch.** A machine with the whole program follows the session (`Follows`): it has the same
stack at the same address, and more code. Each step of a run in the session is a step of the machine
that follows it, since it sees the same instruction and no instruction looks at the input or at what
was written before (`Follows.step`). At the end of a run the two machines are in front of the code
of the next line, which the session does not have yet; what it writes before it loads the line is
not seen by the program. The runs in the session, put one behind the other, are the run of the
whole.

## Main definitions

* `StackAsm.Machine.SessionLine` — a line of text whose program does not read.
* `StackAsm.Machine.Follows` — a machine with more code than another one, at the same place.

## Main results

* `StackAsm.Machine.Follows.step`, `StackAsm.Machine.Follows.visits` — what a step keeps, and a run.
* `StackAsm.Machine.Session.agrees_with_batch` — a session agrees with the run of all its lines.
-/

namespace StackAsm

/-- Whether a token is an instruction that looks at the input. -/
def Token.reads : Token → Bool
  | .instr i => i.reads
  | .define _ | .refer _ => false

namespace Machine

variable {m n m' n' ended : Machine} {a b : Bytes} {i : Instruction} {l : Location}

/-! ## A machine with more code -/

/-- The machine `n` follows `m`: it stands at the same address with the same stack, and has the same
code and more behind it; `m` and `n` have written the same since they had written `a` and `b`. -/
structure Follows (a b : Bytes) (m n : Machine) : Prop where
  /-- Their programs begin at one address. -/
  start : n.code.start = m.code.start
  /-- The code of `m` is the front of that of `n`. -/
  code : m.code.instructions.toList <+: n.code.instructions.toList
  /-- They stand at one address. -/
  pc : n.pc = m.pc
  /-- They have the same stack. -/
  stack : n.stack = m.stack
  /-- They have the same diagnostics. -/
  diagnostics : n.diagnostics = m.diagnostics
  /-- They have written the same since. -/
  output : ∃ since, m.output.written.toList = a ++ since ∧ n.output.written.toList = b ++ since

/-- An address of a program leads to the same instruction if more are put behind. -/
lemma instructionAt?_of_prefix {p q : Program} (start : q.start = p.start)
    (code : p.instructions.toList <+: q.instructions.toList) {a : Address}
    (found : p.instructionAt? a = some i) : q.instructionAt? a = some i := by
  obtain ⟨k, index, here⟩ := Option.bind_eq_some_iff.1 found
  have inside : k < p.instructions.size := (Program.indexOf?_eq_some_iff.1 index).2
  have le : p.length ≤ q.length := code.length_le
  rw [Program.instructionAt?_of_indexOf? (Program.indexOf?_of_start_eq start le index),
    Program.getElem?_of_front code inside, here]

/-- A run of such a program leaves the input as it is. -/
lemma Silent.input_of_visits (silent : Silent m.code) {k : Nat} (visits : Visits k m n) :
    n.input = m.input := by
  induction visits with
  | start => rfl
  | @step k m next n running step more ih =>
    obtain ⟨i, l, instruction, -, done⟩ := exists_of_step_done step
    have kept := input_execute_of_not_reads (m := m) (l := l) (silent.not_reads instruction)
    rw [done] at kept
    exact (ih (code_of_step step ▸ silent)).trans kept

section Follows

variable (wf : n.code.WellFormed) (silent : Silent n.code) (free : m.Free) (free' : n.Free)
include wf silent free free'

/-- **A step of a machine is a step of the one that follows it.** -/
theorem Follows.step (follows : Follows a b m n) (step : m.step = .done m') :
    n.isRunning ∧ ∃ n', n.step = .done n' ∧ Follows a b m' n' := by
  obtain ⟨i, l, instruction, -, done⟩ := exists_of_step_done step
  have instruction' : n.instruction? = some i := by
    rw [instruction?, follows.pc]
    exact instructionAt?_of_prefix follows.start follows.code instruction
  have running : n.isRunning := by
    refine Program.isSome_instructionAt?_iff.1 ?_
    rw [← instruction?, instruction']
    rfl
  obtain ⟨j, l', same, step'⟩ := step_of_running wf running
  obtain rfl : i = j := Option.some.inj (instruction'.symm.trans same)
  refine ⟨running, ?_⟩
  rw [execute_eq_carryOut (silent.not_reads instruction')] at done step'
  rw [follows.stack] at step'
  cases computes : i.compute m.stack with
  | error e => simp [computes, carryOut] at done
  | ok effect =>
    rw [computes, carryOut_of_unlimited free.unlimited] at done
    rw [computes, carryOut_of_unlimited free'.unlimited] at step'
    cases done
    refine ⟨_, step', follows.start, follows.code, ?_, rfl, ?_, ?_⟩
    · simp only [follows.pc]
    · simp only [follows.stack, follows.diagnostics]
    · obtain ⟨since, written, written'⟩ := follows.output
      refine ⟨since ++ i.printed m.stack, ?_, ?_⟩
      · simp only [Sink.written_write_of_unlimited free.unlimited.output, written,
          List.append_assoc]
      · simp only [Sink.written_write_of_unlimited free'.unlimited.output, written', follows.stack,
          List.append_assoc]

/-- **A run of a machine is part of one of the machine that follows it.** -/
theorem Follows.visits (follows : Follows a b m n) {k : Nat} (visits : Visits k m m') :
    ∃ n', Visits k n n' ∧ Follows a b m' n' := by
  induction visits generalizing n with
  | start => exact ⟨n, .start, follows⟩
  | step running step more ih =>
    obtain ⟨running', next, step', follows⟩ := follows.step wf silent free free' step
    have code := code_of_step step'
    obtain ⟨last, visits, follows⟩ := ih (code ▸ wf) (code ▸ silent)
      (free.of_setup (setup_of_step step)) (free'.of_setup (setup_of_step step')) follows
    exact ⟨last, .step running' step' visits, follows⟩

end Follows

/-! ## The lines of a session -/

/-- A line that has the given tokens, none of which is an instruction that looks at the input. -/
structure SessionLine (line : String) (tokens : List SourceToken) : Prop where
  /-- It is a line. -/
  isLine : IsLine line
  /-- These are its tokens. -/
  read : Source.tokens sessionFile line = .ok tokens
  /-- It does not read. -/
  quiet : ∀ t ∈ tokens, ¬ t.token.reads

/-- Tokens that do not read resolve to a program that does not. -/
lemma silent_of_resolve {tokens : List SourceToken} {start : Address} {p : Program}
    (resolved : Resolution.resolve tokens start = .ok p)
    (quiet : ∀ t ∈ tokens, ¬ t.token.reads) : Silent p := by
  intro i mem
  have related := Resolution.forall₂_becomes_of_resolve resolved
  obtain ⟨k, bound, rfl⟩ := List.getElem_of_mem mem
  have bound' := related.length_eq ▸ bound
  have becomes := related.get bound' bound
  have inside : (Resolution.occupying tokens)[k] ∈ tokens :=
    List.mem_of_mem_filter (List.getElem_mem bound')
  cases token : (Resolution.occupying tokens)[k].token with
  | define name => simp [token, Resolution.Becomes] at becomes
  | refer name =>
    simp only [List.get_eq_getElem, token] at becomes
    obtain ⟨_, _, _, _, _, _, push⟩ := becomes
    rw [push]
    nofun
  | instr j =>
    simp only [List.get_eq_getElem, token] at becomes
    rw [becomes]
    have := quiet _ inside
    rwa [token] at this

/-- **A session takes the lines of its input** and resolves their tokens one line behind the other.

**Proof sketch.** Induction on the turns. A run does not look at the input, so the next turn takes
the next line; and what was loaded before is the program of the tokens before it, so by
`Resolution.resolve_append` it is that of more tokens afterwards. -/
theorem Session.lines_eq {turns : List Turn} (session : Session m turns ended) (free : m.Free)
    {before : List SourceToken} (resolved : Resolution.resolve before 0 = .ok m.code)
    (quiet : ∀ t ∈ before, ¬ t.token.reads) {lines : List String}
    {tokens : List (List SourceToken)} (input : m.input = lines.flatMap Utf8.encode)
    (related : List.Forall₂ SessionLine lines tokens)
    (disjoint : ((before :: tokens).map Resolution.defined).Pairwise List.Disjoint) :
    turns.map (·.line) = lines ∧ ended.code.WellFormed ∧ Silent ended.code ∧
      Resolution.resolve (before ++ tokens.flatten) 0 = .ok ended.code := by
  induction session generalizing before lines tokens with
  | @nil m asked ended ask take close =>
    obtain rfl := eq_of_write ask
    have rest : m.input = [] := by
      have whole := splitLine_append m.input
      have empty : (splitLine m.input).1 = [] := take
      cases bytes : m.input with
      | nil => rfl
      | cons b bytes =>
        rw [bytes] at empty
        unfold splitLine at empty
        split at empty <;> cases empty
    cases related with
    | nil =>
      have code : ended.code = m.code := by
        rw [eq_of_write close]
        rfl
      rw [code, List.flatten_nil, List.append_nil]
      exact ⟨rfl, Resolution.wellFormed_of_resolve resolved, silent_of_resolve resolved quiet,
        resolved⟩
    | cons first others =>
      rw [rest, List.flatMap_cons] at input
      exact absurd (List.append_eq_nil_iff.1 input.symm).1 (encode_ne_nil_of_isLine first.isLine)
  | @cons m next ended turn turns first more ih =>
    obtain ⟨bytes, rest, ts, q, fuel, ran, split, nonempty, text, read, resolves, run, -, -, -,
      rfl⟩ := first.exists_run
    have answering := free.answering rest q
    obtain ⟨k, visits, -⟩ := visits_of_run_done answering.budget run
    cases related with
    | nil =>
      rw [input] at split
      cases split
      exact absurd rfl nonempty
    | @cons line ts' lines tokens now others =>
      rw [input, List.flatMap_cons, splitLine_encode now.isLine] at split
      cases split
      rw [Utf8.decode?_encode] at text
      obtain rfl : line = turn.line := Option.some.inj text
      obtain rfl : ts = ts' := Except.ok.inj (read.symm.trans now.read)
      -- the program of all tokens so far, this line included
      have follows : m.nextAddress.toInt =
          (0 : Address).toInt + (Resolution.occupying before).length := by
        rw [toInt_nextAddress (Resolution.wellFormed_of_resolve resolved),
          Resolution.start_of_resolve resolved, Resolution.length_of_resolve resolved]
      rw [List.map_cons, List.map_cons, List.pairwise_cons, List.pairwise_cons,
        List.forall_mem_cons] at disjoint
      have longer := Resolution.resolve_append resolved resolves follows disjoint.1.1
      have quiet' : ∀ t ∈ before ++ ts, ¬ t.token.reads := by
        intro t mem
        exact (List.mem_append.1 mem).elim (quiet t) (now.quiet t)
      have silent : Silent (m.answering (lines.flatMap Utf8.encode) q).code :=
        silent_of_resolve longer quiet'
      have code : ran.code = m.code.append q := visits.code_eq
      have disjoint' : ((((before ++ ts) :: tokens).map Resolution.defined)).Pairwise
          List.Disjoint := by
        rw [List.map_cons, List.pairwise_cons, Resolution.defined_append]
        refine ⟨fun names mem => ?_, disjoint.2.2⟩
        exact List.disjoint_append_left.2 ⟨disjoint.1.2 names mem, disjoint.2.1 names mem⟩
      have unread : ran.input = lines.flatMap Utf8.encode :=
        silent.input_of_visits visits
      obtain ⟨same, wf, silentAll, whole⟩ :=
        ih (free.of_turn first) (code ▸ longer) quiet' unread others disjoint'
      refine ⟨by rw [List.map_cons, same], wf, silentAll, ?_⟩
      rw [List.flatten_cons, ← List.append_assoc]
      exact whole

/-! ## The runs of a session, one behind the other -/

/-- A session only puts code behind what is loaded. -/
lemma Session.code_prefix {turns : List Turn} (session : Session m turns ended) (free : m.Free) :
    ended.code.start = m.code.start ∧
      m.code.instructions.toList <+: ended.code.instructions.toList := by
  induction session with
  | @nil m asked ended ask take close =>
    have code : ended.code = m.code := by
      rw [eq_of_write close, eq_of_write ask]
      rfl
    rw [code]
    exact ⟨rfl, List.prefix_rfl⟩
  | @cons m next ended turn turns first more ih =>
    obtain ⟨start, behind⟩ := ih (free.of_turn first)
    obtain ⟨_, rest, _, q, fuel, ran, -, -, -, -, -, run, -, -, -, rfl⟩ := first.exists_run
    obtain ⟨k, visits, -⟩ := visits_of_run_done (free.answering rest q).budget run
    have code : ran.code = m.code.append q := visits.code_eq
    rw [code] at start behind
    refine ⟨start, List.IsPrefix.trans ?_ behind⟩
    rw [Program.append, Array.toList_append]
    exact List.prefix_append _ _

/-- **The runs of a session, put one behind the other, are the run of a machine with all of the
code.** -/
theorem Session.visits {turns : List Turn} (session : Session m turns ended) (free : m.Free)
    (atEnd : m.pc = m.nextAddress) (start : n.code.start = ended.code.start)
    (code : n.code.instructions = ended.code.instructions) (wf : n.code.WellFormed)
    (silent : Silent n.code) (free' : n.Free) (pc : n.pc = m.pc) (stack : n.stack = m.stack)
    (diagnostics : n.diagnostics = m.diagnostics) :
    ended.pc = ended.nextAddress ∧ ∃ k last, Visits k n last ∧ last.pc = ended.pc ∧
      last.stack = ended.stack ∧ last.diagnostics = ended.diagnostics ∧
      last.output.written.toList = n.output.written.toList ++ turns.flatMap (·.printed) := by
  induction session generalizing n with
  | @nil m asked ended ask take close =>
    obtain rfl := eq_of_write ask
    obtain rfl := eq_of_write close
    exact ⟨atEnd, 0, n, .start, pc, stack, diagnostics, by simp⟩
  | @cons m next ended turn turns first more ih =>
    have nextFree := free.of_turn first
    have behindNext := more.code_prefix nextFree
    obtain ⟨_, rest, _, q, fuel, ran, -, -, -, -, -, run, behind, shown, output, rfl⟩ :=
      first.exists_run
    have answering := free.answering rest q
    obtain ⟨k, visits, -⟩ := visits_of_run_done answering.budget run
    have same : ran.code = (m.answering rest q).code := visits.code_eq
    have follows : Follows (m.answering rest q).output.written.toList n.output.written.toList
        (m.answering rest q) n := {
      start := by rw [start, behindNext.1, ← same]
      code := by
        rw [code, ← same]
        exact behindNext.2
      pc := pc.trans atEnd
      stack := stack
      diagnostics := diagnostics
      output := ⟨[], by simp, by simp⟩ }
    obtain ⟨n', visits', follows'⟩ := follows.visits wf silent answering free' visits
    obtain ⟨since, written, written'⟩ := follows'.output
    obtain rfl : since = turn.printed := List.append_cancel_left (written.symm.trans output)
    have code' := visits'.code_eq
    obtain ⟨atEnd', j, last, visits'', pc'', stack'', diagnostics'', written''⟩ :=
      ih nextFree behind (code' ▸ start) (code' ▸ code) (code' ▸ wf) (code' ▸ silent)
        (free'.of_setup visits'.setup_eq) follows'.pc follows'.stack follows'.diagnostics
    refine ⟨atEnd', k + j, last, visits'.trans visits'', pc'', stack'', diagnostics'', ?_⟩
    rw [written'', written', List.flatMap_cons, List.append_assoc]

/-- **A session agrees with the run of all its lines.** Let no line of an input look at the input or
define a label that another line defines, and let the session end with the input, after every line
is loaded and its run has ended behind it. (A line that is loaded defines no label twice and refers
to its own labels alone.) Then the turns of the session are those of these lines, and it writes the
prompts, what the runs write, the stacks, and a line feed at its end. The text of all lines can be
assembled under any name, to the same instructions at the same addresses; a fresh machine loads
them, with any input, and runs to the end, with the same stack, program counter and diagnostics; and
it writes what the runs of the session write. -/
theorem Session.agrees_with_batch {lines : List String} {tokens : List (List SourceToken)}
    (related : List.Forall₂ SessionLine lines tokens)
    (disjoint : (tokens.map Resolution.defined).Pairwise List.Disjoint) {turns : List Turn}
    (session : Session (fresh none (lines.flatMap Utf8.encode) {} {}) turns ended)
    (file : String) (input : Bytes) :
    turns.map (·.line) = lines ∧
    (∃ fuel, (fresh none (lines.flatMap Utf8.encode) {} {}).interact fuel = some (.done ended)) ∧
    ended.output.written.toList =
      turns.flatMap Turn.transcript ++ Utf8.encode prompt ++ Utf8.encode "\n" ∧
    ∃ p m last fuel, assemble file (String.join lines) = .ok p ∧
      (fresh none input {} {}).load p = .ok m ∧ m.run fuel = some (.done last) ∧
      last.code.start = ended.code.start ∧ last.code.instructions = ended.code.instructions ∧
      last.stack = ended.stack ∧ last.pc = ended.pc ∧ last.diagnostics = ended.diagnostics ∧
      last.output.written.toList = turns.flatMap (·.printed) := by
  have free (bytes : Bytes) : (fresh none bytes {} {}).Free := ⟨rfl, rfl, rfl⟩
  have empty : Resolution.resolve [] 0 = .ok (Program.empty 0) := rfl
  obtain ⟨same, wf, silent, resolved⟩ := session.lines_eq (free _) empty nofun rfl related
    (List.pairwise_cons.2 ⟨fun _ _ => List.disjoint_nil_left _, disjoint⟩)
  obtain ⟨enough, interacts⟩ := session.interact
  refine ⟨same, ⟨enough, interacts enough (le_refl enough)⟩, session.written (free _), ?_⟩
  -- the text of all lines has the same tokens, at other places
  obtain ⟨whole, read, tokensSame⟩ := Source.exists_tokens_join (related.imp fun line ts now =>
    ⟨now.isLine.endsLine, now.read⟩) file
  obtain ⟨p, assembled, instructions⟩ := Resolution.exists_resolve_congr tokensSame.symm resolved
  have start : p.start = ended.code.start := by
    rw [Resolution.start_of_resolve assembled, Resolution.start_of_resolve resolved]
  have wf' := Resolution.wellFormed_of_resolve assembled
  have silent' : Silent p := by
    rw [Silent, instructions]
    exact silent
  let m : Machine := ⟨p, p.start, [], none, input, {}, {}⟩
  obtain ⟨atEnd, k, last, visits, pc, stack, diagnostics, written⟩ :=
    session.visits (n := m) (free _) rfl start instructions wf' silent' ⟨rfl, rfl, rfl⟩
      (Resolution.start_of_resolve assembled) rfl rfl
  have code : last.code = p := visits.code_eq
  have stopped : ¬ last.isRunning := by
    rw [isRunning, Program.isSome_indexOf?_iff, code, pc, atEnd, toInt_nextAddress wf, start,
      Program.length, Program.length, instructions]
    omega
  refine ⟨p, m, last, k + 1, assemble_eq_ok_iff.2 ⟨whole, read, assembled⟩,
    load_fresh_eq (Program.endAddress?_ne_none_iff.2 wf'.fits) none input {} {},
    visits.runFrom_eq rfl stopped 0, ?_, ?_, stack, pc, diagnostics, written⟩
  · rw [code, start]
  · rw [code, instructions]

/-- The second line calls a piece of code in the first one, which jumps back to it. -/
theorem Session.agrees_with_batch_call :
    ∃ ended p m last fuel,
      Session (fresh none
          (["@over jmp :f: swap print jmp :over:\n", "7 @back 2 jmp :back:\n"].flatMap Utf8.encode)
          {} {})
        [⟨"@over jmp :f: swap print jmp :over:\n", [], []⟩,
          ⟨"7 @back 2 jmp :back:\n", Utf8.encode "7", []⟩] ended ∧
      ended.output.written.toList = Utf8.encode "> []\n> 7[]\n> \n" ∧
      assemble "f" "@over jmp :f: swap print jmp :over:\n7 @back 2 jmp :back:\n" = .ok p ∧
      (fresh none [] {} {}).load p = .ok m ∧ m.run fuel = some (.done last) ∧
      last.pc = 9 ∧ last.output.written.toList = Utf8.encode "7" := by
  let line := "@over jmp :f: swap print jmp :over:\n"
  let line' := "7 @back 2 jmp :back:\n"
  let place (column : Nat) : Location := ⟨"CIN", 1, column⟩
  let tokens : List SourceToken :=
    [⟨.refer "over", place 1⟩, ⟨.instr (.op .jmp), place 7⟩, ⟨.define "f", place 11⟩,
      ⟨.instr (.op .swap), place 15⟩, ⟨.instr (.op .print), place 20⟩,
      ⟨.instr (.op .jmp), place 26⟩, ⟨.define "over", place 30⟩]
  let tokens' : List SourceToken :=
    [⟨.instr (.push 7), place 1⟩, ⟨.refer "back", place 3⟩, ⟨.instr (.push 2), place 9⟩,
      ⟨.instr (.op .jmp), place 11⟩, ⟨.define "back", place 15⟩]
  let q : Program := ⟨0, #[.push 5, .op .jmp, .op .swap, .op .print, .op .jmp],
    #[place 1, place 7, place 15, place 20, place 26]⟩
  let q' : Program := ⟨5, #[.push 7, .push 9, .push 2, .op .jmp],
    #[place 1, place 3, place 9, place 11]⟩
  have isLine : IsLine line := ⟨"@over jmp :f: swap print jmp :over:".toList, by decide, by decide⟩
  have isLine' : IsLine line' := ⟨"7 @back 2 jmp :back:".toList, by decide, by decide⟩
  have read : Source.tokens sessionFile line = .ok tokens := by cbv
  have read' : Source.tokens sessionFile line' = .ok tokens' := by cbv
  let m : Machine := fresh none ([line, line'].flatMap Utf8.encode) {} {}
  let ran : Machine := { m.answering (Utf8.encode line') q with pc := 5 }
  let m' : Machine := { ran with output := ran.output.write (Utf8.encode "[]\n") }
  let loaded : Machine := m'.answering [] q'
  let ran' : Machine := { loaded with pc := 9, output := loaded.output.write (Utf8.encode "7") }
  have input : m.input = Utf8.encode line ++ Utf8.encode line' := by
    simp [m, fresh]
  have run : (m.answering (Utf8.encode line') q).run 3 = some (.done ran) := by rfl
  have run' : loaded.run 8 = some (.done ran') := by decide +kernel
  have free : m.Free := ⟨rfl, rfl, rfl⟩
  have free' : m'.Free := ⟨rfl, rfl, rfl⟩
  have resolved : Resolution.resolve tokens m.nextAddress = .ok q := by cbv
  have resolved' : Resolution.resolve tokens' m'.nextAddress = .ok q' := by cbv
  have turn : TakesTurn m ⟨line, [], []⟩ m' :=
    takesTurn_of_run free isLine input read resolved run rfl (List.append_nil _).symm
  have printed' : ran'.output.written.toList = loaded.output.written.toList ++ Utf8.encode "7" :=
    Sink.written_write_of_unlimited rfl _
  have turn' : TakesTurn m' ⟨line', Utf8.encode "7", []⟩
      { ran' with output := ran'.output.write (Utf8.encode "[]\n") } :=
    takesTurn_of_run free' isLine' (List.append_nil _).symm read' resolved' run' rfl printed'
  have session : Session m [⟨line, [], []⟩, ⟨line', Utf8.encode "7", []⟩] _ :=
    .cons turn (.cons turn' (.nil rfl rfl rfl))
  have related : List.Forall₂ SessionLine [line, line'] [tokens, tokens'] :=
    .cons ⟨isLine, read, by decide⟩ (.cons ⟨isLine', read', by decide⟩ .nil)
  have disjoint : ([tokens, tokens'].map Resolution.defined).Pairwise List.Disjoint := by
    change [["f", "over"], ["back"]].Pairwise List.Disjoint
    simp
  obtain ⟨-, -, written, p, n, last, fuel, assembled, loads, runs, -, -, -, pc, -, printed⟩ :=
    session.agrees_with_batch related disjoint "f" []
  refine ⟨_, p, n, last, fuel, session, written.trans ?_, assembled, loads, runs, pc, printed⟩
  cbv

end Machine

end StackAsm
