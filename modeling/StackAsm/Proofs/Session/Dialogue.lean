import StackAsm.Proofs.Session.Lines
import StackAsm.Proofs.Streams

set_option autoImplicit false

/-!
# What a session writes

Turn by turn a session writes its prompt, and what becomes of the line: what its run writes and the
stack, or a report that it is no program. A line is answered alike whatever was written before and
whatever lines are behind it, unless its run reads.

## Main definitions

* `StackAsm.Machine.TakesLine` — a session takes a line off the input.
* `StackAsm.Machine.Reports` — a session reports one of its lines.
* `StackAsm.Machine.Dialogue` — what a session writes, turn by turn.

## Main results

* `StackAsm.Machine.answerLine_withStreams` — a line is answered alike, whatever the streams.
* `StackAsm.Machine.Dialogue.interact`, `StackAsm.Machine.Dialogue.written` — a session that ends,
  and what it has written.
* `StackAsm.Machine.Reports.answer`, `StackAsm.Machine.Dialogue.getElem?_of_reports` — what becomes
  of a line that is reported.
-/

namespace StackAsm.Machine

variable {m n taken next : Machine} {line : Bytes} {o o' : Outcome} {fuel k : Nat}
  {message : String} {input : Bytes} {output diagnostics : Sink}

/-! ## Answers -/

/-- The loading of a line does not look at the streams. -/
lemma loadLine_withStreams (m : Machine) (input : Bytes) (output diagnostics : Sink)
    (line : String) :
    (m.withStreams input output diagnostics).loadLine line =
      (m.loadLine line).map fun loaded => loaded.withStreams input output diagnostics := by
  have nextAddress : (m.withStreams input output diagnostics).nextAddress = m.nextAddress := rfl
  unfold loadLine loadTokens
  rw [nextAddress]
  cases Source.tokens sessionFile line with
  | error e => rfl
  | ok tokens =>
    dsimp only
    cases Resolution.resolve tokens m.nextAddress <;> rfl

/-- **A line is answered alike, whatever the streams are**, if there is no reading in its run. -/
theorem answerLine_withStreams (unlimited : m.Unlimited)
    (unlimited' : (m.withStreams input output diagnostics).Unlimited) (fuel : Nat) (line : Bytes)
    (quiet : ∀ text loaded, Utf8.decode? line = some text → m.loadLine text = .ok loaded →
      ∀ n i, RunStepsAt 0 loaded n → n.instruction? = some i → ¬ i.reads) :
    Agree m input output diagnostics (m.answerLine fuel line)
      ((m.withStreams input output diagnostics).answerLine fuel line) := by
  unfold answerLine
  cases decoded : Utf8.decode? line with
  | none => exact .of_quiet rfl rfl rfl rfl
  | some text =>
    dsimp only
    rw [loadLine_withStreams]
    cases load : m.loadLine text with
    | error message =>
      simp only [Except.map, report_of_unlimited unlimited, report_of_unlimited unlimited']
      exact .finished (w := ⟨[], Utf8.encode ("error: " ++ message ++ "\n")⟩) rfl
        ⟨(Sink.write_nil _).symm, rfl⟩ (by rw [Sink.write_nil]; rfl)
    | ok loaded =>
      obtain ⟨tokens, q, -, -, rfl⟩ := exists_of_loadLine load
      let l := (m.append q).goTo m.nextAddress
      have sinks : l.Unlimited := ⟨unlimited.output, unlimited.diagnostics⟩
      have sinks' : (l.withStreams input output diagnostics).Unlimited :=
        ⟨unlimited'.output, unlimited'.diagnostics⟩
      have run : Agree l input output diagnostics (l.run fuel)
          ((l.withStreams input output diagnostics).run fuel) :=
        runFrom_withStreams sinks sinks' fuel 0 fun n i steps found reads =>
          absurd reads (quiet text l decoded load n i steps found)
      exact (run.write sinks sinks' (fun n => Utf8.encode (n.stackText ++ "\n"))
        fun n input output diagnostics => rfl).of_streams rfl rfl rfl

/-- A line that is answered stays so if more states are allowed. -/
lemma answerLine_mono {more : Nat} (answer : m.answerLine fuel line = some o)
    (le : fuel ≤ more) : m.answerLine more line = some o := by
  unfold answerLine at answer ⊢
  cases decoded : Utf8.decode? line with
  | none => rwa [decoded] at answer
  | some text =>
    rw [decoded] at answer
    dsimp only at answer ⊢
    cases load : m.loadLine text with
    | error message => rwa [load] at answer
    | ok loaded =>
      rw [load] at answer
      obtain ⟨ran, run, rfl⟩ := Option.map_eq_some_iff.1 answer
      simp only [run_mono run le, Option.map_some]

/-- There is one answer to a line. -/
lemma answerLine_unique {more : Nat} (answer : m.answerLine fuel line = some o)
    (answer' : m.answerLine more line = some o') : o = o' :=
  Option.some.inj ((answerLine_mono answer (Nat.le_max_left fuel more)).symm.trans
    (answerLine_mono answer' (Nat.le_max_right fuel more)))

/-! ## Turns -/

/-- The machine when a session has written its prompt and taken a line off the input. -/
def asked (m : Machine) : Machine :=
  { m with
    input := (splitLine m.input).2
    output := m.output.write (Utf8.encode prompt) }

/-- A session writes its prompt and takes a line, which is not empty, off the input. -/
inductive TakesLine (m : Machine) : (line : Bytes) → (taken : Machine) → Prop where
  /-- There is a line. -/
  | takes {asked : Machine} (ask : m.write (Utf8.encode prompt) = .done asked)
    (more : asked.takeLine.1 ≠ []) : TakesLine m asked.takeLine.1 asked.takeLine.2

/-- A line is taken exactly if the input is not empty, and it is the first one. -/
lemma takesLine_iff (unlimited : m.Unlimited) :
    m.TakesLine line taken ↔ m.input ≠ [] ∧ line = (splitLine m.input).1 ∧ taken = m.asked := by
  constructor
  · rintro ⟨ask, more⟩
    obtain rfl := eq_of_write ask
    refine ⟨fun empty => more ?_, rfl, rfl⟩
    rw [takeLine, empty]
    rfl
  · rintro ⟨nonempty, rfl, rfl⟩
    exact .takes (write_of_unlimited unlimited _) (splitLine_fst_ne_nil nonempty)

/-- What the run of the next line steps at, the session steps at. -/
lemma TakesLine.stepsAt_now {text : String} {loaded : Machine} (takes : m.TakesLine line taken)
    (decoded : Utf8.decode? line = some text) (load : taken.loadLine text = .ok loaded)
    (steps : RunStepsAt 0 loaded n) : SessionStepsAt m n := by
  obtain ⟨ask, more⟩ := takes
  exact .now ask more decoded load steps

/-- What the session steps at behind its next line, it steps at. -/
lemma TakesLine.stepsAt_behind (takes : m.TakesLine line taken)
    (answer : taken.answerLine fuel line = some (.done next)) (steps : SessionStepsAt next n) :
    SessionStepsAt m n := by
  obtain ⟨ask, more⟩ := takes
  exact .later ask more answer steps

/-- **A turn of a session.** -/
theorem TakesLine.interact (takes : m.TakesLine line taken) (fuel : Nat) :
    m.interact (fuel + 1) =
      match taken.answerLine (fuel + 1) line with
      | none => none
      | some (.failed e last) => some (.failed e last)
      | some (.done next) => next.interact fuel := by
  obtain ⟨ask, more⟩ := takes
  rw [Machine.interact, ask]
  exact if_neg more

/-- A session reports the line at the place `k`, counted from its next line, with a message. -/
inductive Reports : (k : Nat) → Machine → (message : String) → Prop where
  /-- It reports its next line. -/
  | now {m taken : Machine} {line : Bytes} {text message : String}
      (takes : m.TakesLine line taken) (decoded : Utf8.decode? line = some text)
      (rejects : taken.loadLine text = .error message) : Reports 0 m message
  /-- It reports a line behind its next one. -/
  | later {k fuel : Nat} {m taken next : Machine} {line : Bytes} {message : String}
      (takes : m.TakesLine line taken) (answer : taken.answerLine fuel line = some (.done next))
      (behind : Reports k next message) : Reports (k + 1) m message

/-- A session that is held to a machine ends with the given outcome, and has written the given bytes
turn by turn. -/
inductive Dialogue : Machine → List Writing → Outcome → Prop where
  /-- There is no line left. -/
  | closed {m asked : Machine} {w : Writing} {o : Outcome}
      (ask : m.write (Utf8.encode prompt) = .done asked) (none : asked.takeLine.1 = [])
      (close : asked.takeLine.2.write (Utf8.encode "\n") = o) (wrote : m.Wrote w o.machine) :
    Dialogue m [w] o
  /-- The answer to the next line is the last one. -/
  | failed {fuel : Nat} {m taken last : Machine} {line : Bytes} {e : RuntimeError} {w : Writing}
      (takes : m.TakesLine line taken) (answer : taken.answerLine fuel line = some (.failed e last))
      (wrote : m.Wrote w last) : Dialogue m [w] (.failed e last)
  /-- The session goes on behind the answer to the next line. -/
  | answered {fuel : Nat} {m taken next : Machine} {line : Bytes} {w : Writing}
      {ws : List Writing} {o : Outcome} (takes : m.TakesLine line taken)
      (answer : taken.answerLine fuel line = some (.done next)) (wrote : m.Wrote w next)
      (more : Dialogue next ws o) : Dialogue m (w :: ws) o

variable {ws : List Writing} {w : Writing}

/-- **What is called a session here is one.** -/
theorem Dialogue.interact (dialogue : Dialogue m ws o) :
    ∃ enough, ∀ fuel ≥ enough, m.interact fuel = some o := by
  induction dialogue with
  | closed ask none close wrote =>
    refine ⟨1, fun fuel le => ?_⟩
    obtain ⟨fuel, rfl⟩ := Nat.exists_eq_succ_of_ne_zero (Nat.ne_zero_of_lt le)
    rw [Machine.interact]
    simp only [ask, if_pos none, close]
  | @failed fuel _ _ _ _ _ _ takes answer wrote =>
    refine ⟨fuel + 1, fun states le => ?_⟩
    obtain ⟨states, rfl⟩ := Nat.exists_eq_succ_of_ne_zero (Nat.ne_zero_of_lt le)
    rw [takes.interact, answerLine_mono answer (by omega)]
  | @answered fuel _ _ _ _ _ _ _ takes answer wrote more ih =>
    obtain ⟨enough, interacts⟩ := ih
    refine ⟨max (enough + 1) (fuel + 1), fun states le => ?_⟩
    obtain ⟨states, rfl⟩ := Nat.exists_eq_add_one_of_ne_zero (n := states) (by omega)
    rw [takes.interact, answerLine_mono answer (by omega)]
    exact interacts states (by omega)

/-- A session has written what it has written in its turns. -/
theorem Dialogue.written (dialogue : Dialogue m ws o) (unlimited : m.Unlimited) :
    o.machine.output.written.toList = m.output.written.toList ++ ws.flatMap Writing.output ∧
      o.machine.diagnostics.written.toList =
        m.diagnostics.written.toList ++ ws.flatMap Writing.diagnostics := by
  induction dialogue with
  | closed ask none close wrote | failed takes answer wrote =>
    rw [List.flatMap_singleton, List.flatMap_singleton]
    exact wrote.written unlimited
  | answered takes answer wrote more ih =>
    obtain ⟨output, diagnostics⟩ := wrote.written unlimited
    obtain ⟨output', diagnostics'⟩ := ih (wrote.unlimited unlimited)
    rw [output', diagnostics', output, diagnostics, List.flatMap_cons, List.flatMap_cons,
      List.append_assoc, List.append_assoc]
    exact ⟨rfl, rfl⟩

/-- A session takes one line. -/
lemma TakesLine.unique {line' : Bytes} {taken' : Machine} (takes : m.TakesLine line taken)
    (takes' : m.TakesLine line' taken') : line' = line ∧ taken' = taken := by
  obtain ⟨ask, more⟩ := takes
  obtain ⟨ask', more'⟩ := takes'
  cases ask.symm.trans ask'
  exact ⟨rfl, rfl⟩

/-- A session goes on behind the answer to a line. -/
lemma Dialogue.of_answer (dialogue : Dialogue m ws o) (takes : m.TakesLine line taken)
    (answer : taken.answerLine fuel line = some (.done next)) :
    ∃ w vs, ws = w :: vs ∧ m.Wrote w next ∧ Dialogue next vs o := by
  cases dialogue with
  | closed ask none close wrote =>
    obtain ⟨ask', more⟩ := takes
    cases ask.symm.trans ask'
    exact absurd none more
  | failed takes' answer' wrote =>
    obtain ⟨rfl, rfl⟩ := takes.unique takes'
    cases answerLine_unique answer answer'
  | answered takes' answer' wrote more =>
    obtain ⟨rfl, rfl⟩ := takes.unique takes'
    cases answerLine_unique answer answer'
    exact ⟨_, _, rfl, wrote, more⟩

/-! ## Reports -/

/-- What a session writes in the turn of a line that it reports. -/
def reportOf (message : String) : Writing :=
  ⟨Utf8.encode prompt, Utf8.encode ("error: " ++ message ++ "\n")⟩

/-- The machine behind the turn of a line that a session reports. -/
def reported (m : Machine) (message : String) : Machine :=
  m.withStreams (splitLine m.input).2 (m.output.write (reportOf message).output)
    (m.diagnostics.write (reportOf message).diagnostics)

/-- A line that is reported has written its report. -/
lemma wrote_reported (m : Machine) (message : String) :
    m.Wrote (reportOf message) (m.reported message) := ⟨rfl, rfl⟩

/-- **A line that a session reports** only changes the streams. -/
theorem Reports.answer (reports : Reports 0 m message) (unlimited : m.Unlimited) (fuel : Nat) :
    m.TakesLine (splitLine m.input).1 m.asked ∧
      m.asked.answerLine fuel (splitLine m.input).1 = some (.done (m.reported message)) := by
  cases reports with
  | now takes decoded rejects =>
    obtain ⟨-, rfl, rfl⟩ := (takesLine_iff unlimited).1 takes
    have sinks : m.asked.Unlimited := ⟨unlimited.output, unlimited.diagnostics⟩
    refine ⟨takes, ?_⟩
    rw [answerLine, decoded]
    dsimp only
    rw [rejects]
    exact congrArg some (report_of_unlimited sinks _)

/-- Behind its next line, which it answers, a session reports the others. -/
lemma Reports.behind (reports : Reports (k + 1) m message) (takes : m.TakesLine line taken)
    (answer : taken.answerLine fuel line = some o) :
    ∃ next, o = .done next ∧ Reports k next message := by
  cases reports with
  | later takes' answer' behind =>
    obtain ⟨rfl, rfl⟩ := takes.unique takes'
    exact ⟨_, answerLine_unique answer answer', behind⟩

/-- What a session has written in the turn of a line that it reports. -/
theorem Dialogue.getElem?_of_reports (dialogue : Dialogue m ws o) (reports : Reports k m message)
    (unlimited : m.Unlimited) : ws[k]? = some (reportOf message) := by
  induction k generalizing m ws with
  | zero =>
    obtain ⟨takes, answer⟩ := reports.answer unlimited 0
    obtain ⟨w, vs, rfl, wrote, -⟩ := dialogue.of_answer takes answer
    rw [List.getElem?_cons_zero, wrote.unique (wrote_reported m message) unlimited]
  | succ k ih =>
    cases reports with
    | later takes answer behind =>
      obtain ⟨w, vs, rfl, wrote, more⟩ := dialogue.of_answer takes answer
      rw [List.getElem?_cons_succ]
      exact ih more behind (wrote.unlimited unlimited)

/-! ## Endless sessions -/

/-- A session never ends if the answer to its next line does not. -/
lemma TakesLine.endless (takes : m.TakesLine line taken)
    (endless : ∀ fuel, taken.answerLine fuel line = none) (fuel : Nat) :
    m.interact fuel = none := by
  cases fuel with
  | zero => rfl
  | succ fuel => rw [takes.interact, endless]

/-- A session never ends if it does not behind its next line. -/
lemma TakesLine.endless_behind (takes : m.TakesLine line taken) {states : Nat}
    (answer : taken.answerLine states line = some (.done next))
    (endless : ∀ fuel, next.interact fuel = none) (fuel : Nat) : m.interact fuel = none := by
  cases fuel with
  | zero => rfl
  | succ fuel =>
    rw [takes.interact]
    cases answer' : taken.answerLine (fuel + 1) line with
    | none => rfl
    | some o =>
      obtain rfl := answerLine_unique answer' answer
      exact endless fuel

end StackAsm.Machine
