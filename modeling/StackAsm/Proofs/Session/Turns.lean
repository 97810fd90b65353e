import StackAsm.Proofs.Run
import StackAsm.Proofs.Source.Lines
import StackAsm.Session.Interactive

set_option autoImplicit false

/-!
# The turns of a session

In each turn a session writes its prompt, takes a line, loads it, runs it and shows the stack. This
module says what a turn is if all of this succeeds and the run ends behind the code loaded so far.

## Main definitions

* `StackAsm.Machine.Turn` — a line of a session, what it has written and the stack that it has left.
* `StackAsm.Machine.Session` — a session all of whose runs end behind the code loaded so far.

## Main results

* `StackAsm.splitLine_encode` — lines are read as they were written.
* `StackAsm.Machine.Session.interact` — what is called a session here is one.
* `StackAsm.Machine.TakesTurn.exists_run` — the run of a turn.
* `StackAsm.Machine.Session.written` — what a session writes.
-/

namespace StackAsm

/-! ## Lines of an input -/

/-- A text with one line feed, at its end. -/
def IsLine (line : String) : Prop := ∃ cs, line.toList = cs ++ ['\n'] ∧ '\n' ∉ cs

/-- In UTF-8 the byte of the line feed is part of no other character. -/
lemma eq_of_lineFeed_mem_utf8EncodeChar {c : Char} (mem : lineFeed ∈ String.utf8EncodeChar c) :
    c = '\n' := by
  -- the bytes of a longer encoding are all at least 128
  have large {n : Nat} (low : 128 ≤ n) (high : n < 256) : lineFeed ≠ UInt8.ofNat n := by
    intro same
    have value := congrArg UInt8.toNat same
    rw [UInt8.toNat_ofNat_of_lt' high] at value
    change 10 = n at value
    omega
  unfold String.utf8EncodeChar at mem
  dsimp only at mem
  split at mem
  · rename_i small
    have value := congrArg UInt8.toNat (List.mem_singleton.1 mem)
    rw [UInt8.toNat_ofNat_of_lt' (by simp only [UInt8.size]; omega)] at value
    exact Char.ext (UInt32.toNat_inj.1 value.symm)
  split at mem
  · simp only [List.mem_cons, List.not_mem_nil, or_false] at mem
    rcases mem with same | same
    · exact absurd same (large (by omega) (by omega))
    · exact absurd same (large (by omega) (by omega))
  split at mem
  · simp only [List.mem_cons, List.not_mem_nil, or_false] at mem
    rcases mem with same | same | same
    · exact absurd same (large (by omega) (by omega))
    · exact absurd same (large (by omega) (by omega))
    · exact absurd same (large (by omega) (by omega))
  · simp only [List.mem_cons, List.not_mem_nil, or_false] at mem
    rcases mem with same | same | same | same <;>
      exact absurd same (large (by omega) (by omega))

/-- A text without a line feed is encoded without its byte. -/
lemma lineFeed_notMem_flatMap {cs : List Char} (other : '\n' ∉ cs) :
    lineFeed ∉ cs.flatMap String.utf8EncodeChar := by
  intro mem
  obtain ⟨c, inside, mem⟩ := List.mem_flatMap.1 mem
  exact other (eq_of_lineFeed_mem_utf8EncodeChar mem ▸ inside)

/-- A line reaches through the first line feed. -/
lemma splitLine_append_lineFeed {front : Bytes} (other : lineFeed ∉ front) (rest : Bytes) :
    splitLine (front ++ lineFeed :: rest) = (front ++ [lineFeed], rest) := by
  induction front with
  | nil => simp [splitLine]
  | cons b front ih =>
    rw [List.mem_cons, not_or] at other
    simp [splitLine, Ne.symm other.1, ih other.2]

/-- **A line is read as it was written**, whatever is behind it. -/
theorem splitLine_encode {line : String} (isLine : IsLine line) (rest : Bytes) :
    splitLine (Utf8.encode line ++ rest) = (Utf8.encode line, rest) := by
  obtain ⟨cs, text, other⟩ := isLine
  have bytes : Utf8.encode line = cs.flatMap String.utf8EncodeChar ++ [lineFeed] := by
    rw [Utf8.encode, text, List.flatMap_append]
    rfl
  rw [bytes, List.append_assoc]
  exact splitLine_append_lineFeed (lineFeed_notMem_flatMap other) rest

/-- A line ends with its line feed. -/
lemma IsLine.endsLine {line : String} (isLine : IsLine line) : Source.EndsLine line.toList := by
  obtain ⟨cs, text, -⟩ := isLine
  rw [text]
  exact Source.endsLine_concat cs

/-- A line is not encoded to nothing. -/
lemma encode_ne_nil_of_isLine {line : String} (isLine : IsLine line) :
    Utf8.encode line ≠ [] := by
  obtain ⟨cs, text, -⟩ := isLine
  rw [Utf8.encode, text, List.flatMap_append]
  exact List.append_ne_nil_of_right_ne_nil _ (by decide)

namespace Machine

variable {m m' ended : Machine} {bytes : Bytes}

/-! ## Sessions -/

/-- A line of a session, what its run has written, and the stack that the run has left. -/
structure Turn where
  /-- The line. -/
  line : String
  /-- What its run has written to the output. -/
  printed : Bytes
  /-- The stack behind its run, the top in front. -/
  stack : List Word

/-- What a session writes in one turn: the prompt, the output of the run and the stack. -/
def Turn.transcript (turn : Turn) : Bytes :=
  Utf8.encode prompt ++ turn.printed ++ Utf8.encode (StackAsm.stackText turn.stack.reverse ++ "\n")

/-- A machine in a session takes a line, loads it, runs it up to the next free address and shows the
stack. -/
inductive TakesTurn : Machine → Turn → Machine → Prop where
  /-- All of this succeeds. -/
  | turn {m asked taken loaded ran next : Machine} {bytes printed : Bytes} {line : String}
      {fuel : Nat} (ask : m.write (Utf8.encode prompt) = .done asked)
      (take : asked.takeLine = (bytes, taken)) (nonempty : bytes ≠ [])
      (text : Utf8.decode? bytes = some line) (load : taken.loadLine line = .ok loaded)
      (run : loaded.run fuel = some (.done ran)) (behind : ran.pc = ran.nextAddress)
      (output : ran.output.written.toList = loaded.output.written.toList ++ printed)
      (showStack : ran.write (Utf8.encode (ran.stackText ++ "\n")) = .done next) :
    TakesTurn m ⟨line, printed, ran.stack⟩ next

/-- A session with the given turns, up to the end of the input. -/
inductive Session : Machine → List Turn → Machine → Prop where
  /-- There is no line left. -/
  | nil {m asked ended : Machine} (ask : m.write (Utf8.encode prompt) = .done asked)
      (take : asked.takeLine.1 = [])
      (close : asked.takeLine.2.write (Utf8.encode "\n") = .done ended) : Session m [] ended
  /-- The session goes on behind a turn. -/
  | cons {m next ended : Machine} {turn : Turn} {turns : List Turn} (first : TakesTurn m turn next)
      (more : Session next turns ended) : Session m (turn :: turns) ended

/-- **What is called a session here is one.** -/
theorem Session.interact {turns : List Turn} (session : Session m turns ended) :
    ∃ enough, ∀ fuel ≥ enough, m.interact fuel = some (.done ended) := by
  induction session with
  | nil ask take close =>
    refine ⟨1, fun fuel le => ?_⟩
    obtain ⟨fuel, rfl⟩ := Nat.exists_eq_succ_of_ne_zero (Nat.ne_zero_of_lt le)
    rw [Machine.interact]
    simp only [ask, if_pos take, close]
  | @cons _ next _ _ _ first more ih =>
    cases first with
    | @turn asked taken loaded ran next bytes printed line fuel ask take nonempty text load run
        behind output showStack =>
      obtain ⟨enough, interacts⟩ := ih
      refine ⟨max (enough + 1) fuel, fun states le => ?_⟩
      obtain ⟨states, rfl⟩ := Nat.exists_eq_add_one_of_ne_zero (n := states) (by omega)
      have answer : taken.answerLine (states + 1) bytes = some (.done next) := by
        simp only [answerLine, text, load, run_mono run (le_of_max_le_right le), Option.map_some,
          Outcome.andThen_done, showStack]
      rw [Machine.interact]
      simp only [ask, take, if_neg nonempty, answer]
      exact interacts states (Nat.le_of_succ_le_succ (le_of_max_le_left le))

/-- A write that succeeds has written all its bytes. -/
lemma written_of_write_done (unlimited : m.Unlimited) (done : m.write bytes = .done m') :
    m'.output.written.toList = m.output.written.toList ++ bytes := by
  rw [eq_of_write done]
  exact Sink.written_write_of_unlimited unlimited.output bytes

/-- A line is loaded by resolving its tokens for the next free address. -/
lemma exists_of_loadLine {line : String} {loaded : Machine}
    (load : m.loadLine line = .ok loaded) :
    ∃ tokens q, Source.tokens sessionFile line = .ok tokens ∧
      Resolution.resolve tokens m.nextAddress = .ok q ∧
      loaded = (m.append q).goTo m.nextAddress := by
  unfold loadLine loadTokens at load
  split at load
  · cases load
  · rename_i tokens read
    split at load
    · cases load
    · rename_i loaded' loads
      split at loads
      · rename_i q resolved
        cases loads
        cases load
        exact ⟨tokens, q, read, resolved, rfl⟩
      · cases loads

/-- A machine to which a session may be held: no limit ends a run. -/
structure Free (m : Machine) : Prop where
  /-- There is no budget. -/
  budget : m.budget = none
  /-- The sinks take all that is written. -/
  unlimited : m.Unlimited

/-- A machine with the setup of a free one is free. -/
lemma Free.of_setup (free : m.Free) (same : m'.setup = m.setup) : m'.Free :=
  ⟨(congrArg (fun setup => setup.2.1) same).trans free.budget, free.unlimited.of_setup same⟩

/-- The machine whose run answers a line: the prompt is written, the line taken off the input, and
the program `q` of the line loaded. -/
def answering (m : Machine) (rest : Bytes) (q : Program) : Machine :=
  { m with
    code := m.code.append q
    pc := m.nextAddress
    input := rest
    output := m.output.write (Utf8.encode prompt) }

/-- The machine whose run answers a line is free if the one that takes it is. -/
lemma Free.answering (free : m.Free) (rest : Bytes) (q : Program) : (m.answering rest q).Free :=
  ⟨free.budget, free.unlimited.output, free.unlimited.diagnostics⟩

/-- What happens in a turn. -/
theorem TakesTurn.exists_run {turn : Turn} {next : Machine} (takes : TakesTurn m turn next) :
    ∃ bytes rest tokens q fuel ran,
      splitLine m.input = (bytes, rest) ∧ bytes ≠ [] ∧ Utf8.decode? bytes = some turn.line ∧
      Source.tokens sessionFile turn.line = .ok tokens ∧
      Resolution.resolve tokens m.nextAddress = .ok q ∧
      (m.answering rest q).run fuel = some (.done ran) ∧ ran.pc = ran.nextAddress ∧
      ran.stack = turn.stack ∧
      ran.output.written.toList = (m.answering rest q).output.written.toList ++ turn.printed ∧
      next = { ran with output := ran.output.write (Utf8.encode (ran.stackText ++ "\n")) } := by
  cases takes with
  | @turn asked taken loaded ran next bytes printed line fuel ask take nonempty text load run
      behind output showStack =>
    obtain ⟨tokens, q, read, resolved, rfl⟩ := exists_of_loadLine load
    obtain rfl := eq_of_write ask
    cases take
    exact ⟨_, _, tokens, q, fuel, ran, rfl, nonempty, text, read, resolved, run, behind, rfl,
      output, eq_of_write showStack⟩

/-- A line that is resolved and runs to its end makes a turn. -/
lemma takesTurn_of_run {line : String} {rest printed : Bytes} {tokens : List SourceToken}
    {q : Program} {fuel : Nat} {ran : Machine} (free : m.Free) (isLine : IsLine line)
    (input : m.input = Utf8.encode line ++ rest)
    (read : Source.tokens sessionFile line = .ok tokens)
    (resolved : Resolution.resolve tokens m.nextAddress = .ok q)
    (run : (m.answering rest q).run fuel = some (.done ran)) (behind : ran.pc = ran.nextAddress)
    (output : ran.output.written.toList = (m.answering rest q).output.written.toList ++ printed) :
    TakesTurn m ⟨line, printed, ran.stack⟩
      { ran with output := ran.output.write (Utf8.encode (ran.stackText ++ "\n")) } := by
  obtain ⟨k, visits, -⟩ := visits_of_run_done (free.answering rest q).budget run
  have unlimited := ((free.answering rest q).of_setup visits.setup_eq).unlimited
  let taken : Machine := { m with
    input := rest
    output := m.output.write (Utf8.encode prompt) }
  have load : taken.loadLine line = .ok (m.answering rest q) := by
    have next : taken.nextAddress = m.nextAddress := rfl
    unfold loadLine loadTokens
    simp only [read, next, resolved]
    rfl
  refine .turn (write_of_unlimited free.unlimited _) ?_ (encode_ne_nil_of_isLine isLine)
    (Utf8.decode?_encode line) load run behind output (write_of_unlimited unlimited _)
  simp only [takeLine, input, splitLine_encode isLine]
  rfl

/-- Behind a turn of a free machine there is a free one. -/
lemma Free.of_turn {turn : Turn} {next : Machine} (free : m.Free)
    (takes : TakesTurn m turn next) : next.Free := by
  obtain ⟨_, rest, _, q, fuel, ran, -, -, -, -, -, run, -, -, -, rfl⟩ := takes.exists_run
  obtain ⟨k, visits, -⟩ := visits_of_run_done (free.answering rest q).budget run
  exact ((free.answering rest q).of_setup visits.setup_eq).of_setup rfl

/-- What is written in a turn is its transcript. -/
lemma TakesTurn.written {turn : Turn} {next : Machine} (takes : TakesTurn m turn next)
    (free : m.Free) :
    next.output.written.toList = m.output.written.toList ++ turn.transcript := by
  obtain ⟨_, rest, _, q, fuel, ran, -, -, -, -, -, run, -, stack, output, rfl⟩ := takes.exists_run
  obtain ⟨k, visits, -⟩ := visits_of_run_done (free.answering rest q).budget run
  have unlimited := ((free.answering rest q).of_setup visits.setup_eq).unlimited
  have prompted : (m.answering rest q).output.written.toList =
      m.output.written.toList ++ Utf8.encode prompt :=
    Sink.written_write_of_unlimited free.unlimited.output _
  simp only [Sink.written_write_of_unlimited unlimited.output, output, prompted, Turn.transcript,
    ← stack, stackText, List.append_assoc]

/-- What is written in a session are the transcripts of its turns, and a last prompt. -/
theorem Session.written {turns : List Turn} (session : Session m turns ended) (free : m.Free) :
    ended.output.written.toList = m.output.written.toList ++ turns.flatMap Turn.transcript
      ++ Utf8.encode prompt ++ Utf8.encode "\n" := by
  induction session with
  | @nil m asked ended ask take close =>
    have unlimited : asked.takeLine.2.Unlimited := by
      rw [eq_of_write ask]
      exact free.unlimited.of_setup rfl
    have same : asked.takeLine.2.output = asked.output := rfl
    rw [written_of_write_done unlimited close, same, written_of_write_done free.unlimited ask,
      List.flatMap_nil, List.append_nil]
  | cons first more ih =>
    rw [ih (free.of_turn first), first.written free, List.flatMap_cons]
    simp only [List.append_assoc]

end Machine

end StackAsm
