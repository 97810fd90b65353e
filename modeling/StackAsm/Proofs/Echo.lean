import StackAsm.Proofs.Locations
import StackAsm.Proofs.Relocation
import StackAsm.Proofs.Source.Printing
import StackAsm.Proofs.Streams

set_option autoImplicit false

/-!
# Bytes pass through a program unchanged

`cread` pushes a byte as one of the words from 0 to 255, and -1 at the end of the input; `cprint`
writes a word as the byte that it is modulo 256. So the byte 255 is not taken for the end of the
input, although -1 would be written as that byte, and a loop that reads and writes until the end of
the input copies any bytes, whether or not they are a text.

**Proof sketch.** In whatever way the source of the loop is laid out, its tokens are the same, and
they resolve to the same instructions (`exists_assemble_echo`). The loop comes back to its head
after each byte, with an empty stack and the byte at the end of the output (`visits_echo_byte`), and
leaves the program at the end of the input (`visits_echo_end`). The rest is induction on the input.

## Main definitions

* `StackAsm.Source.LaidOut` — the texts of printed tokens, in any layout.
* `StackAsm.echo` — the tokens of the loop; `StackAsm.Program.IsEcho` — their program.

## Main results

* `StackAsm.Source.LaidOut.exists_renders` — tokens are read in whatever way they are laid out.
* `StackAsm.Word.byte_ofByte`, `StackAsm.Word.ofByte_ne_end` — bytes as words, and back again.
* `StackAsm.Machine.visits_echo` — what the loop does.
* `StackAsm.assemble_echo_run` — all the way from the source to the output.
-/

namespace StackAsm

/-! ## Layouts -/

namespace Source

/-- The texts in which tokens are laid out: each token is printed behind a separator, which may be
empty if the token in front of it does not go on there, and something may stand behind the last
one. -/
inductive LaidOut : List Token → List Char → Prop where
  /-- Behind the last token. -/
  | nil {s : List Char} (ending : Ending s) : LaidOut [] s
  /-- A token, and the separator in front of it. -/
  | cons {s cs : List Char} {t : Token} {tokens : List Token} (separator : Separator s)
      (closed : Closed t cs) (more : LaidOut tokens cs) :
    LaidOut (t :: tokens) (s ++ t.text.toList ++ cs)

/-- **Tokens are read in whatever way they are laid out.** -/
theorem LaidOut.exists_renders {tokens : List Token} {cs : List Char}
    (laidOut : LaidOut tokens cs) (wellNamed : ∀ t ∈ tokens, t.WellNamed) (file : String)
    (before : List Char) : ∃ ts, Renders file before cs ts ∧ ts.map (·.token) = tokens := by
  induction laidOut generalizing before with
  | nil ending => exact ⟨[], .nil ending, rfl⟩
  | @cons s cs t tokens separator closed more ih =>
    rw [List.forall_mem_cons] at wellNamed
    obtain ⟨ts, renders, same⟩ := ih wellNamed.2 (before ++ s ++ t.text.toList)
    exact ⟨⟨t, locate file (before ++ s)⟩ :: ts,
      .cons separator wellNamed.1.spells closed renders, congrArg (t :: ·) same⟩

end Source

/-- Tokens that are the same but for locations resolve to the same instructions. -/
lemma Resolution.exists_resolve_of_alike {ts us : List SourceToken} {start : Address}
    {q : Program} (same : ts.map SourceToken.token = us.map SourceToken.token)
    (resolved : resolve us start = .ok q) :
    ∃ p, resolve ts start = .ok p ∧ p.start = q.start ∧ p.instructions = q.instructions := by
  have alike := resolve_alike same start
  rw [resolved] at alike
  cases own : resolve ts start with
  | error e =>
    rw [own] at alike
    cases alike
  | ok p =>
    rw [own] at alike
    obtain ⟨start, instructions⟩ := Prod.mk.inj (Except.ok.inj alike)
    exact ⟨p, rfl, start, instructions⟩

/-! ## The program -/

/-- A loop that reads a byte, writes it and begins again, until the end of the input:
`:loop: cread dup -1 @end jeq cprint @loop jmp :end: pop`. -/
def echo : List Token :=
  [.define "loop", .instr (.op .cread), .instr (.op .dup), .instr (.push (-1)), .refer "end",
    .instr (.op .jeq), .instr (.op .cprint), .refer "loop", .instr (.op .jmp), .define "end",
    .instr (.op .pop)]

/-- The instructions of the loop, from the address 0 on. -/
def echoCode : Array Instruction :=
  #[.op .cread, .op .dup, .push (-1), .push 8, .op .jeq, .op .cprint, .push 0, .op .jmp, .op .pop]

/-- A program that is the loop. -/
structure Program.IsEcho (p : Program) : Prop where
  /-- It starts at the address 0. -/
  start : p.start = 0
  /-- It has the instructions of the loop. -/
  instructions : p.instructions = echoCode
  /-- Its tables are equally long, and its addresses are words. -/
  wf : p.WellFormed

/-- **In whatever way the loop is laid out, it is assembled to the same instructions.** -/
theorem exists_assemble_echo {text : String} (laidOut : Source.LaidOut echo text.toList)
    (file : String) : ∃ p, assemble file text = .ok p ∧ p.IsEcho := by
  have wellNamed : ∀ t ∈ echo, t.WellNamed := by simp [echo, Token.WellNamed, Source.IsWord]
  obtain ⟨ts, renders, same⟩ := laidOut.exists_renders wellNamed file []
  let us : List SourceToken := echo.map fun t => ⟨t, default⟩
  have alike : ts.map SourceToken.token = us.map SourceToken.token := by
    rw [List.map_map]
    exact same
  have resolved : Resolution.resolve us 0 = .ok ⟨0, echoCode, Array.replicate 9 default⟩ := by
    rfl
  obtain ⟨p, own, start, instructions⟩ := Resolution.exists_resolve_of_alike alike resolved
  exact ⟨p, assemble_eq_ok_iff.2 ⟨ts, Source.tokensFrom_of_renders renders, own⟩, start,
    instructions, Resolution.wellFormed_of_resolve own⟩

/-! ## Bytes as words -/

namespace Word

/-- A byte that is read is the word of its value. -/
lemma toInt_ofByte (b : UInt8) : (Int64.ofNat b.toNat).toInt = b.toNat := by
  have := b.toNat_lt
  exact Int64.toInt_ofNat_of_lt (by omega)

/-- **No byte is read as the end of the input.** -/
theorem ofByte_ne_end (b : UInt8) : Int64.ofNat b.toNat ≠ -1 := by
  intro same
  have value := congrArg Int64.toInt same
  rw [toInt_ofByte] at value
  have negative : (-1 : Int64).toInt = -1 := rfl
  omega

/-- **A byte that was read is written as it was.** -/
theorem byte_ofByte (b : UInt8) : UInt8.ofNat ((Int64.ofNat b.toNat).toInt % 256).toNat = b := by
  have := b.toNat_lt
  have value : ((b.toNat : Int) % 256).toNat = b.toNat := by omega
  rw [toInt_ofByte, value, UInt8.ofNat_toNat]

end Word

/-! ## Rounds of the loop -/

namespace Machine

variable {p : Program} {m next n : Machine} {i : Instruction} {input rest : Bytes}
  {output : Sink} {v : Word} {j k : Nat}

/-- A machine without a budget in the course of a program. -/
def inCourse (p : Program) (diagnostics : Sink) (pc : Address) (stack : List Word) (input : Bytes)
    (output : Sink) : Machine := ⟨p, pc, stack, none, input, output, diagnostics⟩

section Rounds

variable (isEcho : p.IsEcho)
include isEcho

/-- The instruction at a place of the loop is executed first. -/
lemma visits_echo_cons (code : m.code = p) (place : m.pc.toInt = k)
    (instruction : echoCode[k]? = some i) (executes : ∀ l, m.execute i l = .done next)
    (more : Visits j next n) : Visits (j + 1) m n := by
  rw [← isEcho.instructions] at instruction
  have address : p.AddressOf k m.pc := by
    rw [Program.AddressOf, isEcho.start, place]
    exact (zero_add _).symm
  have inside : k < p.length := (Array.getElem?_eq_some_iff.1 instruction).1
  obtain ⟨l, location⟩ : ∃ l, p.locations[k]? = some l :=
    ⟨_, Array.getElem?_eq_getElem (isEcho.wf.tables ▸ inside)⟩
  obtain ⟨running, step⟩ := step_of_holds code address ⟨instruction, location⟩
  exact .step running (step.trans (executes l)) more

variable (diagnostics : Sink)

/-- From its head, the loop reads a word and comes to the question whether it is the last one. -/
lemma visits_echo_question (reads : (inCourse p diagnostics 0 [] input output).readByte =
      .done (inCourse p diagnostics 1 [v] rest output)) :
    Visits 4 (inCourse p diagnostics 0 [] input output)
      (inCourse p diagnostics 4 [8, -1, v, v] rest output) := by
  refine visits_echo_cons isEcho (k := 0) rfl rfl rfl (fun _ => reads) ?_
  refine visits_echo_cons isEcho (k := 1) rfl rfl rfl (fun _ => rfl) ?_
  refine visits_echo_cons isEcho (k := 2) rfl rfl rfl (fun _ => rfl) ?_
  exact visits_echo_cons isEcho (k := 3) rfl rfl rfl (fun _ => rfl) .start

/-- **A round of the loop** writes the byte that it has read, and comes back to the head. -/
theorem visits_echo_byte (unlimited : output.capacity = none) (b : UInt8) (input : Bytes) :
    Visits 8 (inCourse p diagnostics 0 [] (b :: input) output)
      (inCourse p diagnostics 0 [] input (output.write [b])) := by
  let v : Word := Int64.ofNat b.toNat
  have goes_on : ¬ decide (v = -1) := by simpa using Word.ofByte_ne_end b
  let asked : Machine := inCourse p diagnostics 5 [v] input output
  let written : Machine := inCourse p diagnostics 6 [] input (output.write [b])
  have prints (l : Location) : asked.execute (.op .cprint) l = .done written := by
    have fits : asked.output.fits [b] := Sink.fits_of_unlimited unlimited _
    have printed : asked.execute (.op .cprint) l =
        (asked.write [UInt8.ofNat (v.toInt % 256).toNat]).andThen fun m => m.advance [] := rfl
    rw [printed, Word.byte_ofByte, write, if_pos fits]
    rfl
  -- the answer is no: the byte is written, and the loop begins again
  refine (visits_echo_question isEcho diagnostics (v := v) rfl).trans (j := 4) ?_
  refine visits_echo_cons isEcho (k := 4) rfl rfl rfl (fun _ => if_neg goes_on) ?_
  refine visits_echo_cons isEcho (k := 5) rfl rfl rfl prints ?_
  refine visits_echo_cons isEcho (k := 6) rfl rfl rfl (fun _ => rfl) ?_
  exact visits_echo_cons isEcho (k := 7) rfl rfl rfl (fun _ => rfl) .start

/-- At the end of the input the loop leaves the program. -/
lemma visits_echo_end :
    Visits 6 (inCourse p diagnostics 0 [] [] output) (inCourse p diagnostics 9 [] [] output) := by
  -- the answer is yes: the word is dropped
  refine (visits_echo_question isEcho diagnostics (v := -1) rfl).trans (j := 2) ?_
  refine visits_echo_cons isEcho (k := 4) rfl rfl rfl (fun _ => rfl) ?_
  exact visits_echo_cons isEcho (k := 8) rfl rfl rfl (fun _ => rfl) .start

/-- **The loop copies its input**, whatever bytes it is made of, and leaves the program behind it
with an empty stack. -/
theorem visits_echo (unlimited : output.capacity = none) (input : Bytes) :
    Visits (8 * input.length + 6) (inCourse p diagnostics 0 [] input output)
      (inCourse p diagnostics 9 [] [] (output.write input)) := by
  induction input generalizing output with
  | nil =>
    rw [Sink.write_nil]
    exact visits_echo_end isEcho diagnostics
  | cons b input ih =>
    have round := visits_echo_byte isEcho diagnostics unlimited b input
    have all := round.trans (@ih (output.write [b]) unlimited)
    rw [← Sink.write_append_of_unlimited unlimited, List.singleton_append] at all
    have steps : 8 * (b :: input).length + 6 = 8 + (8 * input.length + 6) := by
      rw [List.length_cons]
      ring
    rw [steps]
    exact all

end Rounds

end Machine

/-- **Byte I/O is transparent.** Take the source of the loop in any layout, with blanks and comments
between its tokens, in front of them and behind them. It is assembled; and its program, loaded into
a fresh machine with any bytes as input, be they a text or not, runs to its end without a budget. It
has then written exactly these bytes to the output and nothing to the diagnostics, the stack is
empty, no input is left, and the program counter is at the end of the program.

**Proof sketch.** The loop takes eight steps for each byte and six at the end of the input. -/
theorem assemble_echo_run {text : String} (laidOut : Source.LaidOut echo text.toList)
    (file : String) :
    ∃ p, assemble file text = .ok p ∧ ∀ (input : Bytes) (diagnostics : Sink), ∃ m n,
      (Machine.fresh none input {} diagnostics).load p = .ok m ∧
      (∀ fuel, 8 * input.length + 6 < fuel → m.run fuel = some (.done n)) ∧
      n.output.written.toList = input ∧ n.diagnostics = diagnostics ∧ n.stack = [] ∧
      n.input = [] ∧ p.endAddress? = some n.pc := by
  obtain ⟨p, assembled, isEcho⟩ := exists_assemble_echo laidOut file
  refine ⟨p, assembled, fun input diagnostics => ?_⟩
  have fits : p.endAddress? ≠ none := Program.endAddress?_ne_none_iff.2 isEcho.wf.fits
  have length : p.length = 9 := by
    rw [Program.length, isEcho.instructions]
    rfl
  have last : p.endAddress? = some 9 := by
    rw [Program.endAddress?, isEcho.start, length]
    rfl
  let m : Machine := Machine.inCourse p diagnostics 0 [] input {}
  let n : Machine := Machine.inCourse p diagnostics 9 [] [] (Sink.write {} input)
  have load : (Machine.fresh none input {} diagnostics).load p = .ok m := by
    rw [Machine.load_fresh_eq fits, isEcho.start]
    rfl
  have visits : Machine.Visits (8 * input.length + 6) m n :=
    Machine.visits_echo isEcho diagnostics rfl input
  have stopped : ¬ n.isRunning := by
    have address : p.AddressOf 9 n.pc := by
      rw [Program.AddressOf, isEcho.start]
      rfl
    rw [Machine.isRunning_iff (p := p) rfl address, length]
    exact Nat.lt_irrefl 9
  refine ⟨m, n, load, fun fuel enough => ?_, ?_, rfl, rfl, rfl, last⟩
  · exact Machine.run_mono (visits.runFrom_eq rfl stopped 0) enough
  · exact (Sink.written_write_of_unlimited rfl input).trans (List.nil_append _)

/-- A layout without a blank where none is needed, with a comment at either end; and an input that
holds the bytes 0 and 255 and is no text. -/
theorem assemble_echo_run_bytes :
    ∃ p m n, assemble "f" "# ÿ\n:loop:cread\r\n\tdup-1@end jeq cprint@loop jmp:end:pop#" = .ok p ∧
      Utf8.decode? [0, 255, 195, 40, 10] = none ∧
      (Machine.fresh none [0, 255, 195, 40, 10] {} {}).load p = .ok m ∧
      m.run 47 = some (.done n) ∧ n.output.written.toList = [0, 255, 195, 40, 10] ∧
      n.stack = [] ∧ n.input = [] ∧ p.endAddress? = some n.pc := by
  let text := "# ÿ\n:loop:cread\r\n\tdup-1@end jeq cprint@loop jmp:end:pop#"
  have laidOut : Source.LaidOut echo text.toList := by
    have comment : Source.Separator ['#', ' ', 'ÿ', '\n'] :=
      @Source.Separator.comment [' ', 'ÿ'] [] (by decide) .nil
    have line : Source.Separator ['\r', '\n', '\t'] :=
      .blank (by decide) (.blank (by decide) (.blank (by decide) .nil))
    have space : Source.Separator [' '] := .blank (by decide) .nil
    have last : Source.Ending ['#'] := @Source.Ending.comment [] [] .nil (by decide)
    have number : (-1 : Word).text = "-1" := by decide
    have laid : Source.LaidOut echo _ :=
      .cons comment ?_ <| .cons .nil ?_ <| .cons line ?_ <| .cons .nil ?_ <| .cons .nil ?_ <|
      .cons space ?_ <| .cons space ?_ <| .cons .nil ?_ <| .cons space ?_ <| .cons .nil ?_ <|
      .cons .nil ?_ <| .nil last
    · exact cast (congrArg _ (by decide)) laid
    -- no token goes on into what stands behind it
    all_goals
      simp [Source.Closed, Token.text, Instruction.text, Opcode.mnemonic, number]
  obtain ⟨p, assembled, runs⟩ := assemble_echo_run laidOut "f"
  obtain ⟨m, n, load, run, output, -, stack, input, last⟩ := runs [0, 255, 195, 40, 10] {}
  exact ⟨p, m, n, assembled, by decide, load, run 47 (by decide), output, stack, input, last⟩

end StackAsm
