import StackAsm.Assembly
import StackAsm.Proofs.Resolution
import StackAsm.Proofs.Run
import StackAsm.Proofs.Source.Grammar

set_option autoImplicit false

/-!
# Errors point at the source text

The error of an instruction quotes a location. This location comes from the token that became the
instruction, and there the text has the word of the instruction: the reader counts lines and columns
as anyone would, resolution drops the definitions of labels from both tables at once, and the
machine looks both tables up at the same place, wherever jumps have led to.

## Main definitions

* `StackAsm.Source.Apart` — no word goes on from one text into the next.
* `StackAsm.Source.WordAt` — a word stands alone at a location of a text.
* `StackAsm.RuntimeError.Blames` — the opcodes that can have raised an error.

## Main results

* `StackAsm.Source.Renders.exists_text` — the text of each token stands at its location.
* `StackAsm.Resolution.mem_of_resolve` — each opcode of a program is a token of its source.
* `StackAsm.Machine.step_of_run_failed` — the error of a run is that of a step.
* `StackAsm.assemble_run_failed_points_at` — the error of a run points at the word that is at fault.
-/

namespace StackAsm

/-! ## Words of a text -/

namespace Source

/-- No word goes on from the end of one text into the next. -/
def Apart (before cs : List Char) : Prop :=
  ∀ c ∈ before.getLast?, c.isAlpha → ∀ d ∈ cs.head?, ¬ d.isAlpha

/-- At a location of a text stands a word, and no letter stands directly in front of it or directly
behind it. -/
def WordAt (text : List Char) (l : Location) (word : List Char) : Prop :=
  ∃ before after, text = before ++ word ++ after ∧ l = locate l.file before ∧
    (∀ c ∈ before.getLast?, ¬ c.isAlpha) ∧ ∀ c ∈ after.head?, ¬ c.isAlpha

/-- A separator does not end with a letter. -/
lemma Separator.not_isAlpha_of_getLast? {s : List Char} (separator : Separator s) :
    ∀ c ∈ s.getLast?, ¬ c.isAlpha := by
  induction separator with
  | nil => simp
  | @blank c s blank more ih =>
    cases s with
    | nil =>
      rintro _ ⟨⟩
      fin_cases blank <;> simp
    | cons d s => rwa [List.getLast?_cons_cons]
  | @comment text s line more ih =>
    rw [List.getLast?_append_of_ne_nil _ (List.cons_ne_nil '\n' s)]
    cases s with
    | nil => simp
    | cons d s => rwa [List.getLast?_cons_cons]

/-- A token is apart from a text in front of which it ends. -/
lemma Spells.apart {x cs : List Char} {t : Token} (spells : Spells x t) (closed : Closed t cs) :
    Apart x cs := by
  have digits {ds : List Char} (numeral : IsNumeral ds) : ∀ c ∈ ds.getLast?, ¬ c.isAlpha :=
    fun c last letter =>
      not_isDigit_of_isAlpha letter (numeral.2 c (List.mem_of_getLast? last))
  intro c last letter
  cases spells with
  | define word =>
    rw [List.getLast?_append_of_ne_nil _ (List.cons_ne_nil ':' [])] at last
    obtain rfl : ':' = c := by simpa using last
    simp at letter
  | refer word => exact closed
  | unsigned numeral value => exact absurd letter (digits numeral c last)
  | negative numeral value =>
    rw [List.getLast?_cons_of_ne_nil numeral.1] at last
    exact absurd letter (digits numeral c last)
  | op o => exact closed

/-- Whether a word goes on behind a text is told by the end of the text. -/
lemma Apart.append_left {s x cs : List Char} (apart : Apart x cs) (nonempty : x ≠ []) :
    Apart (s ++ x) cs := by
  rwa [Apart, List.getLast?_append_of_ne_nil s nonempty]

/-- **The text of each token stands at its location**, apart from what is in front of it. -/
theorem Renders.exists_text {file : String} {before cs : List Char} {tokens : List SourceToken}
    (renders : Renders file before cs tokens) (apart : Apart before cs) {t : SourceToken}
    (mem : t ∈ tokens) :
    ∃ b x a, before ++ cs = b ++ x ++ a ∧ t.location = locate file b ∧ Spells x t.token ∧
      Closed t.token a ∧ Apart b (x ++ a) := by
  induction renders with
  | nil ending => cases mem
  | @cons before s x cs token tokens separator spells closed more ih =>
    rcases List.mem_cons.1 mem with rfl | mem
    · refine ⟨before ++ s, x, cs, by simp, rfl, spells, closed, ?_⟩
      cases s with
      | nil => simpa using apart
      | cons c s =>
        rw [Apart, List.getLast?_append_of_ne_nil before (List.cons_ne_nil c s)]
        exact fun d last letter => absurd letter (separator.not_isAlpha_of_getLast? d last)
    · obtain ⟨c, x, rfl, -⟩ := spells.starts
      obtain ⟨b, y, a, same, found⟩ :=
        ih ((spells.apart closed).append_left (List.cons_ne_nil c x)) mem
      exact ⟨b, y, a, by rw [← same]; simp, found⟩

/-- The mnemonic of an opcode among the tokens of a text stands alone at its location. -/
lemma wordAt_of_tokens {file text : String} {tokens : List SourceToken}
    (read : Source.tokens file text = .ok tokens) {o : Opcode} {l : Location}
    (mem : ⟨.instr (.op o), l⟩ ∈ tokens) :
    l.file = file ∧ WordAt text.toList l o.mnemonic.toList := by
  have renders : Renders file [] text.toList tokens := renders_of_tokensFrom read
  obtain ⟨b, x, a, same, place, spells, closed, apart⟩ := renders.exists_text (by simp [Apart]) mem
  cases spells
  obtain rfl : l = locate file b := place
  refine ⟨rfl, b, a, same, rfl, fun c last letter => ?_, closed⟩
  have word := isWord_mnemonic o
  obtain ⟨d, more, mnemonic⟩ := List.exists_cons_of_ne_nil word.1
  rw [mnemonic] at apart word
  exact apart c last letter d rfl (word.2 d (List.mem_cons_self ..))

end Source

/-! ## From the source to the program -/

/-- An entry of the second walk comes from a token that translates to it, and has its location. -/
lemma Resolution.exists_token_of_code {labels : List Label} {tokens : List SourceToken}
    {entries : List (Instruction × Location)} (second : code labels tokens = .ok entries)
    {e : Instruction × Location} (mem : e ∈ entries) :
    ∃ t ∈ tokens, Translates labels t.token e.1 ∧ e.2 = t.location := by
  have related := forall₂_of_code second
  obtain ⟨k, bound, rfl⟩ := List.getElem_of_mem mem
  have bound' := related.length_eq ▸ bound
  exact ⟨(occupying tokens)[k], List.mem_of_mem_filter (List.getElem_mem bound'),
    related.get bound' bound⟩

/-- An opcode of a program that tokens resolve to is one of these tokens, at its location. -/
theorem Resolution.mem_of_resolve {tokens : List SourceToken} {start : Address} {p : Program}
    (resolved : resolve tokens start = .ok p) {a : Address} {o : Opcode} {l : Location}
    (instruction : p.instructionAt? a = some (.op o)) (location : p.locationAt? a = some l) :
    ⟨.instr (.op o), l⟩ ∈ tokens := by
  obtain ⟨table, entries, -, second, rfl⟩ := resolve_eq_ok_iff.1 resolved
  obtain ⟨k, place, instruction⟩ := Option.bind_eq_some_iff.1 instruction
  rw [Program.locationAt?_of_indexOf? place] at location
  simp only [Program.ofList, List.getElem?_toArray, List.getElem?_map] at instruction location
  obtain ⟨entry, found, rfl⟩ := Option.map_eq_some_iff.1 location
  rw [found] at instruction
  obtain ⟨t, mem, translates, same⟩ := exists_token_of_code second (List.mem_of_getElem? found)
  obtain rfl : t = ⟨.instr (.op o), entry.2⟩ := by
    rcases t with ⟨name | name | i, place⟩
    · cases translates
    · obtain ⟨label, -, push⟩ := translates
      cases push.symm.trans (Option.some.inj instruction)
    · rw [← Option.some.inj instruction, translates, same]
  exact mem

/-- A text is assembled exactly if it is read and its tokens resolve. -/
lemma assemble_eq_ok_iff {file text : String} {p : Program} :
    assemble file text = .ok p ↔
      ∃ tokens, Source.tokens file text = .ok tokens ∧ Resolution.resolve tokens 0 = .ok p := by
  unfold assemble
  cases Source.tokens file text with
  | error e => simp [Except.mapError, bind, Except.bind]
  | ok tokens =>
    cases resolved : Resolution.resolve tokens 0 <;>
      simp [Except.mapError, bind, Except.bind, resolved]

/-! ## From the program to the error -/

/-- The opcodes that can have raised an error. -/
def RuntimeError.Blames : RuntimeError → Opcode → Prop
  | stackUnderflow i _, o => i = .op o
  | divisionByZero _, o => o = .div
  | invalidIndex _ _ _, o => o = .get ∨ o = .set
  | invalidInput _ _, o => o = .read
  | endOfProgram _, _ | addressMismatch _ _, _ | addressOverflow _ _, _ | stepLimitExceeded _, _
  | stream _, _ => False

namespace Machine

variable {m m' : Machine} {i : Instruction} {l place : Location} {e : RuntimeError}

/-- An error that quotes a location quotes that of the instruction, which is an opcode that the
error blames. -/
lemma Fails.blames (fails : Fails m l i e m') (placed : e.location? = some place) :
    place = l ∧ ∃ o, i = .op o ∧ e.Blames o := by
  cases fails with
  | @operands i short =>
    cases placed
    cases i with
    | push n => exact absurd short (Nat.not_lt_zero _)
    | op o => exact ⟨rfl, o, rfl, rfl⟩
  | divisor zero => exact ⟨(Option.some.inj placed).symm, .div, rfl, rfl⟩
  | getIndex top outside => exact ⟨(Option.some.inj placed).symm, .get, rfl, .inl rfl⟩
  | setIndex top outside => exact ⟨(Option.some.inj placed).symm, .set, rfl, .inr rfl⟩
  | input wrong => exact ⟨(Option.some.inj placed).symm, .read, rfl, rfl⟩
  | output | diagnostics => cases placed

/-- The error of a run that quotes a location is that of a step, with whatever budget. -/
theorem step_of_run_failed {fuel : Nat} (run : m.run fuel = some (.failed e m'))
    (placed : e.location? = some l) : ∃ n : Machine, n.code = m.code ∧ n.step = .failed e m' := by
  cases runEnds_of_runFrom run (affords_zero _) with
  | failed visits _ _ step => exact ⟨_, visits.code_eq, step⟩
  | spent => cases placed

/-- The machine that is left is still at the instruction that the error of its run is about. -/
lemma blames_of_run_failed {fuel : Nat} (run : m.run fuel = some (.failed e m'))
    (placed : e.location? = some l) :
    m'.code = m.code ∧ m'.location? = some l ∧
      ∃ o, m'.instruction? = some (.op o) ∧ e.Blames o := by
  obtain ⟨n, code, step⟩ := step_of_run_failed run placed
  rcases fails_of_step step with ⟨i, l', instruction, location, fails⟩ | ⟨-, rfl, -⟩
  · obtain ⟨-, pc, same, -⟩ := fails.kept
    obtain ⟨rfl, o, rfl, blames⟩ := fails.blames placed
    refine ⟨same.trans code, ?_, o, ?_, blames⟩
    · rw [location?, pc, same]
      exact location
    · rw [instruction?, pc, same]
      exact instruction
  · cases placed

end Machine

/-- **Errors point at the source text.** A fresh machine loads every program that a text is
assembled to. If its run then fails with an error that quotes a location, be it an underflow, a
division by zero, an index out of range or a wrong input, the location is in the file of the text
and is that of the instruction at which the machine is left; this instruction is an opcode that the
error blames; and at that line and column of the text the mnemonic of the opcode stands alone. -/
theorem assemble_run_failed_points_at {file text : String} {p : Program}
    (assembled : assemble file text = .ok p) (budget : Option Nat) (input : Bytes)
    (output diagnostics : Sink) :
    ∃ m, (Machine.fresh budget input output diagnostics).load p = .ok m ∧
      ∀ fuel e m' l, m.run fuel = some (.failed e m') → e.location? = some l →
        l.file = file ∧ m'.location? = some l ∧
          ∃ o, m'.instruction? = some (.op o) ∧ e.Blames o ∧
            Source.WordAt text.toList l o.mnemonic.toList := by
  obtain ⟨tokens, read, resolved⟩ := assemble_eq_ok_iff.1 assembled
  have fits := (Resolution.wellFormed_of_resolve resolved).fits
  refine ⟨_, Machine.load_fresh_eq (Program.endAddress?_ne_none_iff.2 fits) budget input output
    diagnostics, fun fuel e m' l run placed => ?_⟩
  obtain ⟨code, location, o, instruction, blames⟩ := Machine.blames_of_run_failed run placed
  have mem : ⟨.instr (.op o), l⟩ ∈ tokens := by
    rw [Machine.instruction?, code] at instruction
    rw [Machine.location?, code] at location
    exact Resolution.mem_of_resolve resolved instruction location
  obtain ⟨same, word⟩ := Source.wordAt_of_tokens read mem
  exact ⟨same, location, o, instruction, blames, word⟩

/-- A jump over the end of a line and over a definition leads to a `div` that lacks its operands. -/
theorem assemble_run_failed_points_at_div :
    ∃ p m m', assemble "f" "@end jmp # ü\n:end:\tdiv" = .ok p ∧
      (Machine.fresh none [] {} {}).load p = .ok m ∧
      m.run 3 = some (.failed (.stackUnderflow (.op .div) ⟨"f", 2, 7⟩) m') ∧
      m'.location? = some ⟨"f", 2, 7⟩ ∧
      Source.WordAt "@end jmp # ü\n:end:\tdiv".toList ⟨"f", 2, 7⟩ "div".toList := by
  let p : Program := ⟨0, #[.push 2, .op .jmp, .op .div], #[⟨"f", 1, 1⟩, ⟨"f", 1, 6⟩, ⟨"f", 2, 7⟩]⟩
  have assembled : assemble "f" "@end jmp # ü\n:end:\tdiv" = .ok p := by cbv
  obtain ⟨m, loaded, points⟩ := assemble_run_failed_points_at assembled none [] {} {}
  obtain rfl : ⟨p, 0, [], none, [], {}, {}⟩ = m := Except.ok.inj loaded
  have run : Machine.run 3 ⟨p, 0, [], none, [], {}, {}⟩ =
      some (.failed (.stackUnderflow (.op .div) ⟨"f", 2, 7⟩) ⟨p, 2, [], none, [], {}, {}⟩) := by cbv
  obtain ⟨-, location, o, -, blames, word⟩ := points 3 _ _ _ run rfl
  cases blames
  exact ⟨p, _, _, assembled, loaded, run, location, word⟩

end StackAsm
