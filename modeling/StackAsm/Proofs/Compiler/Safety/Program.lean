import StackAsm.Proofs.Compiler.Main
import StackAsm.Proofs.Compiler.Safety.Instruction

set_option autoImplicit false

/-!
# Compiled programs are safe

A compiled program never does what has no meaning in C. The states between two statements of its
main function are those at some address, and a turn of its loop leads from one of them to another
one, or to the end of the program.

## Main definitions

* `StackAsm.C.Stmt.distinctLabels` — the labels of each `switch` differ from each other.
* `StackAsm.Compiler.TurnEnds` — how a turn of the loop ends.

## Main results

* `StackAsm.Compiler.distinctLabels_toC` — no two cases of a `switch` have one label.
* `StackAsm.Compiler.ensures_turn` — a turn of the loop.
* `StackAsm.Program.toC_defined` — all that a compiled program does is allowed.
-/

namespace StackAsm

/-! ## Labels -/

namespace C

/-- The labels of each `switch` in a statement differ from each other. -/
def Stmt.distinctLabels : Stmt → Bool
  | seq _ s t => s.distinctLabels && t.distinctLabels
  | block _ s | ifThen _ s | .while _ s | .for _ _ _ s | forever s => s.distinctLabels
  | switch _ s => decide s.labels.Nodup && s.distinctLabels
  | gap | expr _ | declare _ _ | caseLabel _ _ | defaultLabel | leave | again | .return _ => true

/-- The function that an item defines. -/
def Item.function? : Item → Option Function
  | .local f | exported f => some f
  | gap | comment _ | define _ _ | .include _ | .variable _ _ _ | array _ _ _ => none

/-- The functions that are defined in a source file. -/
def Source.functions (source : Source) : List Function := source.filterMap Item.function?

end C

/-- The entries of a program have different addresses. -/
lemma Program.WellFormed.nodup_addresses {p : Program} (wf : p.WellFormed) :
    (p.entries.map Entry.address).Nodup := by
  rw [List.nodup_iff_injective_get]
  intro i j same
  have first := wf.address_getElem (k := i) (by simpa using i.isLt)
  have second := wf.address_getElem (k := j) (by simpa using j.isLt)
  have same : p.entries[i.val].address = p.entries[j.val].address := by simpa using same
  rw [same] at first
  exact Fin.ext (by omega)

/-- No address of an instruction is the last one that there can be. -/
lemma Program.WellFormed.toInt_add_one {p : Program} (wf : p.WellFormed) {e : Entry}
    (mem : e ∈ p.entries) : (e.address + 1).toInt = e.address.toInt + 1 := by
  obtain ⟨k, inside, rfl⟩ := List.mem_iff_getElem.1 mem
  have address := wf.address_getElem inside
  have fits := wf.fits
  rw [wf.length_entries] at inside
  exact Word.toInt_add_one (by omega)

namespace Compiler

open C

/-- The statements of an instruction hold no `switch` with equal labels. -/
lemma distinctLabels_instructionBody (i : Instruction) :
    (instructionBody i).distinctLabels := by
  cases i with
  | push n => rfl
  | op op => cases op <;> rfl

/-- The cases of a program hold no `switch` with equal labels. -/
lemma distinctLabels_cases (entries : List Program.Entry) :
    (cases entries).distinctLabels := by
  induction entries with
  | nil => rfl
  | cons e entries ih =>
    have body := distinctLabels_instructionBody e.instruction
    show ((Stmt.caseLabel e.address (caseComment e)).distinctLabels &&
      (instructionBody e.instruction).distinctLabels && (cases entries).distinctLabels) = true
    rw [body, ih]
    rfl

/-- The labels of the cases of a well-formed program differ from each other. -/
lemma nodup_labels_cases {p : Program} (wf : p.WellFormed) : (cases p.entries).labels.Nodup := by
  have values : (p.entries.map fun e => C.Label.value e.address.toInt).Nodup := by
    have injective : Function.Injective fun a : Address => C.Label.value a.toInt := by
      intro a b same
      exact Int64.toInt_inj.1 (C.Label.value.inj same)
    have mapped := wf.nodup_addresses.map injective
    rwa [List.map_map] at mapped
  rw [labels_cases]
  refine values.append (List.nodup_singleton _) ?_
  simp [List.Disjoint]

/-- In a compiled program, no two cases of a `switch` have one label. -/
theorem distinctLabels_toC {p : Program} (wf : p.WellFormed) (size : Nat) :
    ∀ f ∈ (p.toC size).functions, f.body.distinctLabels := by
  have switch : (Stmt.switch (.name "pc") (.block .lines (cases p.entries))).distinctLabels := by
    show (decide (cases p.entries).labels.Nodup && (cases p.entries).distinctLabels) = true
    rw [distinctLabels_cases, decide_eq_true (nodup_labels_cases wf)]
    rfl
  have last : (main p).body.distinctLabels := by
    show ((Stmt.switch (.name "pc") (.block .lines (cases p.entries))).distinctLabels && true) =
      true
    rw [switch]
    rfl
  have first : ∀ f ∈ library.functions, f.body.distinctLabels := by decide
  have all : (p.toC size).functions = library.functions ++ [main p] := rfl
  intro f mem
  rw [all, List.mem_append, List.mem_singleton] at mem
  rcases mem with mem | rfl
  · exact first f mem
  · exact last

/-! ## Turns -/

/-- A turn of the loop ends between two statements, at some address, and the program returns zero
if it does not take another turn. -/
def TurnEnds (size : Nat) (flow : Flow) (s : State) : Prop :=
  (flow = .next ∨ flow = .again ∨ flow = .return (.int .int 0)) ∧ ∃ pc, AtAddress size pc s

section Turn

variable {size fuel : Nat} {pc : Address} {s : State} {p : Program}

/-- A block in which no variable of the main function is dropped. -/
lemma ensures_block_of_atAddress {layout : Layout} {body : Stmt} {start : Option C.Label}
    {post : Flow → State → Prop} (here : AtAddress size pc s)
    (ensures : (body.watch (watchedLibrary size fuel) fuel start).Ensures (Allowed size) s
      fun flow after => post flow after ∧ ∃ target, AtAddress size target after) :
    ((Stmt.block layout body).watch (watchedLibrary size fuel) fuel start).Ensures (Allowed size) s
      post := by
  obtain ⟨stack, free, a, b, t, -, input, output, diagnostics, rfl⟩ := here
  rw [Stmt.ensures_block]
  refine ensures.mono ?_
  rintro flow _ ⟨holds, target, stack, free, a, b, t, fits, input, output, diagnostics, rfl⟩
  simp [fits, Result.state?, holds]

/-- The case of an entry does what is allowed. -/
lemma ensures_entryCase (bound : size < 2 ^ 63) (e : Program.Entry)
    (here : AtAddress size e.address s) :
    ((entryCase e).watch (watchedLibrary size fuel) fuel (some (.value e.address.toInt))).Ensures
      (Allowed size) s (Left size e.address) := by
  have inside : (Stmt.caseLabel e.address (caseComment e)).hasLabel (.value e.address.toInt) :=
    decide_eq_true (List.mem_singleton_self _)
  rw [entryCase, Stmt.ensures_seq_of_hasLabel inside, Stmt.ensures_caseLabel]
  exact ensures_instructionBody bound e.instruction here

/-- At an address of an instruction its statements are executed, and nothing behind them.

**Proof sketch.** Induction on the entries. The cases in front of the label are passed over, and
those behind it are not reached, since the statements of an instruction do not end by going on. -/
lemma ensures_cases_of_mem {entries : List Program.Entry} (bound : size < 2 ^ 63)
    (mem : pc ∈ entries.map Program.Entry.address) (here : AtAddress size pc s) :
    ((cases entries).watch (watchedLibrary size fuel) fuel (some (.value pc.toInt))).Ensures
      (Allowed size) s (Left size pc) := by
  induction entries with
  | nil => exact absurd mem List.not_mem_nil
  | cons e entries ih =>
    show ((Stmt.seq .lines (entryCase e) (cases entries)).watch (watchedLibrary size fuel) fuel
      (some (.value pc.toInt))).Ensures (Allowed size) s (Left size pc)
    by_cases first : e.address = pc
    · subst first
      rw [Stmt.ensures_seq_of_hasLabel (by simp [hasLabel_entryCase])]
      refine (ensures_entryCase bound e here).mono ?_
      rintro _ s (⟨rfl, here⟩ | ⟨rfl, there⟩)
      · exact .inl ⟨rfl, here⟩
      · exact .inr ⟨rfl, there⟩
    · rw [Stmt.ensures_seq_of_not_hasLabel (by simp [hasLabel_entryCase, first])]
      exact ih ((List.mem_cons.1 mem).resolve_left (Ne.symm first))

/-- At all other addresses the program returns. -/
lemma ensures_cases_default (entries : List Program.Entry) (here : AtAddress size pc s) :
    ((cases entries).watch (watchedLibrary size fuel) fuel (some .default)).Ensures
      (Allowed size) s fun flow after =>
        flow = .return (.int .int 0) ∧ AtAddress size pc after := by
  induction entries with
  | nil =>
    obtain ⟨stack, free, a, b, t, fits, input, output, diagnostics, rfl⟩ := here
    have call := watchedCall_library size fuel (x := "fflush") (by decide)
    have hidden : namedVariable? (mainVars pc a b t) "stdout" = none := rfl
    have constant : (watchedLibrary size fuel).erase.constants.lookup "stdout" = none := by
      rw [watchedLibrary, lookup_constants_watched]
      rfl
    have inside : Stmt.defaultLabel.hasLabel .default := rfl
    show ((Stmt.seq .lines .defaultLabel (.seq .lines (.expr (.call "fflush" [.name "stdout"]))
      (.return (.num 0)))).watch _ _ _).Ensures _ _ _
    rw [Stmt.ensures_seq_of_hasLabel inside, Stmt.ensures_defaultLabel]
    simp [call, hidden, constant, fits, Result.state?, atAddress_memory]
  | cons e entries ih =>
    show ((Stmt.seq .lines (entryCase e) (cases entries)).watch (watchedLibrary size fuel) fuel
      (some .default)).Ensures _ _ _
    rw [Stmt.ensures_seq_of_not_hasLabel (by simp [Stmt.hasLabel, labels_entryCase])]
    exact ih

/-- The statement behind the `switch` does what is allowed, and moves the program counter on. -/
lemma ensures_next (here : AtAddress size pc s) (next : (pc + 1).toInt = pc.toInt + 1) :
    ((Stmt.expr (.postIncr "pc")).watch (watchedLibrary size fuel) fuel none).Ensures (Allowed size)
      s fun flow after => flow = .next ∧ AtAddress size (pc + 1) after := by
  obtain ⟨stack, free, a, b, t, fits, input, output, diagnostics, rfl⟩ := here
  have new : Word.InRange (pc.toInt + 1) := next ▸ Word.inRange_toInt (pc + 1)
  have write : writeName "pc" (.int .int64 (pc.toInt + 1))
      (memory stack free (mainVars pc a b t) input output diagnostics) =
      .ok (.int .int64 (pc.toInt + 1))
        (memory stack free (mainVars (pc + 1) a b t) input output diagnostics) := by
    rw [← next]
    simp [-Int64.toInt_add]
  rw [Stmt.ensures_expr, Expr.ensures_postIncr, ensures_count (Word.inRange_toInt pc) (by decide)
    new (by simp) write]
  exact ⟨inBounds_memory.2 fits, inBounds_memory.2 fits, rfl, atAddress_memory fits⟩

/-- The `switch` is left at the address of an instruction, or it ends the turn. -/
lemma ensures_switch (bound : size < 2 ^ 63) (here : AtAddress size pc s) :
    ((Stmt.switch (.name "pc") (.block .lines (cases p.entries))).watch (watchedLibrary size fuel)
      fuel none).Ensures (Allowed size) s fun flow after =>
        (flow = .next ∧ pc ∈ p.entries.map Program.Entry.address ∧ AtAddress size pc after) ∨
          (flow ≠ .next ∧ TurnEnds size flow after) := by
  have known : (Stmt.block .lines (cases p.entries)).hasLabel (.value pc.toInt) =
      decide (pc ∈ p.entries.map Program.Entry.address) := by
    simp [Stmt.hasLabel, Stmt.labels, labels_cases, Int64.toInt_inj]
  have value : ((Expr.name "pc").watch (watchedLibrary size fuel)).Ensures (Allowed size) s
      fun v after => v = .int .int64 pc.toInt ∧ after = s := by
    obtain ⟨stack, free, a, b, t, fits, input, output, diagnostics, rfl⟩ := here
    simp
  by_cases mem : pc ∈ p.entries.map Program.Entry.address
  · rw [decide_eq_true mem] at known
    have chosen : C.Label.value pc.toInt =
        if (Stmt.block .lines (cases p.entries)).hasLabel (.value pc.toInt) then .value pc.toInt
        else .default := by rw [known, if_pos rfl]
    refine Stmt.ensures_switch value chosen known (ensures_block_of_atAddress here ?_)
    refine (ensures_cases_of_mem bound mem here).mono ?_
    rintro _ s (⟨rfl, here⟩ | ⟨rfl, there⟩)
    · exact ⟨.inl ⟨rfl, mem, here⟩, pc, here⟩
    · exact ⟨.inr ⟨by decide, .inr (.inl rfl), there⟩, there⟩
  · rw [decide_eq_false mem] at known
    have inside : (Stmt.block .lines (cases p.entries)).hasLabel .default := by
      simp [Stmt.hasLabel, Stmt.labels, labels_cases]
    have chosen : C.Label.default =
        if (Stmt.block .lines (cases p.entries)).hasLabel (.value pc.toInt) then .value pc.toInt
        else .default := by rw [known, if_neg Bool.false_ne_true]
    refine Stmt.ensures_switch value chosen inside (ensures_block_of_atAddress here ?_)
    refine (ensures_cases_default p.entries here).mono ?_
    rintro _ s ⟨rfl, here⟩
    exact ⟨.inr ⟨by decide, .inr (.inr rfl), pc, here⟩, pc, here⟩

/-- **A turn of the loop does what is allowed**, at any address. -/
theorem ensures_turn (wf : p.WellFormed) (bound : size < 2 ^ 63) (here : AtAddress size pc s) :
    ((turn p).watch (watchedLibrary size fuel) fuel none).Ensures (Allowed size) s
      (TurnEnds size) := by
  refine ensures_block_of_atAddress here ?_
  show ((Stmt.seq .lines (.switch (.name "pc") (.block .lines (cases p.entries)))
    (.expr (.postIncr "pc"))).watch (watchedLibrary size fuel) fuel none).Ensures _ _ _
  rw [Stmt.ensures_seq]
  refine (ensures_switch bound here).mono ?_
  rintro flow s (⟨rfl, mem, here⟩ | ⟨other, ends⟩)
  · obtain ⟨e, inside, rfl⟩ := List.mem_map.1 mem
    refine (ensures_next here (wf.toInt_add_one inside)).mono ?_
    rintro _ s ⟨rfl, there⟩
    exact ⟨⟨.inl rfl, _, there⟩, _, there⟩
  · cases flow with
    | next => exact absurd rfl other
    | _ => exact ⟨ends, ends.2⟩

end Turn

/-! ## The main function -/

section Main

variable {size fuel : Nat} {s : State} {p : Program}

variable (fuel) in
/-- The loop ends with a return of zero, if it ends. -/
lemma ensures_loop (wf : p.WellFormed) (bound : size < 2 ^ 63) {pc : Address}
    (here : AtAddress size pc s) :
    ((Stmt.forever (turn p)).watch (watchedLibrary size fuel) fuel none).Ensures (Allowed size) s
      fun flow after => flow = .return (.int .int 0) ∧ ∃ pc, AtAddress size pc after := by
  rw [Stmt.ensures_forever]
  refine Watched.ensures_iterate (fun s => ∃ pc, AtAddress size pc s) ?_ fuel ⟨pc, here⟩
  rintro s ⟨pc, here⟩
  rw [Watched.ensures_pure, if_pos rfl]
  refine (ensures_turn wf bound here).mono ?_
  rintro _ s ⟨rfl | rfl | rfl, there⟩
  · exact Watched.ensures_pure.2 there
  · exact Watched.ensures_pure.2 there
  · exact ⟨rfl, there⟩

/-- The main function declares its variables and takes turns of its loop. -/
lemma ensures_main (wf : p.WellFormed) (bound : size < 2 ^ 63) {free : List Word} {input : Bytes}
    (fits : Fits size [] free) :
    ((main p).watch (watchedLibrary size fuel) fuel []).Ensures (Allowed size)
      (memory [] free [] input [] []) fun _ _ => True := by
  have given : parameters? (main p).params [] = some [] := rfl
  have zero : CType.int64.convert 0 = 0 := rfl
  have body : ((main p).body.watch (watchedLibrary size fuel) fuel none).Ensures (Allowed size)
      (memory [] free [] input [] []) fun flow after =>
        flow = .return (.int .int 0) ∧ ∃ pc, AtAddress size pc after := by
    show ((Stmt.ofList .lines
      [.declare .int64 [("pc", some (.word p.start))],
        .declare .int64 [("a", some (.num 0)), ("b", some (.num 0)), ("t", some (.num 0))],
        .ofList .line (["a", "b", "t"].map fun x => .expr (.cast .void (.name x))),
        .gap, .forever (turn p)]).watch (watchedLibrary size fuel) fuel none).Ensures _ _ _
    have start : AtAddress size p.start
        (memory [] free (mainVars p.start 0 0 0) input [] []) := atAddress_memory fits
    have loop := ensures_loop fuel wf bound start
    simpa [zero, fits, Result.state?, mainVars, -Stmt.ensures_forever] using loop
  rw [Function.watch]
  simp only [given, Watched.ensures_bind, Watched.ensures_quiet, Eval.ofOption_some,
    Result.meets_ok, Eval.get_apply, Watched.ensures_lift, modify_locals]
  refine ⟨?_, body.mono ?_⟩
  · simp [Result.state?, fits]
  · rintro _ _ ⟨rfl, pc, stack, free, a, b, t, fits, input, output, diagnostics, rfl⟩
    simp [Result.state?, fits, main]

end Main

/-! ## The source file -/

section Source

variable {allowed : Event → Prop} {fuel size : Nat} {visible : WatchedScope} {s : State}
  {post : WatchedScope → State → Prop}

/-- No items ensure what holds already. -/
lemma ensures_watchItems_nil :
    (Source.watchItems fuel visible []).Ensures allowed s post ↔ post visible s := by
  rw [Source.watchItems, Watched.ensures_pure]

/-- Items ensure what the first one does for the others. -/
lemma ensures_watchItems_cons {item : Item} {items : Source} :
    (Source.watchItems fuel visible (item :: items)).Ensures allowed s post ↔
      (item.watch fuel visible).Ensures allowed s fun visible s =>
        (Source.watchItems fuel visible items).Ensures allowed s post := by
  rw [Source.watchItems, Watched.ensures_bind]

/-- A local function is in scope behind its definition. -/
lemma ensures_watch_local {f : Function} :
    ((Item.local f).watch fuel visible).Ensures allowed s post ↔
      post (visible.define f fuel) s := by
  rw [Item.watch, Watched.ensures_pure]

/-- An exported function is in scope behind its definition. -/
lemma ensures_watch_exported {f : Function} :
    ((Item.exported f).watch fuel visible).Ensures allowed s post ↔
      post (visible.define f fuel) s := by
  rw [Item.watch, Watched.ensures_pure]

/-- What is no function is noted as it is without notes. -/
lemma ensures_watch_declaration {item : Item} (other : item.function? = none) :
    (item.watch fuel visible).Ensures allowed s post ↔
      (item.declare fuel visible.erase s).Meets fun declared s =>
        post { visible with constants := declared.constants } s := by
  cases item with
  | «local» f | exported f => cases other
  | _ =>
    rw [Item.watch, Watched.ensures_bind, Watched.ensures_quiet]
    · simp only [Watched.ensures_pure]
    all_goals simp

/-- A comment ensures what holds already. -/
lemma ensures_watch_comment {text : String} :
    ((Item.comment text).watch fuel visible).Ensures allowed s post ↔ post visible s :=
  ensures_watch_declaration rfl

/-- An empty line ensures what holds already. -/
lemma ensures_watch_gap :
    (Item.gap.watch fuel visible).Ensures allowed s post ↔ post visible s :=
  ensures_watch_declaration rfl

/-- A header ensures what holds already. -/
lemma ensures_watch_include {header : String} :
    ((Item.include header).watch fuel visible).Ensures allowed s post ↔ post visible s :=
  ensures_watch_declaration rfl

/-- A constant is in scope behind its definition. -/
lemma ensures_watch_define {x : String} {n : Nat} :
    ((Item.define x n).watch fuel visible).Ensures allowed s post ↔
      post { visible with constants := (x, n) :: visible.constants } s :=
  ensures_watch_declaration rfl

/-- The array has room for a value even if the stack has none. -/
lemma ensures_watch_array {input : Bytes} (bound : size < 2 ^ 63) :
    ((Item.array .int64 "stack" (.cond (.bin .gt (.name "STACK_SIZE") (.num 0)) (.name "STACK_SIZE")
        (.num 1))).watch fuel ⟨[("STACK_SIZE", size)], []⟩).Ensures allowed (State.initial input)
        post ↔
      post ⟨[("STACK_SIZE", size)], []⟩
        { State.initial input with array := List.replicate (max size 1) 0 } := by
  rw [ensures_watch_declaration rfl, WatchedScope.erase, List.map_nil, declare_array bound,
    Result.meets_ok]

/-- The stack pointer is declared as a global variable with the value zero. -/
lemma ensures_watch_sp :
    ((Item.variable .int64 "sp" (.num 0)).watch fuel visible).Ensures allowed s post ↔
      post visible { s with globals := ⟨"sp", .int64, some (.int .int64 0)⟩ :: s.globals } :=
  ensures_watch_declaration rfl

/-- A compiled program begins with an empty stack. -/
lemma ensures_watchItems_toC (p : Program) (bound : size < 2 ^ 63) (input : Bytes) :
    ((p.toC size).watchItems fuel ⟨[], []⟩).Ensures allowed (State.initial input)
      fun visible s => visible = watchedScope size fuel (main p :: libraryFunctions) ∧
        s = memory [] (List.replicate (max size 1) 0) [] input [] [] := by
  simp only [Program.toC, library, List.cons_append, List.nil_append, ensures_watchItems_cons,
    ensures_watchItems_nil, ensures_watch_local, ensures_watch_exported, ensures_watch_comment,
    ensures_watch_gap, ensures_watch_include, ensures_watch_define, ensures_watch_array bound,
    ensures_watch_sp]
  refine ⟨rfl, ?_⟩
  simp [memory, State.initial]

variable (fuel) in
/-- A compiled program, from its beginning on. -/
lemma ensures_toC {p : Program} (wf : p.WellFormed) (bound : size < 2 ^ 63) (input : Bytes) :
    (do
      let visible ← (p.toC size).watchItems fuel ⟨[], []⟩
      Watched.note .arrive
      Watched.callFunction visible "main" [] : Watched Value).Ensures (Allowed size)
        (State.initial input) fun _ _ => True := by
  have empty : Fits size [] (List.replicate (max size 1) 0) := ⟨Nat.zero_le _, by simp⟩
  rw [Watched.ensures_bind]
  refine (ensures_watchItems_toC p bound input).mono ?_
  rintro _ _ ⟨rfl, rfl⟩
  rw [Watched.ensures_bind, Watched.ensures_note, allowed_memory]
  refine ⟨⟨empty, permitted_arrive⟩, ?_⟩
  rw [show "main" = (main p).name from rfl, watchedCall_self]
  exact ensures_main wf bound empty

end Source

end Compiler

open Compiler

/-- **Compiled programs never do what has no meaning in C.** Take a program with equally long tables
and a last address, a size for the stack of its compiled form, an input, and a number of turns that
loops may take. The labels of each `switch` differ from each other. All that the program does on the
way is allowed: the stack pointer is between zero and the size of the stack, each element that is
accessed is in the array, no divisor is zero, no quotient is that of the least word by minus one, no
signed operation overflows, and no unsigned one wraps that is not meant to; in particular none that
forms a number out of its digits. So the program has a meaning. -/
theorem Program.toC_defined {p : Program} (tables : p.instructions.size = p.locations.size)
    (fits : p.endAddress? ≠ none) {size : Nat} (bound : size < 2 ^ 63) (fuel : Nat)
    (input : Bytes) :
    (∀ f ∈ (p.toC size).functions, f.body.distinctLabels) ∧
      ∃ events, (p.toC size).watch fuel input = (events, (p.toC size).run fuel input) ∧
        (∀ e ∈ events, Allowed size e) ∧ (p.toC size).run fuel input ≠ .undefined := by
  have wf : p.WellFormed := ⟨tables, Program.endAddress?_ne_none_iff.1 fits⟩
  have ensures := ensures_toC fuel wf bound input
  have same := (p.toC size).watch_eq fuel input
  refine ⟨distinctLabels_toC wf size, ((p.toC size).watch fuel input).1, ?_, ensures.1, ?_⟩
  · rw [← same]
  · intro undefined
    have meets : ((p.toC size).watch fuel input).2.Meets fun _ _ => True := ensures.2
    rw [same, undefined] at meets
    exact meets

/-- A program up to the last address, which divides the least word by minus one, with the least
stack that it needs. -/
theorem Program.toC_defined_div :
    ∃ p : Program, p.endAddress? = some Int64.maxValue ∧
      p.instructions = #[.push Int64.minValue, .push (-1), .op .div] ∧
      (∀ e ∈ ((p.toC 2).watch 5 []).1, Allowed 2 e) ∧ (p.toC 2).run 5 [] ≠ .undefined := by
  let l : Location := ⟨"f", 1, 1⟩
  let p : Program := ⟨Int64.maxValue - 3, #[.push Int64.minValue, .push (-1), .op .div], #[l, l, l]⟩
  obtain ⟨-, events, watched, allowed, defined⟩ :=
    toC_defined (p := p) rfl (by decide) (show 2 < 2 ^ 63 by decide) 5 []
  refine ⟨p, by decide, rfl, ?_, defined⟩
  rw [watched]
  exact allowed

end StackAsm
