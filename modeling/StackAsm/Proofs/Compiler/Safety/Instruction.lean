import StackAsm.Proofs.Compiler.Opcode
import StackAsm.Proofs.Compiler.Safety.ReadInteger

set_option autoImplicit false

/-!
# Instructions are safe

The statements of an instruction leave the stack in its bounds and the program counter where it was,
unless they jump. What a function leaves is forgotten here but for that, so there is one fact for
each kind of statement, and the statements of an instruction are put together from these.

## Main definitions

* `StackAsm.Compiler.AtAddress` — the states between two statements of the main function.
* `StackAsm.Compiler.Left` — how the statements of an instruction end.

## Main results

* `StackAsm.Compiler.ensures_instructionBody` — the statements of an instruction.
-/

namespace StackAsm.Compiler

open C

/-! ## Calls -/

/-- What the main function sees, under watch. -/
def watchedLibrary (size fuel : Nat) : WatchedScope := watchedScope size fuel libraryFunctions

/-- A call that returns a word and leaves the stack as it is. -/
def ReturnsWord (size : Nat) (call : Watched Value) : Prop :=
  ∀ {stack free : List Word}, Fits size stack free → ∀ locals input output diagnostics,
    call.Ensures (Allowed size) (memory stack free locals input output diagnostics)
      fun r after => HoldsWord r ∧ Stores stack free locals after

section Calls

variable {size fuel : Nat} {stack free : List Word} {locals : List Variable}
  {input output diagnostics : Bytes} (bound : size < 2 ^ 63) (fits : Fits size stack free)

include bound fits in
/-- To pop does what is allowed, and returns the top value. -/
lemma ensures_call_pop :
    (Watched.callFunction (watchedLibrary size fuel) "pop" []).Ensures (Allowed size)
      (memory stack free locals input output diagnostics) fun r after =>
        ∃ a rest, stack = a :: rest ∧ r = .int .int64 a.toInt ∧
          Stores rest (a :: free) locals after :=
  ensures_pop locals input output diagnostics (failsSafely_of_suffix [push] (by decide)) bound fits

include bound fits in
/-- To push does what is allowed, and leaves a stack that fits. -/
lemma ensures_call_push (v : Word) :
    (Watched.callFunction (watchedLibrary size fuel) "push" [.int .int64 v.toInt]).Ensures
      (Allowed size) (memory stack free locals input output diagnostics) fun _ after =>
        ∃ rest, Fits size (v :: stack) rest ∧ Stores (v :: stack) rest locals after :=
  ensures_push locals input output diagnostics (failsSafely_of_suffix [] (by decide)) bound fits v

include bound fits in
/-- To check an index does what is allowed, and returns one inside the stack. -/
lemma ensures_call_checkedIndex (t : Word) :
    (Watched.callFunction (watchedLibrary size fuel) "checked_index"
        [.int .int64 t.toInt, .int .int64 stack.length]).Ensures (Allowed size)
      (memory stack free locals input output diagnostics) fun r after =>
        0 ≤ t.toInt ∧ t.toInt < stack.length ∧ r = .int .int64 t.toInt ∧
          Stores stack free locals after :=
  ensures_checkedIndex locals input output diagnostics
    (failsSafely_of_suffix [pop, push] (by decide)) bound fits t

include bound fits in
/-- To show the stack does what is allowed. -/
lemma ensures_call_dumpStack :
    (Watched.callFunction (watchedLibrary size fuel) "dump_stack" []).Ensures (Allowed size)
      (memory stack free locals input output diagnostics) fun _ after =>
        Stores stack free locals after :=
  ensures_dumpStack [wrapDiv, wrapMul, wrapSub, wrapAdd, checkedIndex, pop, push, fail]
    locals input output diagnostics bound fits (by decide)

/-- The call for a sum returns a word. -/
lemma returnsWord_wrapAdd (a b : Word) :
    ReturnsWord size (Watched.callFunction (watchedLibrary size fuel) "wrap_add"
      [.int .int64 a.toInt, .int .int64 b.toInt]) :=
  fun fits locals input output diagnostics =>
    ensures_wrapping [checkedIndex, pop, push, fail] locals input output diagnostics fits
      rfl a b

/-- The call for a difference returns a word. -/
lemma returnsWord_wrapSub (a b : Word) :
    ReturnsWord size (Watched.callFunction (watchedLibrary size fuel) "wrap_sub"
      [.int .int64 a.toInt, .int .int64 b.toInt]) :=
  fun fits locals input output diagnostics =>
    ensures_wrapping [wrapAdd, checkedIndex, pop, push, fail] locals input output diagnostics fits
      rfl a b

/-- The call for a product returns a word. -/
lemma returnsWord_wrapMul (a b : Word) :
    ReturnsWord size (Watched.callFunction (watchedLibrary size fuel) "wrap_mul"
      [.int .int64 a.toInt, .int .int64 b.toInt]) :=
  fun fits locals input output diagnostics =>
    ensures_wrapping [wrapSub, wrapAdd, checkedIndex, pop, push, fail] locals input output
      diagnostics fits rfl a b

/-- The call for a quotient returns a word. -/
lemma returnsWord_wrapDiv (a b : Word) :
    ReturnsWord size (Watched.callFunction (watchedLibrary size fuel) "wrap_div"
      [.int .int64 a.toInt, .int .int64 b.toInt]) :=
  fun fits locals input output diagnostics =>
    ensures_wrapDiv locals input output diagnostics
      (failsSafely_of_suffix [wrapMul, wrapSub, wrapAdd, checkedIndex, pop, push] (by decide)) fits
      a b

/-- The call that reads a byte returns a word. -/
lemma returnsWord_readChar :
    ReturnsWord size (Watched.callFunction (watchedLibrary size fuel) "read_char" []) :=
  fun fits locals input output diagnostics =>
    ensures_readChar libraryFunctions.tail locals input output diagnostics fits (by decide)

include fits in
/-- A call of `read_int`, where what is done carefully is allowed, and so is what the main function
does. -/
lemma ensures_call_readInt {allowed : Event → Prop} (careful : ∀ e, Careful size e → allowed e)
    (back : ∀ input output diagnostics,
      allowed ⟨memory stack free locals input output diagnostics, .arrive⟩) :
    (Watched.callFunction (watchedLibrary size fuel) "read_int" []).Ensures allowed
      (memory stack free locals input output diagnostics) fun r after =>
        HoldsWord r ∧ Stores stack free locals after :=
  ensures_readInt
    [isSpace, dumpStack, wrapDiv, wrapMul, wrapSub, wrapAdd, checkedIndex, pop, push, fail]
    output diagnostics fits (by decide)
    (watchedCall_self size fuel isSpace
      [dumpStack, wrapDiv, wrapMul, wrapSub, wrapAdd, checkedIndex, pop, push, fail])
    (watchedCall_fail size fuel [isSpace, dumpStack, wrapDiv, wrapMul, wrapSub, wrapAdd,
      checkedIndex, pop, push] (by decide))
    careful (by decide) back input

/-- The call that reads an integer returns a word. -/
lemma returnsWord_readInt :
    ReturnsWord size (Watched.callFunction (watchedLibrary size fuel) "read_int" []) :=
  fun fits _ _ _ _ =>
    ensures_call_readInt fits (fun _ careful => careful.allowed) (by simp [fits])

variable (size fuel) in
/-- Under watch, a name that no function of the program has stands for one of the C library. -/
lemma watchedCall_library {x : String} (other : x ∉ libraryFunctions.map Function.name)
    (args : List Value) : Watched.callFunction (watchedLibrary size fuel) x args =
      Watched.lift (libraryCall x args) :=
  watchedCall_of_notMem size fuel libraryFunctions other args

end Calls

/-! ## States of the main function -/

/-- Between two statements of the main function, at an address. -/
def AtAddress (size : Nat) (pc : Address) (s : State) : Prop :=
  ∃ stack free a b t, Fits size stack free ∧ Stores stack free (mainVars pc a b t) s

/-- The statements of an instruction at an address are left for the statement behind the `switch`,
or for the next turn of the loop at another address. -/
def Left (size : Nat) (pc : Address) (flow : Flow) (s : State) : Prop :=
  (flow = .leave ∧ AtAddress size pc s) ∨ (flow = .again ∧ ∃ target, AtAddress size target s)

/-- A statement ends, and the next one follows. -/
def Follows (size : Nat) (pc : Address) (flow : Flow) (s : State) : Prop :=
  flow = .next ∧ AtAddress size pc s

section Statements

variable {size fuel : Nat} {stack free : List Word} {pc a b t : Word} {s : State}
  {input output diagnostics : Bytes} (bound : size < 2 ^ 63)

/-- A state with a stack that fits is between two statements. -/
lemma atAddress_memory (fits : Fits size stack free) :
    AtAddress size pc (memory stack free (mainVars pc a b t) input output diagnostics) :=
  ⟨stack, free, a, b, t, fits, stores_memory ..⟩

/-- A break leaves the statements of an instruction. -/
lemma ensures_leave (here : AtAddress size pc s) :
    (Stmt.leave.watch (watchedLibrary size fuel) fuel none).Ensures (Allowed size) s
      (Left size pc) :=
  Stmt.ensures_leave.2 (.inl ⟨rfl, here⟩)

/-- A statement behind which the `switch` is left. -/
lemma ensures_seq_leave {layout : Layout} {first : Stmt}
    (follows : (first.watch (watchedLibrary size fuel) fuel none).Ensures (Allowed size) s
      (Follows size pc)) :
    ((Stmt.seq layout first .leave).watch (watchedLibrary size fuel) fuel none).Ensures
      (Allowed size) s (Left size pc) :=
  Stmt.ensures_seq_of_next follows fun _ here => ensures_leave here

include bound

/-- The top of the stack is taken into a variable of the main function. -/
lemma ensures_popInto_main (fits : Fits size stack free) {x : String} {value : Option Value}
    {locals : List Variable} (declared : namedVariable? locals x = some ⟨x, .int64, value⟩)
    (other : x ≠ "sp") :
    ((popInto x).watch (watchedLibrary size fuel) fuel none).Ensures (Allowed size)
      (memory stack free locals input output diagnostics) fun flow after =>
        flow = .next ∧ ∃ (v : Word) (rest more : List Word), Fits size rest more ∧
          Stores rest more (setVariable x (.int .int64 v.toInt) locals) after := by
  simp only [popInto, Stmt.ensures_expr, Expr.ensures_assign_name, Expr.ensures_call,
    Expr.ensures_nil]
  refine (ensures_call_pop bound fits).mono ?_
  rintro _ _ ⟨v, rest, rfl, rfl, input, output, diagnostics, rfl⟩
  simp [declared, other, fits.pop, Result.state?]
  exact ⟨v, rest, _, fits.pop v, stores_memory ..⟩

/-- To pop into an operand does what is allowed. -/
lemma ensures_popInto {x : String} (operand : x ∈ ["a", "b", "t"]) (here : AtAddress size pc s) :
    ((popInto x).watch (watchedLibrary size fuel) fuel none).Ensures (Allowed size) s
      (Follows size pc) := by
  obtain ⟨stack, free, a, b, t, fits, input, output, diagnostics, rfl⟩ := here
  simp only [List.mem_cons, List.not_mem_nil, or_false] at operand
  rcases operand with rfl | rfl | rfl
  · refine (ensures_popInto_main bound fits rfl (by decide)).mono ?_
    rintro _ _ ⟨rfl, v, rest, more, fits, stores⟩
    exact ⟨rfl, rest, more, v, b, t, fits, stores⟩
  · refine (ensures_popInto_main bound fits rfl (by decide)).mono ?_
    rintro _ _ ⟨rfl, v, rest, more, fits, stores⟩
    exact ⟨rfl, rest, more, a, v, t, fits, stores⟩
  · refine (ensures_popInto_main bound fits rfl (by decide)).mono ?_
    rintro _ _ ⟨rfl, v, rest, more, fits, stores⟩
    exact ⟨rfl, rest, more, a, b, v, fits, stores⟩

/-- A word is pushed. -/
lemma ensures_pushValue {e : Expr}
    (value : (e.watch (watchedLibrary size fuel)).Ensures (Allowed size) s fun r after =>
      HoldsWord r ∧ AtAddress size pc after) :
    ((pushValue e).watch (watchedLibrary size fuel) fuel none).Ensures (Allowed size) s
      (Follows size pc) := by
  simp only [pushValue, Stmt.ensures_expr, Expr.ensures_call, Expr.ensures_cons, Expr.ensures_nil]
  refine value.mono ?_
  rintro _ _ ⟨⟨v, rfl⟩, stack, free, a, b, t, fits, input, output, diagnostics, rfl⟩
  refine (ensures_call_push bound fits v).mono ?_
  rintro _ _ ⟨rest, fits, stores⟩
  exact ⟨rfl, v :: stack, rest, a, b, t, fits, stores⟩

omit bound in
/-- To read an operand does what is allowed, and yields a word. -/
lemma ensures_name {x : String} (operand : x ∈ ["a", "b"]) (here : AtAddress size pc s) :
    ((Expr.name x).watch (watchedLibrary size fuel)).Ensures (Allowed size) s fun r after =>
      HoldsWord r ∧ AtAddress size pc after := by
  obtain ⟨stack, free, a, b, t, fits, input, output, diagnostics, rfl⟩ := here
  simp only [List.mem_cons, List.not_mem_nil, or_false] at operand
  rcases operand with rfl | rfl <;> simp [atAddress_memory fits]

omit bound in
/-- A call that returns a word is between two statements before and after. -/
lemma ensures_callWord {f : String} {args : List Value}
    (returns : ReturnsWord size (Watched.callFunction (watchedLibrary size fuel) f args))
    (here : AtAddress size pc s) :
    (Watched.callFunction (watchedLibrary size fuel) f args).Ensures (Allowed size) s
      fun r after => HoldsWord r ∧ AtAddress size pc after := by
  obtain ⟨stack, free, a, b, t, fits, input, output, diagnostics, rfl⟩ := here
  refine (returns fits _ _ _ _).mono ?_
  rintro r _ ⟨word, stores⟩
  exact ⟨word, stack, free, a, b, t, fits, stores⟩

/-! ## Opcodes -/

/-- An opcode that combines two values does what is allowed. -/
lemma ensures_binary {f : String}
    (returns : ∀ x y : Word, ReturnsWord size (Watched.callFunction (watchedLibrary size fuel) f
      [.int .int64 x.toInt, .int .int64 y.toInt])) (here : AtAddress size pc s) :
    ((binary f).watch (watchedLibrary size fuel) fuel none).Ensures (Allowed size) s
      (Left size pc) := by
  refine ensures_seq_leave (Stmt.ensures_seq_of_next (ensures_popInto bound (by simp) here) ?_)
  intro s here
  refine Stmt.ensures_seq_of_next (ensures_popInto bound (by simp) here) ?_
  intro s here
  refine ensures_pushValue bound ?_
  obtain ⟨stack, free, a, b, t, fits, input, output, diagnostics, rfl⟩ := here
  simp only [Expr.ensures_call, Expr.ensures_cons, Expr.ensures_nil, Expr.ensures_name,
    readName_memory, namedVariable?_a, namedVariable?_b, Eval.ofOption_some, Result.meets_ok]
  exact ensures_callWord (returns a b) (atAddress_memory fits)

/-- A jump does what is allowed. -/
lemma ensures_jmp (here : AtAddress size pc s) :
    ((opcodeBody .jmp).watch (watchedLibrary size fuel) fuel none).Ensures (Allowed size) s
      (Left size pc) := by
  obtain ⟨stack, free, a, b, t, fits, input, output, diagnostics, rfl⟩ := here
  refine Stmt.ensures_seq_of_next
    (ensures_popInto_main bound fits (x := "pc") (namedVariable?_pc pc a b t) (by decide)) ?_
  rintro _ ⟨v, rest, more, fits, stores⟩
  exact Stmt.ensures_again.2 (.inr ⟨rfl, v, rest, more, a, b, t, fits, stores⟩)

/-- To pop into several operands does what is allowed. -/
lemma ensures_popAll {xs : List String} (operands : ∀ x ∈ xs, x ∈ ["a", "b", "t"])
    (here : AtAddress size pc s) :
    ((popAll xs).watch (watchedLibrary size fuel) fuel none).Ensures (Allowed size) s
      (Follows size pc) := by
  induction xs generalizing s with
  | nil => exact Stmt.ensures_gap.2 ⟨rfl, here⟩
  | cons x xs ih =>
    rw [List.forall_mem_cons] at operands
    have first : ((popInto x).watch (watchedLibrary size fuel) fuel none).Ensures (Allowed size) s
        (Follows size pc) := ensures_popInto bound operands.1 here
    cases xs with
    | nil => exact first
    | cons y xs => exact Stmt.ensures_seq_of_next first fun s here => ih operands.2 here

/-- A branch does what is allowed. -/
lemma ensures_branch {op : BinOp} (strict : op ≠ .and ∧ op ≠ .or)
    (compares : ∀ x y : Word, ∃ taken,
      op.onCommon .int64 x.toInt y.toInt = some (.ofBool taken)) (here : AtAddress size pc s) :
    ((branch op).watch (watchedLibrary size fuel) fuel none).Ensures (Allowed size) s
      (Left size pc) := by
  refine Stmt.ensures_seq_of_next (ensures_popAll bound (by simp) here) ?_
  rintro _ ⟨stack, free, a, b, t, fits, input, output, diagnostics, rfl⟩
  obtain ⟨taken, compared⟩ := compares a b
  have test : op.apply (.int .int64 a.toInt) (.int .int64 b.toInt) = some (.ofBool taken) := by
    rw [BinOp.apply_word (.inr rfl) (Word.inRange_toInt a) (Word.inRange_toInt b), compared]
  have permitted (s : State) (e : Expr) :
      Permitted s (.apply e op (.int .int64 a.toInt) (.int .int64 b.toInt)) :=
    permitted_of_signed test rfl
  cases taken with
  | true =>
    have jumps : Left size pc .again
        (memory stack free (mainVars t a b t) input output diagnostics) :=
      .inr ⟨rfl, t, atAddress_memory fits⟩
    simp [strict, permitted, test, fits, Result.state?, jumps]
  | false =>
    have leaves : Left size pc .leave
        (memory stack free (mainVars pc a b t) input output diagnostics) :=
      .inl ⟨rfl, atAddress_memory fits⟩
    simp [strict, permitted, test, fits, leaves]

/-! ### Values that are named by an index -/

/-- The index in `t` names a value of the stack, or the program ends. -/
lemma ensures_checkIndex (here : AtAddress size pc s) :
    (checkIndex.watch (watchedLibrary size fuel) fuel none).Ensures (Allowed size) s
      fun flow after => flow = .next ∧ ∃ (stack free : List Word) (a b t : Word) (k : Nat),
        Fits size stack free ∧ t.toInt = k ∧ k < stack.length ∧
          Stores stack free (mainVars pc a b t) after := by
  obtain ⟨stack, free, a, b, t, fits, input, output, diagnostics, rfl⟩ := here
  simp only [checkIndex, Stmt.ensures_expr, Expr.ensures_assign_name, Expr.ensures_call,
    Expr.ensures_cons, Expr.ensures_nil, Expr.ensures_name, readName_memory, namedVariable?_t,
    namedVariable?_sp, Eval.ofOption_some, Result.meets_ok, if_true, Eval.pure_run]
  refine (ensures_call_checkedIndex bound fits t).mono ?_
  rintro _ _ ⟨low, high, rfl, input, output, diagnostics, rfl⟩
  obtain ⟨k, index⟩ := Int.eq_ofNat_of_zero_le low
  simp [fits, Result.state?]
  exact ⟨stack, free, fits, a, b, t, k, index, by omega, stores_memory ..⟩

/-- Reading a slot does what is allowed. -/
lemma ensures_get (here : AtAddress size pc s) :
    ((opcodeBody .get).watch (watchedLibrary size fuel) fuel none).Ensures (Allowed size) s
      (Left size pc) := by
  refine Stmt.ensures_seq_of_next (ensures_popInto bound (by simp) here) ?_
  intro s here
  refine Stmt.ensures_seq_of_next (ensures_checkIndex bound here) ?_
  rintro _ ⟨stack, free, a, b, t, k, fits, index, inside, input, output, diagnostics, rfl⟩
  refine ensures_seq_leave (ensures_pushValue bound ?_)
  have bottom : k < (stack.reverse ++ free).length := by
    rw [List.length_append, List.length_reverse]
    omega
  have access : Permitted (memory stack free (mainVars pc a b t) input output diagnostics)
      (.access (.int .int64 k)) := permitted_access _ (by omega)
  simp [index, fits, access, readElement_memory .int64 (List.getElem?_eq_getElem bottom),
    atAddress_memory fits]

/-- Writing a slot does what is allowed. -/
lemma ensures_set (here : AtAddress size pc s) :
    ((opcodeBody .set).watch (watchedLibrary size fuel) fuel none).Ensures (Allowed size) s
      (Left size pc) := by
  refine Stmt.ensures_seq_of_next (ensures_popAll bound (by simp) here) ?_
  intro s here
  refine Stmt.ensures_seq_of_next (ensures_checkIndex bound here) ?_
  rintro _ ⟨stack, free, a, b, t, k, fits, index, inside, input, output, diagnostics, rfl⟩
  have access : Permitted (memory stack free (mainVars pc a b t) input output diagnostics)
      (.access (.int .int64 k)) := permitted_access _ (by omega)
  have kept : Fits size (stack.set (stack.length - 1 - k) a) free :=
    ⟨by rw [List.length_set]; exact fits.few, by rw [List.length_set]; exact fits.full⟩
  refine ensures_seq_leave ?_
  simp [index, fits, access, writeElement_memory .int64 a inside, kept, Result.state?, Follows,
    atAddress_memory]

/-! ### The stack -/

/-- Copying the top value does what is allowed. -/
lemma ensures_dup (here : AtAddress size pc s) :
    ((opcodeBody .dup).watch (watchedLibrary size fuel) fuel none).Ensures (Allowed size) s
      (Left size pc) := by
  refine ensures_seq_leave (Stmt.ensures_seq_of_next (ensures_popInto bound (by simp) here) ?_)
  intro s here
  refine Stmt.ensures_seq_of_next (ensures_pushValue bound (ensures_name (by simp) here)) ?_
  intro s here
  exact ensures_pushValue bound (ensures_name (by simp) here)

/-- Exchanging the two top values does what is allowed. -/
lemma ensures_swap (here : AtAddress size pc s) :
    ((opcodeBody .swap).watch (watchedLibrary size fuel) fuel none).Ensures (Allowed size) s
      (Left size pc) := by
  refine ensures_seq_leave (Stmt.ensures_seq_of_next (ensures_popInto bound (by simp) here) ?_)
  intro s here
  refine Stmt.ensures_seq_of_next (ensures_popInto bound (by simp) here) ?_
  intro s here
  refine Stmt.ensures_seq_of_next (ensures_pushValue bound (ensures_name (by simp) here)) ?_
  intro s here
  exact ensures_pushValue bound (ensures_name (by simp) here)

/-- The top of the stack is taken. -/
lemma ensures_popWord (here : AtAddress size pc s) :
    (Watched.callFunction (watchedLibrary size fuel) "pop" []).Ensures (Allowed size) s
      fun r after => HoldsWord r ∧ AtAddress size pc after := by
  obtain ⟨stack, free, a, b, t, fits, input, output, diagnostics, rfl⟩ := here
  refine (ensures_call_pop bound fits).mono ?_
  rintro _ _ ⟨v, rest, rfl, rfl, stores⟩
  exact ⟨holdsWord_toInt v, rest, v :: free, a, b, t, fits.pop v, stores⟩

/-- Dropping the top value does what is allowed. -/
lemma ensures_drop (here : AtAddress size pc s) :
    ((opcodeBody .pop).watch (watchedLibrary size fuel) fuel none).Ensures (Allowed size) s
      (Left size pc) := by
  refine ensures_seq_leave ?_
  simp only [Stmt.ensures_expr, Expr.ensures_cast, Expr.ensures_call, Expr.ensures_nil]
  refine (ensures_popWord bound here).mono ?_
  rintro _ s ⟨⟨v, rfl⟩, here⟩
  exact ⟨rfl, here⟩

/-! ### Input and output -/

/-- Showing the stack does what is allowed. -/
lemma ensures_dbg (here : AtAddress size pc s) :
    ((opcodeBody .dbg).watch (watchedLibrary size fuel) fuel none).Ensures (Allowed size) s
      (Left size pc) := by
  obtain ⟨stack, free, a, b, t, fits, input, output, diagnostics, rfl⟩ := here
  refine ensures_seq_leave ?_
  simp only [Stmt.ensures_expr, Expr.ensures_call, Expr.ensures_nil]
  refine (ensures_call_dumpStack bound fits).mono ?_
  rintro _ s stores
  exact ⟨rfl, stack, free, a, b, t, fits, stores⟩

/-- Writing the top value in decimal does what is allowed. -/
lemma ensures_print (here : AtAddress size pc s) :
    ((opcodeBody .print).watch (watchedLibrary size fuel) fuel none).Ensures (Allowed size) s
      (Left size pc) := by
  have call := watchedCall_library size fuel (x := "printf") (by decide)
  refine ensures_seq_leave ?_
  simp only [Stmt.ensures_expr, Expr.ensures_call, Expr.ensures_cons, Expr.ensures_nil,
    Expr.ensures_format, formatConstant?_PRId64, Eval.ofOption_some, Result.meets_ok, call]
  refine (ensures_popWord bound here).mono ?_
  rintro _ _ ⟨⟨v, rfl⟩, stack, free, a, b, t, fits, input, output, diagnostics, rfl⟩
  simp [fits, Result.state?, Follows, atAddress_memory]

/-- Writing the top value as a byte does what is allowed. -/
lemma ensures_cprint (here : AtAddress size pc s) :
    ((opcodeBody .cprint).watch (watchedLibrary size fuel) fuel none).Ensures (Allowed size) s
      (Left size pc) := by
  have call := watchedCall_library size fuel (x := "putchar") (by decide)
  refine ensures_seq_leave ?_
  simp only [Stmt.ensures_expr, Expr.ensures_call, Expr.ensures_cons, Expr.ensures_nil,
    Expr.ensures_cast, call]
  refine (ensures_popWord bound here).mono ?_
  rintro _ _ ⟨⟨v, rfl⟩, stack, free, a, b, t, fits, input, output, diagnostics, rfl⟩
  simp [fits, Result.state?, Follows, atAddress_memory]

/-- The depth of the stack is a word. -/
lemma ensures_depth (here : AtAddress size pc s) :
    ((Expr.name "sp").watch (watchedLibrary size fuel)).Ensures (Allowed size) s fun r after =>
      HoldsWord r ∧ AtAddress size pc after := by
  obtain ⟨stack, free, a, b, t, fits, input, output, diagnostics, rfl⟩ := here
  have few : stack.length < 2 ^ 63 := Nat.lt_of_le_of_lt fits.few bound
  have word : HoldsWord (.int .int64 stack.length) :=
    ⟨Int64.ofNat stack.length, by rw [Int64.toInt_ofNat_of_lt few]⟩
  simp [word, atAddress_memory fits]

omit bound in
/-- A literal for a word does what is allowed. -/
lemma ensures_word (v : Word) (here : AtAddress size pc s) :
    ((Expr.word v).watch (watchedLibrary size fuel)).Ensures (Allowed size) s fun r after =>
      HoldsWord r ∧ AtAddress size pc after :=
  Expr.ensures_word.2 ⟨holdsWord_toInt v, here⟩

/-! ## Instructions -/

/-- The statements of every opcode do what is allowed. -/
lemma ensures_opcodeBody (op : Opcode) (here : AtAddress size pc s) :
    ((opcodeBody op).watch (watchedLibrary size fuel) fuel none).Ensures (Allowed size) s
      (Left size pc) := by
  cases op with
  | add => exact ensures_binary bound returnsWord_wrapAdd here
  | sub => exact ensures_binary bound returnsWord_wrapSub here
  | mul => exact ensures_binary bound returnsWord_wrapMul here
  | div => exact ensures_binary bound returnsWord_wrapDiv here
  | jmp => exact ensures_jmp bound here
  | jeq => exact ensures_branch bound (by decide) (fun _ _ => ⟨_, rfl⟩) here
  | jnq => exact ensures_branch bound (by decide) (fun _ _ => ⟨_, rfl⟩) here
  | jgt => exact ensures_branch bound (by decide) (fun _ _ => ⟨_, rfl⟩) here
  | jlt => exact ensures_branch bound (by decide) (fun _ _ => ⟨_, rfl⟩) here
  | get => exact ensures_get bound here
  | set => exact ensures_set bound here
  | dup => exact ensures_dup bound here
  | pop => exact ensures_drop bound here
  | ppos | size => exact ensures_seq_leave (ensures_pushValue bound (ensures_depth bound here))
  | swap => exact ensures_swap bound here
  | dbg => exact ensures_dbg bound here
  | print => exact ensures_print bound here
  | cprint => exact ensures_cprint bound here
  | read =>
    refine ensures_seq_leave (ensures_pushValue bound ?_)
    exact Expr.ensures_call.2 (Expr.ensures_nil.2 (ensures_callWord returnsWord_readInt here))
  | cread =>
    refine ensures_seq_leave (ensures_pushValue bound ?_)
    exact Expr.ensures_call.2 (Expr.ensures_nil.2 (ensures_callWord returnsWord_readChar here))

/-- **The statements of an instruction do what is allowed**, and leave the stack in its bounds. -/
theorem ensures_instructionBody (i : Instruction) (here : AtAddress size pc s) :
    ((instructionBody i).watch (watchedLibrary size fuel) fuel none).Ensures (Allowed size) s
      (Left size pc) := by
  cases i with
  | push v => exact ensures_seq_leave (ensures_pushValue bound (ensures_word v here))
  | op o => exact ensures_opcodeBody bound o here

end Statements

end StackAsm.Compiler
