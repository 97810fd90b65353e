import StackAsm.Proofs.Compiler.ReadInteger
import StackAsm.Proofs.Step

set_option autoImplicit false

/-!
# What the statements of an opcode do

The statements of an opcode take its operands off the stack one after the other and push the result,
so they find out that the stack is too short only after some operands are gone, and that it is too
long only at the push. There is one fact for each way in which they can go.

## Main definitions

* `StackAsm.Compiler.libraryScope` — what the main function sees.
* `StackAsm.Compiler.mainVars` — its variables.

## Main results

* `StackAsm.Compiler.exec_opcodeBody_short` — an opcode that takes more values than there are.
* `StackAsm.Compiler.exec_binary`, `StackAsm.Compiler.exec_branch`, `StackAsm.Compiler.exec_get` and
  others — an opcode that finds its operands.
-/

namespace StackAsm.Compiler

open C

/-! ## The scope of the main function -/

/-- The functions of compiled programs, the last one first. -/
def libraryFunctions : List Function :=
  [readChar, readInt, isSpace, dumpStack, wrapDiv, wrapMul, wrapSub, wrapAdd, checkedIndex, pop,
    push, fail]

/-- What the main function sees. -/
def libraryScope (size fuel : Nat) : Scope := scope size fuel libraryFunctions

/-- Behind the definition of `fail`, functions of other names can call it. -/
lemma failing_of_suffix {size fuel : Nat} (functions : List Function)
    (named : ∀ f ∈ functions, f.name ≠ "fail") :
    Failing (scope size fuel (functions ++ [fail])) := by
  induction functions with
  | nil => exact failing_fail size fuel
  | cons f functions ih =>
    rw [List.forall_mem_cons] at named
    exact (ih named.2).cons named.1

/-! ## The variables of the main function -/

/-- The variables of the main function: the program counter and three operands. -/
def mainVars (pc a b t : Word) : List Variable :=
  [⟨"t", .int64, some (.int .int64 t.toInt)⟩, ⟨"b", .int64, some (.int .int64 b.toInt)⟩,
    ⟨"a", .int64, some (.int .int64 a.toInt)⟩, ⟨"pc", .int64, some (.int .int64 pc.toInt)⟩]

section Variables

variable (pc a b t v : Word)

/-- The main function has four variables. -/
@[simp] lemma length_mainVars : (mainVars pc a b t).length = 4 := (rfl)

/-- The stack pointer is none of the variables of the main function. -/
@[simp] lemma namedVariable?_sp : namedVariable? (mainVars pc a b t) "sp" = none := (rfl)

/-- The name `pc` stands for the program counter. -/
@[simp] lemma namedVariable?_pc : namedVariable? (mainVars pc a b t) "pc" =
    some ⟨"pc", .int64, some (.int .int64 pc.toInt)⟩ := (rfl)

/-- The name `a` stands for the first operand. -/
@[simp] lemma namedVariable?_a : namedVariable? (mainVars pc a b t) "a" =
    some ⟨"a", .int64, some (.int .int64 a.toInt)⟩ := (rfl)

/-- The name `b` stands for the second operand. -/
@[simp] lemma namedVariable?_b : namedVariable? (mainVars pc a b t) "b" =
    some ⟨"b", .int64, some (.int .int64 b.toInt)⟩ := (rfl)

/-- The name `t` stands for the third operand. -/
@[simp] lemma namedVariable?_t : namedVariable? (mainVars pc a b t) "t" =
    some ⟨"t", .int64, some (.int .int64 t.toInt)⟩ := (rfl)

/-- The program counter is set without a change to the operands. -/
@[simp] lemma setVariable_pc :
    setVariable "pc" (.int .int64 v.toInt) (mainVars pc a b t) = mainVars v a b t := (rfl)

/-- The first operand is set without a change to the other variables. -/
@[simp] lemma setVariable_a :
    setVariable "a" (.int .int64 v.toInt) (mainVars pc a b t) = mainVars pc v b t := (rfl)

/-- The second operand is set without a change to the other variables. -/
@[simp] lemma setVariable_b :
    setVariable "b" (.int .int64 v.toInt) (mainVars pc a b t) = mainVars pc a v t := (rfl)

/-- The third operand is set without a change to the other variables. -/
@[simp] lemma setVariable_t :
    setVariable "t" (.int .int64 v.toInt) (mainVars pc a b t) = mainVars pc a b v := (rfl)

end Variables

/-! ## Calls -/

section Calls

variable {size fuel : Nat} {stack free : List Word} {locals : List Variable}
  {input output diagnostics : Bytes}

/-- To pop from an empty stack ends the program. -/
@[simp] lemma call_pop_nil :
    callFunction (libraryScope size fuel) "pop" []
        (memory [] free locals input output diagnostics) =
      failure "stack underflow" [] free input output diagnostics :=
  pop_nil locals input output diagnostics (failing_of_suffix [push] (by decide))

/-- To pop returns the top value. -/
lemma call_pop_cons {a : Word} (small : (a :: stack).length < 2 ^ 63) :
    callFunction (libraryScope size fuel) "pop" []
        (memory (a :: stack) free locals input output diagnostics) =
      .ok (.int .int64 a.toInt) (memory stack (a :: free) locals input output diagnostics) :=
  pop_cons [push, fail] locals input output diagnostics a small

/-- To push to a full stack ends the program. -/
lemma call_push_full {v : Word} (small : size < 2 ^ 63) (bound : stack.length < 2 ^ 63)
    (full : size ≤ stack.length) :
    callFunction (libraryScope size fuel) "push" [.int .int64 v.toInt]
        (memory stack free locals input output diagnostics) =
      failure "stack overflow" stack free input output diagnostics :=
  push_full locals input output diagnostics (failing_of_suffix [] (by decide)) v small bound full

/-- To push puts a value on top where there is room. -/
lemma call_push_room {v x : Word} (small : size < 2 ^ 63) (room : stack.length < size) :
    callFunction (libraryScope size fuel) "push" [.int .int64 v.toInt]
        (memory stack (x :: free) locals input output diagnostics) =
      .ok .void (memory (v :: stack) free locals input output diagnostics) :=
  push_room [fail] locals input output diagnostics v small room

/-- To check an index outside the stack ends the program. -/
lemma call_checkedIndex_outside {t : Word} (small : stack.length < 2 ^ 63)
    (outside : slot? stack t = none) :
    callFunction (libraryScope size fuel) "checked_index"
        [.int .int64 t.toInt, .int .int64 stack.length]
        (memory stack free locals input output diagnostics) =
      failure "invalid stack index" stack free input output diagnostics :=
  checkedIndex_outside locals input output diagnostics (failing_of_suffix [pop, push] (by decide)) t
    small outside

/-- To check an index inside the stack returns it. -/
lemma call_checkedIndex_inside {t : Word} {k : Fin stack.length} (small : stack.length < 2 ^ 63)
    (inside : slot? stack t = some k) :
    callFunction (libraryScope size fuel) "checked_index"
        [.int .int64 t.toInt, .int .int64 stack.length]
        (memory stack free locals input output diagnostics) =
      .ok (.int .int64 t.toInt) (memory stack free locals input output diagnostics) :=
  checkedIndex_inside [pop, push, fail] locals input output diagnostics t small inside

/-- The call for a sum returns that of the machine. -/
lemma call_wrapAdd (a b : Word) :
    callFunction (libraryScope size fuel) "wrap_add" [.int .int64 a.toInt, .int .int64 b.toInt]
        (memory stack free locals input output diagnostics) =
      .ok (.int .int64 (a + b).toInt) (memory stack free locals input output diagnostics) :=
  wrapAdd_meaning [checkedIndex, pop, push, fail] locals input output diagnostics a b

/-- The call for a difference returns that of the machine. -/
lemma call_wrapSub (a b : Word) :
    callFunction (libraryScope size fuel) "wrap_sub" [.int .int64 a.toInt, .int .int64 b.toInt]
        (memory stack free locals input output diagnostics) =
      .ok (.int .int64 (a - b).toInt) (memory stack free locals input output diagnostics) :=
  wrapSub_meaning [wrapAdd, checkedIndex, pop, push, fail] locals input output
    diagnostics a b

/-- The call for a product returns that of the machine. -/
lemma call_wrapMul (a b : Word) :
    callFunction (libraryScope size fuel) "wrap_mul" [.int .int64 a.toInt, .int .int64 b.toInt]
        (memory stack free locals input output diagnostics) =
      .ok (.int .int64 (a * b).toInt) (memory stack free locals input output diagnostics) :=
  wrapMul_meaning [wrapSub, wrapAdd, checkedIndex, pop, push, fail] locals input
    output diagnostics a b

/-- The call for a quotient by zero ends the program. -/
lemma call_wrapDiv_zero (a : Word) :
    callFunction (libraryScope size fuel) "wrap_div"
        [.int .int64 a.toInt, .int .int64 (0 : Word).toInt]
        (memory stack free locals input output diagnostics) =
      failure "division by zero" stack free input output diagnostics :=
  wrapDiv_zero locals input output diagnostics
    (failing_of_suffix [wrapMul, wrapSub, wrapAdd, checkedIndex, pop, push] (by decide)) a

/-- The call for a quotient returns that of the machine. -/
lemma call_wrapDiv {a b : Word} (nonzero : b ≠ 0) :
    callFunction (libraryScope size fuel) "wrap_div" [.int .int64 a.toInt, .int .int64 b.toInt]
        (memory stack free locals input output diagnostics) =
      .ok (.int .int64 (a / b).toInt) (memory stack free locals input output diagnostics) :=
  wrapDiv_meaning [wrapMul, wrapSub, wrapAdd, checkedIndex, pop, push, fail] locals
    input output diagnostics a b nonzero

/-- To show the stack writes its text to the diagnostics. -/
lemma call_dumpStack (small : stack.length < 2 ^ 63) :
    Result.Is fuel stack.length
      (.ok .void (memory stack free locals input output
        (diagnostics ++ Utf8.encode (stackText stack.reverse ++ "\n"))))
      (callFunction (libraryScope size fuel) "dump_stack" []
        (memory stack free locals input output diagnostics)) :=
  dumpStack_meaning
    [wrapDiv, wrapMul, wrapSub, wrapAdd, checkedIndex, pop, push, fail] input output
    (by decide) locals diagnostics small

variable (size fuel stack free locals input output diagnostics) in
/-- To read a byte returns the next one. -/
lemma call_readChar :
    callFunction (libraryScope size fuel) "read_char" []
        (memory stack free locals input output diagnostics) =
      .ok (.int .int64 (front input))
        (memory stack free locals input.tail output diagnostics) :=
  readChar_meaning libraryFunctions.tail locals input output diagnostics (by decide)

variable (size fuel stack free locals input output diagnostics) in
/-- To read an integer returns the value of the numeral, or ends the program if it has none. -/
lemma call_readInt :
    ∃ unread, Result.Is fuel input.length
      (match (Numeral.split input).value with
        | .ok w => .ok (.int .int64 w.toInt)
          (memory stack free locals (Numeral.split input).rest output diagnostics)
        | .error _ => failure "invalid input" stack free unread output diagnostics)
      (callFunction (libraryScope size fuel) "read_int" []
        (memory stack free locals input output diagnostics)) :=
  readInt_meaning
    [isSpace, dumpStack, wrapDiv, wrapMul, wrapSub, wrapAdd, checkedIndex, pop, push, fail]
    output diagnostics (by decide)
    (callFunction_self size fuel isSpace
      [dumpStack, wrapDiv, wrapMul, wrapSub, wrapAdd, checkedIndex, pop, push, fail])
    (failing_of_suffix [isSpace, dumpStack, wrapDiv, wrapMul, wrapSub, wrapAdd, checkedIndex, pop,
      push] (by decide))
    (by decide) locals input

/-- A name that no function of the program has stands for one of the C library. -/
lemma call_library {x : String} (other : x ∉ libraryFunctions.map Function.name) :
    callFunction (libraryScope size fuel) x = libraryCall x :=
  callFunction_of_notMem size fuel libraryFunctions other

end Calls

/-! ## Operands -/

section Operands

variable {size fuel : Nat} {stack free : List Word} {input output diagnostics : Bytes}
  {pc a b t v : Word}

/-- From an empty stack nothing is popped into a variable. -/
lemma exec_popInto_nil (x : String) (locals : List Variable) :
    (popInto x).exec (libraryScope size fuel) fuel none
        (memory [] free locals input output diagnostics) =
      failure "stack underflow" [] free input output diagnostics := by
  simp [popInto, failure]

/-- The top value is popped into a variable. -/
lemma exec_popInto_cons {x : String} {locals : List Variable} {value : Option Value}
    (declared : namedVariable? locals x = some ⟨x, .int64, value⟩) (other : x ≠ "sp")
    (small : (v :: stack).length < 2 ^ 63) :
    (popInto x).exec (libraryScope size fuel) fuel none
        (memory (v :: stack) free locals input output diagnostics) =
      .ok .next (memory stack (v :: free) (setVariable x (.int .int64 v.toInt) locals) input output
        diagnostics) := by
  simp [popInto, call_pop_cons small, declared, other]

section Main

variable (small : (v :: stack).length < 2 ^ 63)

include small

/-- The top value is popped into the program counter. -/
lemma exec_popInto_pc :
    (popInto "pc").exec (libraryScope size fuel) fuel none
        (memory (v :: stack) free (mainVars pc a b t) input output diagnostics) =
      .ok .next (memory stack (v :: free) (mainVars v a b t) input output diagnostics) :=
  exec_popInto_cons rfl (by decide) small

/-- The top value is popped into the first operand. -/
lemma exec_popInto_a :
    (popInto "a").exec (libraryScope size fuel) fuel none
        (memory (v :: stack) free (mainVars pc a b t) input output diagnostics) =
      .ok .next (memory stack (v :: free) (mainVars pc v b t) input output diagnostics) :=
  exec_popInto_cons rfl (by decide) small

/-- The top value is popped into the second operand. -/
lemma exec_popInto_b :
    (popInto "b").exec (libraryScope size fuel) fuel none
        (memory (v :: stack) free (mainVars pc a b t) input output diagnostics) =
      .ok .next (memory stack (v :: free) (mainVars pc a v t) input output diagnostics) :=
  exec_popInto_cons rfl (by decide) small

/-- The top value is popped into the third operand. -/
lemma exec_popInto_t :
    (popInto "t").exec (libraryScope size fuel) fuel none
        (memory (v :: stack) free (mainVars pc a b t) input output diagnostics) =
      .ok .next (memory stack (v :: free) (mainVars pc a b v) input output diagnostics) :=
  exec_popInto_cons rfl (by decide) small

/-- The names of the variables of the main function. -/
def mainNames : List String := ["pc", "a", "b", "t"]

/-- Whatever variable of the main function a value is popped into, the rest is as it was. -/
lemma exec_popInto_main {x : String} (main : x ∈ mainNames) :
    ∃ pc' a' b' t', (popInto x).exec (libraryScope size fuel) fuel none
        (memory (v :: stack) free (mainVars pc a b t) input output diagnostics) =
      .ok .next (memory stack (v :: free) (mainVars pc' a' b' t') input output diagnostics) := by
  simp only [mainNames, List.mem_cons, List.not_mem_nil, or_false] at main
  rcases main with rfl | rfl | rfl | rfl
  · exact ⟨v, a, b, t, exec_popInto_pc small⟩
  · exact ⟨pc, v, b, t, exec_popInto_a small⟩
  · exact ⟨pc, a, v, t, exec_popInto_b small⟩
  · exact ⟨pc, a, b, v, exec_popInto_t small⟩

end Main

/-- The first of several statements comes before the others. -/
lemma ofList_cons {layout : Layout} {first second : Stmt} {rest : List Stmt} :
    Stmt.ofList layout (first :: second :: rest) =
      .seq layout first (.ofList layout (second :: rest)) := (rfl)

/-- Nothing is executed behind a statement that ends the program. -/
lemma exec_seq_exit {first second : Stmt} {layout : Layout} {status : Int} {s s' : State}
    (ends : first.exec (libraryScope size fuel) fuel none s = .exit status s') :
    (Stmt.seq layout first second).exec (libraryScope size fuel) fuel none s = .exit status s' := by
  rw [Stmt.exec, Eval.bind_run, ends]

/-- If the first of several statements ends the program, they do. -/
lemma exec_ofList_cons {layout : Layout} {first : Stmt} {rest : List Stmt} {status : Int}
    {s s' : State} (ends : first.exec (libraryScope size fuel) fuel none s = .exit status s') :
    (Stmt.ofList layout (first :: rest)).exec (libraryScope size fuel) fuel none s =
      .exit status s' := by
  cases rest with
  | nil => exact ends
  | cons second rest => exact exec_seq_exit ends

/-- Taking more values than there are ends the program. -/
lemma exec_pops_short {layout : Layout} {xs : List String} (rest : List Stmt)
    (main : ∀ x ∈ xs, x ∈ mainNames) (small : stack.length < 2 ^ 63)
    (short : stack.length < xs.length) :
    ∃ free', (Stmt.ofList layout (xs.map popInto ++ rest)).exec (libraryScope size fuel) fuel none
        (memory stack free (mainVars pc a b t) input output diagnostics) =
      failure "stack underflow" [] free' input output diagnostics := by
  induction xs generalizing stack free pc a b t with
  | nil => exact absurd short (Nat.not_lt_zero _)
  | cons x xs ih =>
    rw [List.forall_mem_cons] at main
    cases stack with
    | nil => exact ⟨free, exec_ofList_cons (exec_popInto_nil x (mainVars pc a b t))⟩
    | cons v stack =>
      rw [List.length_cons, List.length_cons, Nat.succ_lt_succ_iff] at short
      cases xs with
      | nil => exact absurd short (Nat.not_lt_zero _)
      | cons y xs =>
        obtain ⟨pc', a', b', t', first⟩ : ∃ pc' a' b' t',
            (popInto x).exec (libraryScope size fuel) fuel none
              (memory (v :: stack) free (mainVars pc a b t) input output diagnostics) =
            .ok .next (memory stack (v :: free) (mainVars pc' a' b' t') input output diagnostics) :=
          exec_popInto_main small main.1
        rw [List.length_cons] at small
        obtain ⟨free', later⟩ := ih main.2 (Nat.lt_of_succ_lt small) short
        refine ⟨free', ?_⟩
        rw [List.map_cons, List.map_cons, List.cons_append, List.cons_append, ofList_cons,
          Stmt.exec, Eval.bind_run, first]
        exact later

/-- An opcode that takes more values than there are ends the program. -/
theorem exec_opcodeBody_short (op : Opcode) (small : stack.length < 2 ^ 63)
    (short : stack.length < op.effect.1) :
    ∃ free', (opcodeBody op).exec (libraryScope size fuel) fuel none
        (memory stack free (mainVars pc a b t) input output diagnostics) =
      failure "stack underflow" [] free' input output diagnostics := by
  have pops {layout : Layout} (xs : List String) (rest : List Stmt) (main : ∀ x ∈ xs, x ∈ mainNames)
      (few : stack.length < xs.length) :
      ∃ free', (Stmt.ofList layout (xs.map popInto ++ rest)).exec (libraryScope size fuel) fuel none
          (memory stack free (mainVars pc a b t) input output diagnostics) =
        failure "stack underflow" [] free' input output diagnostics :=
    exec_pops_short rest main small few
  cases op
  case add | sub | mul | div =>
    obtain ⟨free', ends⟩ := pops ["b", "a"] [pushValue (.call _ [.name "a", .name "b"])]
      (by decide) short
    exact ⟨free', exec_seq_exit ends⟩
  case swap =>
    obtain ⟨free', ends⟩ := pops ["b", "a"] [pushValue (.name "b"), pushValue (.name "a")]
      (by decide) short
    exact ⟨free', exec_seq_exit ends⟩
  case jeq | jnq | jgt | jlt =>
    obtain ⟨free', ends⟩ := pops ["t", "b", "a"] [] (by decide) short
    exact ⟨free', exec_seq_exit ends⟩
  case set =>
    obtain ⟨free', ends⟩ := pops ["t", "a"] [] (by decide) short
    exact ⟨free', exec_seq_exit ends⟩
  case jmp => exact pops ["pc"] [.again] (by decide) short
  case get =>
    exact pops ["t"] [checkIndex, pushValue (.element "stack" (.name "t")), .leave] (by decide)
      short
  case dup =>
    obtain ⟨free', ends⟩ := pops ["a"] [pushValue (.name "a"), pushValue (.name "a")]
      (by decide) short
    exact ⟨free', exec_seq_exit ends⟩
  case pop | print | cprint =>
    obtain rfl : stack = [] := List.eq_nil_of_length_eq_zero (Nat.lt_one_iff.1 short)
    refine ⟨free, ?_⟩
    simp [opcodeBody, failure]
  case ppos | size | dbg | read | cread => exact absurd short (Nat.not_lt_zero _)

end Operands

/-! ## Opcodes -/

section Opcodes

variable {size fuel : Nat} {stack free : List Word} {input output diagnostics : Bytes}
  {pc a b t x y z : Word}

/-- A stack without its top value is small if the stack is. -/
lemma small_tail (small : (x :: stack).length < 2 ^ 63) : stack.length < 2 ^ 63 := by
  rw [List.length_cons] at small
  omega

/-- Two operands and their result. -/
theorem exec_binary {name : String} {r : Word} (bound : size < 2 ^ 63)
    (room : (y :: x :: stack).length ≤ size)
    (call : callFunction (libraryScope size fuel) name [.int .int64 x.toInt, .int .int64 y.toInt]
        (memory stack (x :: y :: free) (mainVars pc x y t) input output diagnostics) =
      .ok (.int .int64 r.toInt)
        (memory stack (x :: y :: free) (mainVars pc x y t) input output diagnostics)) :
    (binary name).exec (libraryScope size fuel) fuel none
        (memory (y :: x :: stack) free (mainVars pc a b t) input output diagnostics) =
      .ok .leave
        (memory (r :: stack) (y :: free) (mainVars pc x y t) input output diagnostics) := by
  have small : (y :: x :: stack).length < 2 ^ 63 := by omega
  have space : stack.length < size := by
    rw [List.length_cons, List.length_cons] at room
    omega
  simp [binary, exec_popInto_b small, exec_popInto_a (small_tail small), pushValue, call,
    call_push_room bound space]

/-- A call that ends the program between the operands and their result. -/
lemma exec_binary_exit {name : String} {status : Int} {s : State}
    (small : (y :: x :: stack).length < 2 ^ 63)
    (call : callFunction (libraryScope size fuel) name [.int .int64 x.toInt, .int .int64 y.toInt]
        (memory stack (x :: y :: free) (mainVars pc x y t) input output diagnostics) =
      .exit status s) :
    (binary name).exec (libraryScope size fuel) fuel none
        (memory (y :: x :: stack) free (mainVars pc a b t) input output diagnostics) =
      .exit status s := by
  simp [binary, exec_popInto_b small, exec_popInto_a (small_tail small), pushValue, call]

/-- A comparison of two operands, and a jump if it holds. -/
theorem exec_branch {op : BinOp} {taken : Bool} (strict : op ≠ .and ∧ op ≠ .or)
    (small : (z :: y :: x :: stack).length < 2 ^ 63)
    (compare : op.onCommon .int64 x.toInt y.toInt = some (.ofBool taken)) :
    (branch op).exec (libraryScope size fuel) fuel none
        (memory (z :: y :: x :: stack) free (mainVars pc a b t) input output diagnostics) =
      if taken then
        .ok .again (memory stack (x :: y :: z :: free) (mainVars z x y z) input output diagnostics)
      else
        .ok .leave (memory stack (x :: y :: z :: free) (mainVars pc x y z) input output
          diagnostics) := by
  have test := compare
  rw [← BinOp.apply_word (.inr rfl) (Word.inRange_toInt x) (Word.inRange_toInt y)] at test
  cases taken <;>
    simp [branch, popAll, exec_popInto_t small, exec_popInto_b (small_tail small),
      exec_popInto_a (small_tail (small_tail small)), Expr.eval_bin _ _ _ strict, test]

/-- What an index that names a value is. -/
lemma index_of_slot? {k : Fin stack.length} (inside : slot? stack y = some k) :
    ∃ n < stack.length, y.toInt = (n : Nat) ∧ (k : Nat) = stack.length - 1 - n := by
  obtain ⟨⟨low, high⟩, place⟩ := Option.dite_none_right_eq_some.1 inside
  refine ⟨y.toInt.toNat, by omega, (Int.toNat_of_nonneg low).symm, ?_⟩
  rw [← Option.some.inj place]

/-- A value in the place of its index. -/
theorem exec_get {k : Fin stack.length} {v : Word} (bound : size < 2 ^ 63)
    (room : (y :: stack).length ≤ size) (inside : slot? stack y = some k) (value : stack[k] = v) :
    (opcodeBody .get).exec (libraryScope size fuel) fuel none
        (memory (y :: stack) free (mainVars pc a b t) input output diagnostics) =
      .ok .leave (memory (v :: stack) free (mainVars pc a b y) input output diagnostics) := by
  have small : (y :: stack).length < 2 ^ 63 := by omega
  obtain ⟨n, low, index, place⟩ := index_of_slot? inside
  have element : (stack.reverse ++ y :: free)[n]? = some v := by
    rw [List.getElem?_append_left (by simpa using low), List.getElem?_reverse low, ← value,
      ← place]
    simp
  have read := readElement_memory .int64 element (mainVars pc a b y) input output diagnostics
  have space : stack.length < size := by
    rw [List.length_cons] at room
    omega
  rw [← index] at read
  simp [opcodeBody, checkIndex, pushValue, exec_popInto_t small,
    call_checkedIndex_inside (small_tail small) inside, read, call_push_room bound space]

/-- Reading a slot outside the stack ends the program. -/
lemma exec_get_outside (small : (y :: stack).length < 2 ^ 63) (outside : slot? stack y = none) :
    (opcodeBody .get).exec (libraryScope size fuel) fuel none
        (memory (y :: stack) free (mainVars pc a b t) input output diagnostics) =
      failure "invalid stack index" stack (y :: free) input output diagnostics := by
  simp [opcodeBody, checkIndex, exec_popInto_t small,
    call_checkedIndex_outside (small_tail small) outside, failure]

/-- A value stored at an index. -/
lemma exec_set {k : Fin stack.length} (small : (y :: x :: stack).length < 2 ^ 63)
    (inside : slot? stack y = some k) :
    (opcodeBody .set).exec (libraryScope size fuel) fuel none
        (memory (y :: x :: stack) free (mainVars pc a b t) input output diagnostics) =
      .ok .leave (memory (stack.set k x) (x :: y :: free) (mainVars pc x b y) input output
        diagnostics) := by
  obtain ⟨n, low, index, place⟩ := index_of_slot? inside
  have write := writeElement_memory .int64 x low (x :: y :: free) (mainVars pc x b y) input output
    diagnostics
  rw [← index, ← place] at write
  simp [opcodeBody, popAll, checkIndex, exec_popInto_t small, exec_popInto_a (small_tail small),
    call_checkedIndex_inside (small_tail (small_tail small)) inside, write]

/-- Writing a slot outside the stack ends the program. -/
lemma exec_set_outside (small : (y :: x :: stack).length < 2 ^ 63)
    (outside : slot? stack y = none) :
    (opcodeBody .set).exec (libraryScope size fuel) fuel none
        (memory (y :: x :: stack) free (mainVars pc a b t) input output diagnostics) =
      failure "invalid stack index" stack (x :: y :: free) input output diagnostics := by
  simp [opcodeBody, popAll, checkIndex, exec_popInto_t small, exec_popInto_a (small_tail small),
    call_checkedIndex_outside (small_tail (small_tail small)) outside, failure]

/-- A jump sets the program counter and goes on with the next turn. -/
lemma exec_jmp (small : (x :: stack).length < 2 ^ 63) :
    (opcodeBody .jmp).exec (libraryScope size fuel) fuel none
        (memory (x :: stack) free (mainVars pc a b t) input output diagnostics) =
      .ok .again (memory stack (x :: free) (mainVars x a b t) input output diagnostics) := by
  simp [opcodeBody, call_pop_cons small]

/-- The two top values are exchanged. -/
lemma exec_swap (bound : size < 2 ^ 63) (room : (y :: x :: stack).length ≤ size) :
    (opcodeBody .swap).exec (libraryScope size fuel) fuel none
        (memory (y :: x :: stack) free (mainVars pc a b t) input output diagnostics) =
      .ok .leave (memory (x :: y :: stack) free (mainVars pc x y t) input output diagnostics) := by
  have small : (y :: x :: stack).length < 2 ^ 63 := by omega
  rw [List.length_cons, List.length_cons] at room
  have space : stack.length < size := by omega
  have more : (y :: stack).length < size := by rwa [List.length_cons]
  simp [opcodeBody, pushValue, exec_popInto_b small, exec_popInto_a (small_tail small),
    call_push_room bound space, call_push_room bound more]

/-- The top value is dropped. -/
lemma exec_pop (small : (x :: stack).length < 2 ^ 63) :
    (opcodeBody .pop).exec (libraryScope size fuel) fuel none
        (memory (x :: stack) free (mainVars pc a b t) input output diagnostics) =
      .ok .leave (memory stack (x :: free) (mainVars pc a b t) input output diagnostics) := by
  simp [opcodeBody, call_pop_cons small]

/-- The top value is written in decimal. -/
lemma exec_print (small : (x :: stack).length < 2 ^ 63) :
    (opcodeBody .print).exec (libraryScope size fuel) fuel none
        (memory (x :: stack) free (mainVars pc a b t) input output diagnostics) =
      .ok .leave (memory stack (x :: free) (mainVars pc a b t) input
        (output ++ Utf8.encode x.text) diagnostics) := by
  have call : callFunction (libraryScope size fuel) "printf" = libraryCall "printf" :=
    call_library (by decide)
  simp [opcodeBody, call_pop_cons small, call, Word.text]

/-- The byte that is written is the low byte of the value. -/
lemma byteOf_uchar (n : Int) : byteOf (CType.uchar.convert n) = byteOf n := by
  have value : CType.uchar.convert n = n % 256 := by
    rw [CType.convert, UInt8.ofInt, UInt8.toNat_ofNat']
    omega
  rw [byteOf, value, Int.emod_emod, byteOf]

/-- The top value is written as a byte. -/
lemma exec_cprint (small : (x :: stack).length < 2 ^ 63) :
    (opcodeBody .cprint).exec (libraryScope size fuel) fuel none
        (memory (x :: stack) free (mainVars pc a b t) input output diagnostics) =
      .ok .leave (memory stack (x :: free) (mainVars pc a b t) input
        (output ++ [byteOf x.toInt]) diagnostics) := by
  have call : callFunction (libraryScope size fuel) "putchar" = libraryCall "putchar" :=
    call_library (by decide)
  simp [opcodeBody, call_pop_cons small, call, byteOf_uchar]

/-- The stack is shown on the diagnostics. -/
lemma exec_dbg (small : stack.length < 2 ^ 63) :
    Result.Is fuel stack.length
      (.ok .leave (memory stack free (mainVars pc a b t) input output
        (diagnostics ++ Utf8.encode (stackText stack.reverse ++ "\n"))))
      ((opcodeBody .dbg).exec (libraryScope size fuel) fuel none
        (memory stack free (mainVars pc a b t) input output diagnostics)) := by
  have shows : Result.Is fuel stack.length
      (.ok .next (memory stack free (mainVars pc a b t) input output
        (diagnostics ++ Utf8.encode (stackText stack.reverse ++ "\n"))))
      ((Stmt.expr (.call "dump_stack" [])).exec (libraryScope size fuel) fuel none
        (memory stack free (mainVars pc a b t) input output diagnostics)) :=
    .bind (call_dumpStack small) (.inl rfl)
  exact .seq shows (.inl (by simp))

/-! ### Pushes -/

/-- What becomes of a push at the end of an instruction. -/
def pushed (size : Nat) (v : Word) (stack free : List Word) (locals : List Variable)
    (input output diagnostics : Bytes) : Result Flow :=
  if stack.length < size then
    .ok .leave (memory (v :: stack) free.tail locals input output diagnostics)
  else failure "stack overflow" stack free input output diagnostics

/-- A value that is pushed once it is known. -/
lemma exec_pushValue {turns : Nat} {e : Expr} {s : State} {v : Word} {locals : List Variable}
    (bound : size < 2 ^ 63) (few : stack.length ≤ size)
    (capacity : stack.length + free.length = max size 1)
    (value : Result.Is fuel turns
      (.ok (.int .int64 v.toInt) (memory stack free locals input output diagnostics))
      (e.eval (libraryScope size fuel) s)) :
    Result.Is fuel turns (pushed size v stack free locals input output diagnostics)
      ((Stmt.ofList .lines [pushValue e, .leave]).exec (libraryScope size fuel) fuel none s) := by
  rcases value with ok | ⟨stops, few⟩
  · refine .inl ?_
    unfold pushed
    split
    · rename_i room
      obtain ⟨x, rest, rfl⟩ := List.exists_cons_of_length_pos
        (show 0 < free.length by omega)
      simp [pushValue, ok, call_push_room bound room]
    · rename_i full
      have many : size ≤ stack.length := Nat.not_lt.1 full
      simp [pushValue, ok, call_push_full bound (Nat.lt_of_le_of_lt few bound) many, failure]
  · exact .inr ⟨by simp [pushValue, stops], few⟩

/-- The evaluation of the value to be pushed ends the program. -/
lemma exec_pushValue_exit {turns : Nat} {e : Expr} {s s' : State} {status : Int}
    (value : Result.Is fuel turns (.exit status s') (e.eval (libraryScope size fuel) s)) :
    Result.Is fuel turns (.exit status s')
      ((Stmt.ofList .lines [pushValue e, .leave]).exec (libraryScope size fuel) fuel none s) := by
  rcases value with ends | ⟨stops, few⟩
  · exact .inl (by simp [pushValue, ends])
  · exact .inr ⟨by simp [pushValue, stops], few⟩

/-- The top value is pushed once more. -/
lemma exec_dup (bound : size < 2 ^ 63) (room : (x :: stack).length ≤ size)
    (capacity : (x :: stack).length + free.length = max size 1) :
    (opcodeBody .dup).exec (libraryScope size fuel) fuel none
        (memory (x :: stack) free (mainVars pc a b t) input output diagnostics) =
      pushed size x (x :: stack) free (mainVars pc x b t) input output diagnostics := by
  have small : (x :: stack).length < 2 ^ 63 := by omega
  have space : stack.length < size := by
    rw [List.length_cons] at room
    omega
  unfold pushed
  split
  · rename_i more
    obtain ⟨y, rest, rfl⟩ := List.exists_cons_of_length_pos (show 0 < free.length by omega)
    simp [opcodeBody, pushValue, exec_popInto_a small, call_push_room bound space,
      call_push_room bound more]
  · rename_i full
    have many : size ≤ (x :: stack).length := Nat.not_lt.1 full
    simp [opcodeBody, pushValue, exec_popInto_a small, call_push_room bound space,
      call_push_full bound small many, failure]

end Opcodes

end StackAsm.Compiler
