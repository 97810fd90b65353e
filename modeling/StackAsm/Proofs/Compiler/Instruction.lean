import StackAsm.Proofs.Compiler.Opcode
import StackAsm.Proofs.Run

set_option autoImplicit false

/-!
# The statements of an instruction do what it does

What a compiled program writes and reads for an instruction is the same as on a machine, and so is
the stack afterwards, if it fits into the array.

## Main definitions

* `StackAsm.Compiler.Holds` — a state of a compiled program holds what a machine holds.
* `StackAsm.Compiler.Mirrors` — the end of the statements of an instruction, for what becomes of
  the instruction on a machine.

## Main results

* `StackAsm.Compiler.mirrors_instructionBody` — the statements of an instruction end as they should.
-/

namespace StackAsm

namespace Compiler

open C

/-- A state of a compiled program whose program counter is `pc` holds the stack and the streams of a
machine. -/
def Holds (size : Nat) (pc : Address) (m : Machine) (s : State) : Prop :=
  ∃ free a b t, m.stack.length + free.length = max size 1 ∧
    s = memory m.stack free (mainVars pc a b t) m.input m.output.written.toList
      m.diagnostics.written.toList

/-- A compiled program ends with a message, having written before what a machine has written. -/
def FailsWith {α : Type} (message : String) (m : Machine) (r : Result α) : Prop :=
  ∃ s, r = .exit 1 s ∧ s.output = m.output.written.toList ∧
    s.diagnostics = m.diagnostics.written.toList ++ Utf8.encode ("Error: " ++ message ++ "\n")

/-- The message with which a compiled program ends where a machine fails, if an instruction of the
program raised the error. -/
def failureMessage? : RuntimeError → Option String
  | .stackUnderflow _ _ => some "stack underflow"
  | .divisionByZero _ => some "division by zero"
  | .invalidIndex _ _ _ => some "invalid stack index"
  | .invalidInput _ _ => some "invalid input"
  | .endOfProgram _ | .addressMismatch _ _ | .addressOverflow _ _ | .stepLimitExceeded _
  | .stream _ => none

/-- How the statements of an instruction end, for what becomes of it on the machine `m`. -/
inductive Mirrors (size : Nat) (m : Machine) : Outcome → Result Flow → Prop where
  /-- The program counter is to be moved on. -/
  | leave {m' : Machine} {s : State} (few : m'.stack.length ≤ size) (next : m'.pc = m.pc + 1)
    (holds : Holds size m.pc m' s) : Mirrors size m (.done m') (.ok .leave s)
  /-- The program counter is set. -/
  | again {m' : Machine} {s : State} (few : m'.stack.length ≤ size)
    (holds : Holds size m'.pc m' s) : Mirrors size m (.done m') (.ok .again s)
  /-- The new stack does not fit into the array. -/
  | overflow {m' : Machine} {r : Result Flow} (many : size < m'.stack.length)
    (fails : FailsWith "stack overflow" m r) : Mirrors size m (.done m') r
  /-- The instruction fails. -/
  | failed {e : RuntimeError} {m' : Machine} {message : String} {r : Result Flow}
    (raised : failureMessage? e = some message) (fails : FailsWith message m' r) :
    Mirrors size m (.failed e m') r

/-- No instruction goes on with the statement behind it. -/
lemma Mirrors.ne_next {size : Nat} {m : Machine} {o : Outcome} {r : Result Flow}
    (mirrors : Mirrors size m o r) (s : State) : r ≠ .ok .next s := by
  cases mirrors with
  | leave few next holds => simp
  | again few holds => simp
  | overflow many fails =>
    obtain ⟨s', rfl, -⟩ := fails
    simp
  | failed raised fails =>
    obtain ⟨s', rfl, -⟩ := fails
    simp

section Mirrors

variable {size : Nat} {m : Machine} {stack free : List Word} {a b t v : Word}

/-- A failure fails with its message, whatever of the input is left. -/
lemma failsWith_failure {α : Type} {message : String} {unread : Bytes} :
    FailsWith message m (failure message stack free unread m.output.written.toList
      m.diagnostics.written.toList : Result α) :=
  ⟨_, rfl, rfl, rfl⟩

/-- The streams may change before the program counter moves on. -/
lemma mirrors_advance {n : Machine} (place : n.pc = m.pc) (few : stack.length ≤ size)
    (capacity : stack.length + free.length = max size 1) :
    Mirrors size m (n.advance stack)
      (.ok .leave (memory stack free (mainVars m.pc a b t) n.input n.output.written.toList
        n.diagnostics.written.toList)) :=
  .leave few (congrArg (· + 1) place) ⟨free, a, b, t, capacity, rfl⟩

/-- Where the program counter is set and the loop goes on, a jump is mirrored. -/
lemma mirrors_jump (few : stack.length ≤ size)
    (capacity : stack.length + free.length = max size 1) :
    Mirrors size m (m.jump v stack)
      (.ok .again (memory stack free (mainVars v a b t) m.input m.output.written.toList
        m.diagnostics.written.toList)) :=
  .again few ⟨free, a, b, t, capacity, rfl⟩

/-- A branch is mirrored, whether it is taken or not. -/
lemma mirrors_branch {taken : Bool} (few : stack.length ≤ size)
    (capacity : stack.length + free.length = max size 1) :
    Mirrors size m (m.branch taken v stack)
      (if taken then
        .ok .again (memory stack free (mainVars v a b t) m.input m.output.written.toList
          m.diagnostics.written.toList)
      else
        .ok .leave (memory stack free (mainVars m.pc a b t) m.input m.output.written.toList
          m.diagnostics.written.toList)) := by
  unfold Machine.branch
  split
  · exact mirrors_jump few capacity
  · exact mirrors_advance rfl few capacity

/-- A value is pushed after some of the input is read. -/
lemma mirrors_pushed (capacity : m.stack.length + free.length = max size 1) (rest : Bytes) :
    Mirrors size m ({ m with input := rest }.advance (v :: m.stack))
      (pushed size v m.stack free (mainVars m.pc a b t) rest m.output.written.toList
        m.diagnostics.written.toList) := by
  unfold pushed
  split
  · rename_i room
    refine .leave room rfl ⟨free.tail, a, b, t, ?_, rfl⟩
    show (v :: m.stack).length + free.tail.length = max size 1
    rw [List.length_cons, List.length_tail]
    omega
  · rename_i full
    exact .overflow (Nat.lt_succ_of_le (Nat.not_lt.1 full)) failsWith_failure

end Mirrors

section Instruction

open Machine

variable {size fuel : Nat} {m : Machine} {i : Instruction} {l : Location} {free : List Word}
  {a b t : Word}

/-- The statements of an instruction, executed in a state, end as they should. -/
def Agrees (size fuel : Nat) (m : Machine) (i : Instruction) (l : Location) (s : State) : Prop :=
  ∃ r, Mirrors size m (m.execute i l) r ∧
    Result.Is fuel (m.input.length + m.stack.length) r
      ((instructionBody i).exec (libraryScope size fuel) fuel none s)

/-- Statements agree with an instruction if their result mirrors its outcome. -/
lemma Agrees.intro {s : State} {r : Result Flow} {o : Outcome} (outcome : m.execute i l = o)
    (run : (instructionBody i).exec (libraryScope size fuel) fuel none s = r)
    (mirrors : Mirrors size m o r) : Agrees size fuel m i l s :=
  ⟨r, outcome ▸ mirrors, .inl run⟩

/-- The state that holds a machine with the given stack. -/
def holding (m : Machine) (stack free : List Word) (a b t : Word) : State :=
  memory stack free (mainVars m.pc a b t) m.input m.output.written.toList
    m.diagnostics.written.toList

/-- What reading a byte pushes. -/
lemma exists_readByte (m : Machine) : ∃ w : Word, w.toInt = front m.input ∧
    m.readByte = { m with input := m.input.tail }.advance (w :: m.stack) := by
  obtain ⟨code, pc, stack, budget, input, output, diagnostics⟩ := m
  cases input with
  | nil => exact ⟨-1, rfl, rfl⟩
  | cons c rest =>
    have small := c.toNat_lt
    exact ⟨Int64.ofNat c.toNat, Int64.toInt_ofNat_of_lt (by omega), rfl⟩

section Room

variable (bound : size < 2 ^ 63) (few : m.stack.length ≤ size)

include bound few

/-- An opcode that lacks operands agrees with its statements. -/
lemma agrees_short {op : Opcode} (short : m.stack.length < op.effect.1) :
    Agrees size fuel m (.op op) l (holding m m.stack free a b t) := by
  obtain ⟨free', run⟩ : ∃ free', (opcodeBody op).exec (libraryScope size fuel) fuel none
      (holding m m.stack free a b t) =
      failure "stack underflow" [] free' m.input m.output.written.toList
        m.diagnostics.written.toList :=
    exec_opcodeBody_short op (Nat.lt_of_le_of_lt few bound) short
  exact .intro (execute_of_short (i := .op op) short) run (.failed rfl failsWith_failure)

variable (capacity : m.stack.length + free.length = max size 1) {op : Opcode} {x y z r : Word}
  {s : List Word}

include capacity

/-! ### Arithmetic -/

/-- An opcode that combines two values agrees with the call of the function for them. -/
lemma agrees_binary {name : String} (top : m.stack = y :: x :: s)
    (outcome : m.execute (.op op) l = m.advance (r :: s)) (body : opcodeBody op = binary name)
    (call : ∀ {stack free : List Word} {locals : List Variable} {input output diagnostics : Bytes},
      callFunction (libraryScope size fuel) name [.int .int64 x.toInt, .int .int64 y.toInt]
        (memory stack free locals input output diagnostics) =
      .ok (.int .int64 r.toInt) (memory stack free locals input output diagnostics)) :
    Agrees size fuel m (.op op) l (holding m m.stack free a b t) := by
  rw [top] at few capacity ⊢
  have run : (opcodeBody op).exec (libraryScope size fuel) fuel none
      (holding m (y :: x :: s) free a b t) = .ok .leave (holding m (r :: s) (y :: free) x y t) := by
    rw [body]
    exact exec_binary bound few call
  simp only [List.length_cons] at few capacity
  refine .intro outcome run (mirrors_advance rfl ?_ ?_)
  · rw [List.length_cons]
    omega
  · rw [List.length_cons, List.length_cons]
    omega

/-- A division agrees with its statements. -/
lemma agrees_div (top : m.stack = y :: x :: s) :
    Agrees size fuel m (.op .div) l (holding m m.stack free a b t) := by
  by_cases zero : y = 0
  · subst zero
    have outcome : m.execute (.op .div) l = .failed (.divisionByZero l) m := by
      simp only [execute, top, if_pos]
    have small := Nat.lt_of_le_of_lt few bound
    rw [top] at small ⊢
    exact .intro outcome (exec_binary_exit small (call_wrapDiv_zero x))
      (.failed rfl failsWith_failure)
  · have outcome : m.execute (.op .div) l = m.advance ((x / y) :: s) := by
      simp only [execute, top, if_neg zero]
    exact agrees_binary bound few capacity top outcome rfl (call_wrapDiv zero)

/-! ### Jumps -/

/-- A jump agrees with its statements. -/
lemma agrees_jmp (top : m.stack = x :: s) :
    Agrees size fuel m (.op .jmp) l (holding m m.stack free a b t) := by
  have outcome : m.execute (.op .jmp) l = m.jump x s := by simp only [execute, top]
  have small := Nat.lt_of_le_of_lt few bound
  rw [top] at few capacity small ⊢
  rw [List.length_cons] at few capacity
  refine .intro outcome (exec_jmp small) (mirrors_jump (by omega) ?_)
  rw [List.length_cons]
  omega

/-- A branch agrees with its statements if the comparison in them tells whether it is taken. -/
lemma agrees_branch {compare : BinOp} {taken : Bool} (top : m.stack = z :: y :: x :: s)
    (outcome : m.execute (.op op) l = m.branch taken z s) (body : opcodeBody op = branch compare)
    (strict : compare ≠ .and ∧ compare ≠ .or)
    (value : compare.onCommon .int64 x.toInt y.toInt = some (.ofBool taken)) :
    Agrees size fuel m (.op op) l (holding m m.stack free a b t) := by
  have small := Nat.lt_of_le_of_lt few bound
  rw [top] at few capacity small ⊢
  simp only [List.length_cons] at few capacity
  have fits : s.length ≤ size := by omega
  have kept : s.length + (x :: y :: z :: free).length = max size 1 := by
    simp only [List.length_cons]
    omega
  refine .intro outcome ?_ (mirrors_branch (a := x) (b := y) (t := z) fits kept)
  rw [instructionBody, body]
  exact exec_branch strict small value

/-! ### Values that are named by an index -/

/-- Reading a slot agrees with its statements. -/
lemma agrees_get (top : m.stack = y :: s) :
    Agrees size fuel m (.op .get) l (holding m m.stack free a b t) := by
  have small := Nat.lt_of_le_of_lt few bound
  cases inside : slot? s y with
  | none =>
    have outcome : m.execute (.op .get) l = .failed (.invalidIndex y s.length l) m := by
      simp only [execute, top, inside]
    rw [top] at small ⊢
    exact .intro outcome (exec_get_outside small inside) (.failed rfl failsWith_failure)
  | some k =>
    have outcome : m.execute (.op .get) l = m.advance (s[k] :: s) := by
      simp only [execute, top, inside]
    rw [top] at few capacity ⊢
    exact .intro outcome (exec_get bound few inside rfl) (mirrors_advance rfl few capacity)

/-- Writing a slot agrees with its statements. -/
lemma agrees_set (top : m.stack = y :: x :: s) :
    Agrees size fuel m (.op .set) l (holding m m.stack free a b t) := by
  have small := Nat.lt_of_le_of_lt few bound
  cases inside : slot? s y with
  | none =>
    have outcome : m.execute (.op .set) l = .failed (.invalidIndex y s.length l) m := by
      simp only [execute, top, inside]
    rw [top] at small ⊢
    exact .intro outcome (exec_set_outside small inside) (.failed rfl failsWith_failure)
  | some k =>
    have outcome : m.execute (.op .set) l = m.advance (s.set k x) := by
      simp only [execute, top, inside]
    rw [top] at few capacity small ⊢
    simp only [List.length_cons] at few capacity
    refine .intro outcome (exec_set small inside) (mirrors_advance rfl ?_ ?_)
    · rw [List.length_set]
      omega
    · simp only [List.length_set, List.length_cons]
      omega

/-! ### The stack -/

/-- Copying the top value agrees with its statements. -/
lemma agrees_dup (top : m.stack = x :: s) :
    Agrees size fuel m (.op .dup) l (holding m m.stack free a b t) := by
  have outcome : m.execute (.op .dup) l = m.advance (x :: m.stack) := by
    simp only [execute, top]
  have run : (opcodeBody .dup).exec (libraryScope size fuel) fuel none
      (holding m (x :: s) free a b t) = pushed size x (x :: s) free (mainVars m.pc x b t) m.input
        m.output.written.toList m.diagnostics.written.toList :=
    exec_dup bound (top ▸ few) (top ▸ capacity)
  rw [← top] at run
  exact .intro outcome run (mirrors_pushed capacity m.input)

/-- Dropping the top value agrees with its statements. -/
lemma agrees_pop (top : m.stack = x :: s) :
    Agrees size fuel m (.op .pop) l (holding m m.stack free a b t) := by
  have outcome : m.execute (.op .pop) l = m.advance s := by simp only [execute, top]
  have small := Nat.lt_of_le_of_lt few bound
  rw [top] at few capacity small ⊢
  rw [List.length_cons] at few capacity
  refine .intro outcome (exec_pop small) (mirrors_advance rfl (by omega) ?_)
  rw [List.length_cons]
  omega

/-- Exchanging the two top values agrees with its statements. -/
lemma agrees_swap (top : m.stack = y :: x :: s) :
    Agrees size fuel m (.op .swap) l (holding m m.stack free a b t) := by
  have outcome : m.execute (.op .swap) l = m.advance (x :: y :: s) := by
    simp only [execute, top]
  rw [top] at few capacity ⊢
  exact .intro outcome (exec_swap bound few) (mirrors_advance rfl few capacity)

/-- An instruction that pushes a value, which it may read from the input. -/
lemma agrees_pushValue {e : Expr} {rest : Bytes}
    (outcome : m.execute i l = { m with input := rest }.advance (r :: m.stack))
    (body : instructionBody i = .ofList .lines [pushValue e, .leave])
    (value : Result.Is fuel m.input.length
      (.ok (.int .int64 r.toInt) (memory m.stack free (mainVars m.pc a b t) rest
        m.output.written.toList m.diagnostics.written.toList))
      (e.eval (libraryScope size fuel) (holding m m.stack free a b t))) :
    Agrees size fuel m i l (holding m m.stack free a b t) := by
  have run := exec_pushValue bound few capacity value
  rw [← body] at run
  refine ⟨_, ?_, run.mono (Nat.le_add_right _ _)⟩
  rw [outcome]
  exact mirrors_pushed capacity rest

/-- An opcode that pushes the depth of the stack. -/
lemma agrees_depth
    (outcome : m.execute (.op op) l = m.advance (Int64.ofNat m.stack.length :: m.stack))
    (body : opcodeBody op = .ofList .lines [pushValue (.name "sp"), .leave]) :
    Agrees size fuel m (.op op) l (holding m m.stack free a b t) := by
  have depth : (Int64.ofNat m.stack.length).toInt = m.stack.length :=
    Int64.toInt_ofNat_of_lt (Nat.lt_of_le_of_lt few bound)
  have value : (Expr.name "sp").eval (libraryScope size fuel) (holding m m.stack free a b t) =
      .ok (.int .int64 (Int64.ofNat m.stack.length).toInt) (holding m m.stack free a b t) := by
    rw [depth]
    simp [holding]
  exact agrees_pushValue bound few capacity outcome body (.inl value)

/-! ### Streams -/

/-- Showing the stack agrees with its statements. -/
lemma agrees_dbg (unlimited : m.Unlimited) :
    Agrees size fuel m (.op .dbg) l (holding m m.stack free a b t) := by
  have outcome : m.execute (.op .dbg) l =
      { m with diagnostics := m.diagnostics.write (Utf8.encode (m.stackText ++ "\n")) }.advance
        m.stack := by
    rw [execute, report_of_unlimited unlimited]
    rfl
  have small := Nat.lt_of_le_of_lt few bound
  refine ⟨_, ?_, (exec_dbg small).mono (Nat.le_add_left _ _)⟩
  rw [outcome, ← Sink.written_write_of_unlimited unlimited.diagnostics]
  exact mirrors_advance rfl few capacity

omit bound in
/-- An opcode that writes a value. -/
lemma agrees_write {bytes : Bytes} (unlimited : m.Unlimited) (top : m.stack = x :: s)
    (outcome : m.execute (.op op) l = (m.write bytes).andThen fun m => m.advance s)
    (run : (opcodeBody op).exec (libraryScope size fuel) fuel none
        (holding m (x :: s) free a b t) =
      .ok .leave (memory s (x :: free) (mainVars m.pc a b t) m.input
        (m.output.written.toList ++ bytes) m.diagnostics.written.toList)) :
    Agrees size fuel m (.op op) l (holding m m.stack free a b t) := by
  rw [write_of_unlimited unlimited] at outcome
  rw [top] at few capacity ⊢
  rw [List.length_cons] at few capacity
  refine .intro outcome run ?_
  rw [← Sink.written_write_of_unlimited unlimited.output]
  refine mirrors_advance rfl (by omega) ?_
  rw [List.length_cons]
  omega

/-- Reading an integer agrees with its statements. -/
lemma agrees_read : Agrees size fuel m (.op .read) l (holding m m.stack free a b t) := by
  obtain ⟨unread, call⟩ := call_readInt size fuel m.stack free (mainVars m.pc a b t) m.input
    m.output.written.toList m.diagnostics.written.toList
  cases value : (Numeral.split m.input).value with
  | ok w =>
    have outcome : m.execute (.op .read) l =
        { m with input := (Numeral.split m.input).rest }.advance (w :: m.stack) := by
      simp only [execute, readInteger, value]
    rw [value] at call
    exact agrees_pushValue bound few capacity outcome rfl call
  | error fault =>
    have outcome : m.execute (.op .read) l =
        .failed (.invalidInput fault l) { m with input := (Numeral.split m.input).rest } := by
      simp only [execute, readInteger, value]
    rw [value] at call
    have run := exec_pushValue_exit (e := .call "read_int" []) call
    exact ⟨_, outcome ▸ .failed rfl failsWith_failure, run.mono (Nat.le_add_right _ _)⟩

/-- Reading a byte agrees with its statements. -/
lemma agrees_cread : Agrees size fuel m (.op .cread) l (holding m m.stack free a b t) := by
  have call := call_readChar size fuel m.stack free (mainVars m.pc a b t) m.input
    m.output.written.toList m.diagnostics.written.toList
  obtain ⟨w, value, outcome⟩ := exists_readByte m
  rw [← value] at call
  exact agrees_pushValue bound few capacity outcome rfl (.inl call)

/-! ### All opcodes -/

/-- The statements of an opcode that finds its operands end as they should. -/
lemma agrees_opcode (unlimited : m.Unlimited) (op : Opcode)
    (enough : op.effect.1 ≤ m.stack.length) :
    Agrees size fuel m (.op op) l (holding m m.stack free a b t) := by
  have small := Nat.lt_of_le_of_lt few bound
  cases op
  case add =>
    obtain ⟨y, x, s, top⟩ := exists_operands_two enough
    have outcome : m.execute (.op .add) l = m.advance ((x + y) :: s) := by simp only [execute, top]
    exact agrees_binary bound few capacity top outcome rfl (call_wrapAdd x y)
  case sub =>
    obtain ⟨y, x, s, top⟩ := exists_operands_two enough
    have outcome : m.execute (.op .sub) l = m.advance ((x - y) :: s) := by simp only [execute, top]
    exact agrees_binary bound few capacity top outcome rfl (call_wrapSub x y)
  case mul =>
    obtain ⟨y, x, s, top⟩ := exists_operands_two enough
    have outcome : m.execute (.op .mul) l = m.advance ((x * y) :: s) := by simp only [execute, top]
    exact agrees_binary bound few capacity top outcome rfl (call_wrapMul x y)
  case div =>
    obtain ⟨y, x, s, top⟩ := exists_operands_two enough
    exact agrees_div bound few capacity top
  case jmp =>
    obtain ⟨x, s, top⟩ := exists_operand enough
    exact agrees_jmp bound few capacity top
  case jeq =>
    obtain ⟨z, y, x, s, top⟩ := exists_operands_three enough
    have outcome : m.execute (.op .jeq) l = m.branch (x = y) z s := by simp only [execute, top]
    exact agrees_branch bound few capacity top outcome rfl (by decide)
      (by simp [BinOp.onCommon, Int64.toInt_inj])
  case jnq =>
    obtain ⟨z, y, x, s, top⟩ := exists_operands_three enough
    have outcome : m.execute (.op .jnq) l = m.branch (x ≠ y) z s := by simp only [execute, top]
    exact agrees_branch bound few capacity top outcome rfl (by decide)
      (by simp [BinOp.onCommon, Int64.toInt_inj])
  case jgt =>
    obtain ⟨z, y, x, s, top⟩ := exists_operands_three enough
    have outcome : m.execute (.op .jgt) l = m.branch (x > y) z s := by simp only [execute, top]
    exact agrees_branch bound few capacity top outcome rfl (by decide)
      (by simp [BinOp.onCommon, Int64.lt_iff_toInt_lt])
  case jlt =>
    obtain ⟨z, y, x, s, top⟩ := exists_operands_three enough
    have outcome : m.execute (.op .jlt) l = m.branch (x < y) z s := by simp only [execute, top]
    exact agrees_branch bound few capacity top outcome rfl (by decide)
      (by simp [BinOp.onCommon, Int64.lt_iff_toInt_lt])
  case get =>
    obtain ⟨y, s, top⟩ := exists_operand enough
    exact agrees_get bound few capacity top
  case set =>
    obtain ⟨y, x, s, top⟩ := exists_operands_two enough
    exact agrees_set bound few capacity top
  case dup =>
    obtain ⟨x, s, top⟩ := exists_operand enough
    exact agrees_dup bound few capacity top
  case pop =>
    obtain ⟨x, s, top⟩ := exists_operand enough
    exact agrees_pop bound few capacity top
  case swap =>
    obtain ⟨y, x, s, top⟩ := exists_operands_two enough
    exact agrees_swap bound few capacity top
  case ppos | size => exact agrees_depth bound few capacity (by simp only [execute]) rfl
  case dbg => exact agrees_dbg bound few capacity unlimited
  case print =>
    obtain ⟨x, s, top⟩ := exists_operand enough
    have outcome : m.execute (.op .print) l =
        (m.write (Utf8.encode x.text)).andThen fun m => m.advance s := by
      simp only [execute, top]
    exact agrees_write few capacity unlimited top outcome (exec_print (top ▸ small))
  case cprint =>
    obtain ⟨x, s, top⟩ := exists_operand enough
    have outcome : m.execute (.op .cprint) l =
        (m.write [byteOf x.toInt]).andThen fun m => m.advance s := by
      simp only [execute, top]
      rfl
    exact agrees_write few capacity unlimited top outcome (exec_cprint (top ▸ small))
  case read => exact agrees_read bound few capacity
  case cread => exact agrees_cread bound few capacity

end Room

/-- **The statements of an instruction do what it does**, in a state that holds the machine, as long
as the stack fits into the array; the loops in them need no more turns than there are bytes to be
read and values to be shown. -/
theorem mirrors_instructionBody (fuel : Nat) (i : Instruction) (l : Location) {s : State}
    (unlimited : m.Unlimited) (bound : size < 2 ^ 63) (few : m.stack.length ≤ size)
    (holds : Holds size m.pc m s) : Agrees size fuel m i l s := by
  obtain ⟨free, a, b, t, capacity, rfl⟩ := holds
  cases i with
  | push n =>
    have outcome : m.execute (.push n) l = m.advance (n :: m.stack) := by simp only [execute]
    exact agrees_pushValue bound few capacity outcome rfl (.inl (Eval.pure_run _ _))
  | op op =>
    rcases Nat.lt_or_ge m.stack.length op.effect.1 with short | enough
    · exact agrees_short bound few short
    · exact agrees_opcode bound few capacity unlimited op enough

end Instruction

end Compiler

end StackAsm
