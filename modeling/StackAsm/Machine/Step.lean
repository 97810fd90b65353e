import StackAsm.Machine.Basic

set_option autoImplicit false

/-!
# Executing one instruction

An instruction looks at the top of the stack, and an instruction that fails leaves the stack and the
program counter as they were. Every opcode has a line of its own in `Machine.execute`, which names
the values that it takes; a stack that is too short for all of them is an underflow.

## Main definitions

* `StackAsm.slot?` — the value that an index from the bottom names.
* `StackAsm.Machine.execute` — the meaning of each instruction.
* `StackAsm.Machine.step` — executing the instruction at the program counter.
-/

namespace StackAsm

/-- The place, from the top, of the value that `index` names from the bottom, if it names one. -/
def slot? (stack : List Word) (index : Word) : Option (Fin stack.length) :=
  if h : 0 ≤ index.toInt ∧ index.toInt < stack.length then
    some ⟨stack.length - 1 - index.toInt.toNat, by omega⟩
  else none

namespace Machine

/-- Goes on to the next instruction with the given stack. -/
def advance (m : Machine) (stack : List Word) : Outcome :=
  .done { m with stack := stack, pc := m.pc + 1 }

/-- Goes on at the address `target` with the given stack. -/
def jump (m : Machine) (target : Address) (stack : List Word) : Outcome :=
  .done { m with stack := stack, pc := target }

/-- Goes on at the address `target` if `taken`, else at the next instruction. -/
def branch (m : Machine) (taken : Bool) (target : Address) (stack : List Word) : Outcome :=
  if taken then m.jump target stack else m.advance stack

/-- Reads an integer off the input and pushes it. -/
def readInteger (m : Machine) (location : Location) : Outcome :=
  let numeral := Numeral.split m.input
  let read := { m with input := numeral.rest }
  match numeral.value with
  | .ok n => read.advance (n :: m.stack)
  | .error fault => .failed (.invalidInput fault location) read

/-- Reads a byte off the input and pushes it, or -1 at the end of the input. -/
def readByte (m : Machine) : Outcome :=
  match m.input with
  | [] => m.advance (-1 :: m.stack)
  | b :: rest => { m with input := rest }.advance (Int64.ofNat b.toNat :: m.stack)

/-- Executes an instruction that comes from `location`. -/
def execute (m : Machine) (instruction : Instruction) (location : Location) : Outcome :=
  match instruction with
  | .push n => m.advance (n :: m.stack)
  | .op opcode =>
    match opcode, m.stack with
    | .add, b :: a :: s => m.advance ((a + b) :: s)
    | .sub, b :: a :: s => m.advance ((a - b) :: s)
    | .mul, b :: a :: s => m.advance ((a * b) :: s)
    | .div, b :: a :: s =>
      if b = 0 then .failed (.divisionByZero location) m else m.advance ((a / b) :: s)
    | .jmp, target :: s => m.jump target s
    | .jeq, target :: b :: a :: s => m.branch (a = b) target s
    | .jnq, target :: b :: a :: s => m.branch (a ≠ b) target s
    | .jgt, target :: b :: a :: s => m.branch (a > b) target s
    | .jlt, target :: b :: a :: s => m.branch (a < b) target s
    | .get, index :: s =>
      match slot? s index with
      | some k => m.advance (s[k] :: s)
      | none => .failed (.invalidIndex index s.length location) m
    | .set, index :: value :: s =>
      match slot? s index with
      | some k => m.advance (s.set k value)
      | none => .failed (.invalidIndex index s.length location) m
    | .dup, a :: s => m.advance (a :: a :: s)
    | .pop, _ :: s => m.advance s
    | .ppos, s => m.advance (Int64.ofNat s.length :: s)
    | .size, s => m.advance (Int64.ofNat s.length :: s)
    | .swap, b :: a :: s => m.advance (a :: b :: s)
    | .dbg, s => (m.report (Utf8.encode (m.stackText ++ "\n"))).andThen fun m => m.advance s
    | .print, a :: s => (m.write (Utf8.encode a.text)).andThen fun m => m.advance s
    | .cprint, a :: s => (m.write [UInt8.ofNat (a.toInt % 256).toNat]).andThen fun m => m.advance s
    | .read, _ => m.readInteger location
    | .cread, _ => m.readByte
    | _, _ => .failed (.stackUnderflow instruction location) m

/-- Executes the instruction at the program counter. -/
def step (m : Machine) : Outcome :=
  match m.instruction?, m.location? with
  | some i, some l => m.execute i l
  | _, _ => .failed (.endOfProgram m.pc) m

end Machine

end StackAsm
