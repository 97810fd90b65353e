import StackAsm.Decimal

set_option autoImplicit false

/-!
# The instruction set

An instruction either pushes a constant or is one of 21 opcodes. Operands live on the stack; a
jump takes its target from the top, above the values it compares.

## Main definitions

* `StackAsm.Opcode` — the opcodes, with their spelling `StackAsm.Opcode.mnemonic`.
* `StackAsm.Opcode.ofMnemonic?` — the opcode that a word spells.
* `StackAsm.Instruction` — a push or an opcode.
* `StackAsm.Instruction.effect` — how many values an instruction takes and leaves.

## Main results

* `StackAsm.Opcode.mnemonic_injective`, `StackAsm.Opcode.ofMnemonic?_mnemonic` — the spelling
  names the opcode.
* `StackAsm.Opcode.all_getElem?_index` — the index of an opcode is its place in the list of all.
-/

namespace StackAsm

/-- The operations of the machine, in the order that numbers them. -/
inductive Opcode where
  /-- Adds the two values on top, wrapping. -/
  | add
  /-- Subtracts the top from the value below it, wrapping. -/
  | sub
  /-- Multiplies the two values on top, wrapping. -/
  | mul
  /-- Divides the value below the top by the top, toward zero. -/
  | div
  /-- Jumps to the address on top. -/
  | jmp
  /-- Jumps if the two values below the address are equal. -/
  | jeq
  /-- Jumps if the two values below the address differ. -/
  | jnq
  /-- Jumps if, of the two values below the address, the lower one is greater. -/
  | jgt
  /-- Jumps if, of the two values below the address, the lower one is less. -/
  | jlt
  /-- Replaces the index on top by the value it names, counting from the bottom. -/
  | get
  /-- Stores the value below the top at the index on top, counting from the bottom. -/
  | set
  /-- Pushes the top once more. -/
  | dup
  /-- Drops the top. -/
  | pop
  /-- Pushes the depth of the stack, the position that the pushed value takes. -/
  | ppos
  /-- Pushes the depth of the stack. -/
  | size
  /-- Exchanges the two values on top. -/
  | swap
  /-- Writes the whole stack to the diagnostics. -/
  | dbg
  /-- Writes the top in decimal and drops it. -/
  | print
  /-- Writes the low byte of the top and drops it. -/
  | cprint
  /-- Reads a decimal integer from the input. -/
  | read
  /-- Reads a byte from the input; -1 stands for its end. -/
  | cread
  deriving DecidableEq, Repr

namespace Opcode

/-- All opcodes, in the order that numbers them. -/
def all : List Opcode :=
  [add, sub, mul, div, jmp, jeq, jnq, jgt, jlt, get, set, dup, pop, ppos, size, swap, dbg, print,
    cprint, read, cread]

/-- The spelling of an opcode in source text. -/
def mnemonic : Opcode → String
  | add => "add"
  | sub => "sub"
  | mul => "mul"
  | div => "div"
  | jmp => "jmp"
  | jeq => "jeq"
  | jnq => "jnq"
  | jgt => "jgt"
  | jlt => "jlt"
  | get => "get"
  | set => "set"
  | dup => "dup"
  | pop => "pop"
  | ppos => "ppos"
  | size => "size"
  | swap => "swap"
  | dbg => "dbg"
  | print => "print"
  | cprint => "cprint"
  | read => "read"
  | cread => "cread"

/-- The opcode that `word` spells, if it spells one; spelling is case-sensitive. -/
def ofMnemonic? (word : String) : Option Opcode := all.find? fun op => op.mnemonic = word

/-- The number of an opcode: its place among all of them, from 0. -/
def index (op : Opcode) : Nat := all.idxOf op

/-- Whether an opcode takes the top of the stack as a jump target. -/
def isJump : Opcode → Bool
  | jmp | jeq | jnq | jgt | jlt => true
  | _ => false

/-- How many values an opcode takes from the stack, and how many it leaves instead. -/
def effect : Opcode → Nat × Nat
  | add | sub | mul | div => (2, 1)
  | jmp => (1, 0)
  | jeq | jnq | jgt | jlt => (3, 0)
  | get => (1, 1)
  | set => (2, 0)
  | dup => (1, 2)
  | pop => (1, 0)
  | ppos | size => (0, 1)
  | swap => (2, 2)
  | dbg => (0, 0)
  | print | cprint => (1, 0)
  | read | cread => (0, 1)

/-- The table of opcodes holds every one of them. -/
theorem mem_all (op : Opcode) : op ∈ all := by cases op <;> decide

/-- The mnemonic of an opcode names that opcode. -/
theorem ofMnemonic?_mnemonic (op : Opcode) : ofMnemonic? op.mnemonic = some op := by
  cases op <;> decide

/-- No two opcodes share a mnemonic. -/
theorem mnemonic_injective {a b : Opcode} (h : a.mnemonic = b.mnemonic) : a = b := by
  have := ofMnemonic?_mnemonic b
  rw [← h, ofMnemonic?_mnemonic a] at this
  exact Option.some.inj this

/-- An opcode stands in the table at its own index. -/
theorem all_getElem?_index (op : Opcode) : all[op.index]? = some op := by cases op <;> decide

end Opcode

/-- One step of a program: push a constant, or perform an opcode. -/
inductive Instruction where
  /-- Pushes the constant `n`. -/
  | push (n : Word)
  /-- Performs the opcode `op`. -/
  | op (op : Opcode)
  deriving DecidableEq, Repr

namespace Instruction

/-- The text of an instruction: the constant in decimal, or the mnemonic. -/
def text : Instruction → String
  | push n => n.text
  | op o => o.mnemonic

/-- How many values an instruction takes from the stack, and how many it leaves instead. -/
def effect : Instruction → Nat × Nat
  | push _ => (0, 1)
  | op o => o.effect

/-- Whether an instruction takes the top of the stack as a jump target. -/
def isJump : Instruction → Bool
  | push _ => false
  | op o => o.isJump

end Instruction

end StackAsm
