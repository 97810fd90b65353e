import StackAsm.Instruction
import StackAsm.Location

set_option autoImplicit false

/-!
# Programs

A program is a table of instructions at consecutive addresses and, beside it, a table that says
where each instruction stands in the source. The tables have equal length in every program that the
assembler makes; a program put together by hand or decoded from an image need not have that.

## Main definitions

* `StackAsm.Program` — a start address and the two tables.
* `StackAsm.Program.endAddress?` — the address behind the last instruction, if there is one.
* `StackAsm.Program.entries` — the program as a list of addressed instructions.
-/

namespace StackAsm

/-- Instructions at consecutive addresses, with the places they come from. -/
structure Program where
  /-- The address of the first instruction. -/
  start : Address
  /-- The instructions, in the order of their addresses. -/
  instructions : Array Instruction
  /-- For each instruction, the place it comes from. -/
  locations : Array Location
  deriving DecidableEq, Repr

namespace Program

/-- A program without instructions. -/
def empty (start : Address) : Program := ⟨start, #[], #[]⟩

/-- The number of instructions. -/
def length (p : Program) : Nat := p.instructions.size

/-- Whether a program has no instructions. -/
def isEmpty (p : Program) : Bool := p.instructions.isEmpty

/-- The address behind the last instruction; there is none if it is no word. -/
def endAddress? (p : Program) : Option Address := Word.ofInt? (p.start.toInt + p.length)

/-- An instruction of a program with its address and the place it comes from. -/
structure Entry where
  /-- The place of the instruction in its program, from 0. -/
  index : Nat
  /-- The address of the instruction. -/
  address : Address
  /-- The instruction. -/
  instruction : Instruction
  /-- Where the instruction comes from. -/
  location : Location
  deriving DecidableEq, Repr

/-- The instructions of a program that have a location, in order. Addresses wrap around behind the
last word. -/
def entries (p : Program) : List Entry :=
  (p.instructions.zip p.locations).toList.zipIdx.map fun ((i, l), k) =>
    ⟨k, p.start + Int64.ofNat k, i, l⟩

/-- The program with the given instructions and the places they come from. -/
def ofList (start : Address) (code : List (Instruction × Location)) : Program :=
  ⟨start, (code.map Prod.fst).toArray, (code.map Prod.snd).toArray⟩

end Program

end StackAsm
