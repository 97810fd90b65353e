import StackAsm.Image.Reader
import StackAsm.Program

set_option autoImplicit false

/-!
# Program images

An image is a program as a byte string: the start address, the instructions and the locations, in
this order. An instruction is the number 0 and the constant that it pushes, or the number 1 and the
number of its opcode; a location is the name of its file, the line and the column. Signed integers
are folded into natural numbers first.

Decoding refuses a program whose tables differ in length and one whose last instruction has no
address behind it, so what it yields can be loaded. Bytes behind the last location are ignored.

## Main definitions

* `StackAsm.Program.image` — the image of a program.
* `StackAsm.Program.ofImage` — the program of an image.
* `StackAsm.ImageError` — why bytes are no image.
-/

namespace StackAsm

/-- Why bytes are no image of a program. -/
inductive ImageError where
  /-- The bytes do not hold the parts of a program. -/
  | decode (fault : Image.Fault)
  /-- There are more instructions than locations, or fewer. -/
  | mismatch (instructions locations : Nat)
  /-- The address behind the last instruction is no word. -/
  | addressOverflow (start : Address) (length : Nat)
  deriving DecidableEq, Repr

/-- The message of an error in an image. -/
def ImageError.message : ImageError → String
  | decode fault => "invalid program image: " ++ fault.message
  | mismatch instructions locations =>
    "invalid program image: " ++ Decimal.text instructions ++ " instructions but "
      ++ Decimal.text locations ++ " locations"
  | addressOverflow start length =>
    "invalid program image: " ++ Decimal.text length ++ " instructions starting at " ++ start.text
      ++ " overflow the address space"

namespace Image

/-- The bytes of a word. -/
def word (w : Word) : Bytes := varint (zigzag w.toInt)

/-- Reads a word. -/
def readWord : Reader Word := return Int64.ofInt (unzigzag (← readNat64))

/-- The bytes of an instruction. -/
def instruction : Instruction → Bytes
  | .push n => varint 0 ++ word n
  | .op o => varint 1 ++ varint o.index

/-- Reads the number of an opcode. -/
def readOpcode : Reader Opcode := do
  match Opcode.all[(← readNat32)]? with
  | some o => return o
  | none => throw .unknownChoice

/-- Reads an instruction. -/
def readInstruction : Reader Instruction := do
  match ← readNat32 with
  | 0 => return .push (← readWord)
  | 1 => return .op (← readOpcode)
  | _ => throw .unknownChoice

/-- The bytes of a location. -/
def location (l : Location) : Bytes := text l.file ++ varint l.line ++ varint l.column

/-- Reads a location. -/
def readLocation : Reader Location := do
  let file ← readText
  let line ← readNat64
  let column ← readNat64
  return ⟨file, line, column⟩

/-- Reads the parts of a program. -/
def readProgram : Reader Program := do
  let start ← readWord
  let instructions ← readList readInstruction
  let locations ← readList readLocation
  return ⟨start, instructions.toArray, locations.toArray⟩

end Image

namespace Program

/-- The image of a program. -/
def image (p : Program) : Bytes :=
  Image.word p.start ++ Image.list Image.instruction p.instructions.toList
    ++ Image.list Image.location p.locations.toList

/-- The program itself if it can be loaded; else what is wrong with it, the lengths of its tables
before its addresses. -/
def checked (p : Program) : Except ImageError Program :=
  if p.instructions.size ≠ p.locations.size then
    .error (.mismatch p.instructions.size p.locations.size)
  else if p.endAddress? = none then .error (.addressOverflow p.start p.length)
  else .ok p

/-- The program of an image. -/
def ofImage (bytes : Bytes) : Except ImageError Program :=
  match Image.readProgram bytes with
  | .error fault => .error (.decode fault)
  | .ok (p, _) => p.checked

end Program

end StackAsm
