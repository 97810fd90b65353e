import StackAsm.Machine.Numeral
import StackAsm.Machine.Stream
import StackAsm.Resolution

set_option autoImplicit false

/-!
# The machine

A machine holds a program, a program counter, a stack of words and three streams. The first program
that is loaded fixes the base address; later ones are appended, each at the next free address, so a
session can resolve every line for the address where it will stand and keep the stack between lines.

The stack is a list with its top in front. Indices that programs use count from the bottom.

## Main definitions

* `StackAsm.Machine` — the state of a machine.
* `StackAsm.RuntimeError` — why a machine does not go on.
* `StackAsm.Outcome` — what became of an operation: the machine, and the error if it failed.
* `StackAsm.Machine.load`, `StackAsm.Machine.loadTokens` — loading.
* `StackAsm.stackText` — the text of a stack.

## Implementation notes

Loading answers with an error or a machine, so a load that fails changes nothing. An operation that
reads or writes answers with an `Outcome`: what was read is gone and what was written stays even if
it fails.
-/

namespace StackAsm

/-! ## Programs as memory -/

namespace Program

/-- The place of the instruction at address `a`, if there is one. -/
def indexOf? (p : Program) (a : Address) : Option Nat :=
  let offset := a.toInt - p.start.toInt
  if 0 ≤ offset ∧ offset < p.length then some offset.toNat else none

/-- The instruction at address `a`, if there is one. -/
def instructionAt? (p : Program) (a : Address) : Option Instruction :=
  (p.indexOf? a).bind fun i => p.instructions[i]?

/-- The place that the instruction at address `a` comes from, if there is one. -/
def locationAt? (p : Program) (a : Address) : Option Location :=
  (p.indexOf? a).bind fun i => p.locations[i]?

/-- A program with the tables of another behind its own. -/
def append (p q : Program) : Program :=
  ⟨p.start, p.instructions ++ q.instructions, p.locations ++ q.locations⟩

end Program

/-! ## Errors -/

/-- Why a stream refuses an operation. -/
inductive StreamFault where
  /-- The bytes written do not fit. -/
  | sinkFull
  /-- The line read is no text. -/
  | invalidUtf8
  deriving DecidableEq, Repr

/-- The wording of a fault. -/
def StreamFault.message : StreamFault → String
  | sinkFull => "sink full"
  | invalidUtf8 => "stream did not contain valid UTF-8"

/-- Why a machine does not go on. -/
inductive RuntimeError where
  /-- An instruction takes more values than there are. -/
  | stackUnderflow (instruction : Instruction) (location : Location)
  /-- The divisor is zero. -/
  | divisionByZero (location : Location)
  /-- An index names none of the `size` values below it. -/
  | invalidIndex (index : Word) (size : Nat) (location : Location)
  /-- The input does not begin with an integer. -/
  | invalidInput (fault : InputFault) (location : Location)
  /-- There is no instruction at the program counter. -/
  | endOfProgram (pc : Address)
  /-- A program that starts at `start` does not continue the one that ends before `expected`. -/
  | addressMismatch (start expected : Address)
  /-- The address behind the last instruction of a program is no word. -/
  | addressOverflow (start : Address) (length : Nat)
  /-- All the steps of a budget are taken. -/
  | stepLimitExceeded (limit : Nat)
  /-- A stream refused an operation. -/
  | stream (fault : StreamFault)
  deriving DecidableEq, Repr

namespace RuntimeError

/-- The message of an error. -/
def message : RuntimeError → String
  | stackUnderflow i l =>
    "stack underflow in " ++ l.text ++ " when executing '" ++ i.text ++ "'"
  | divisionByZero l => "division by zero in " ++ l.text
  | invalidIndex index size l =>
    "invalid stack index " ++ index.text ++ " (stack size " ++ Decimal.text size ++ ") in "
      ++ l.text
  | invalidInput fault l => "invalid input in " ++ l.text ++ ": " ++ fault.message
  | endOfProgram pc => "end of program reached (pc = " ++ pc.text ++ ")"
  | addressMismatch start expected =>
    "program resolved at address " ++ start.text ++ " cannot be loaded at address " ++ expected.text
  | addressOverflow start length =>
    "program of " ++ Decimal.text length ++ " instructions at address " ++ start.text
      ++ " overflows the address space"
  | stepLimitExceeded limit => "execution step limit exceeded (" ++ Decimal.text limit ++ ")"
  | stream fault => "I/O error: " ++ fault.message

/-- The place that the failing instruction comes from, if an instruction failed. -/
def location? : RuntimeError → Option Location
  | stackUnderflow _ l | divisionByZero l | invalidIndex _ _ l | invalidInput _ l => some l
  | endOfProgram _ | addressMismatch _ _ | addressOverflow _ _ | stepLimitExceeded _ | stream _ =>
    none

end RuntimeError

/-! ## Machines -/

/-- The state of a machine. -/
structure Machine where
  /-- The program loaded; its start is the base address. -/
  code : Program
  /-- The program counter: the address of the instruction to execute next. -/
  pc : Address
  /-- The stack, its top in front. -/
  stack : List Word
  /-- The number of instructions that one run may execute; there may be no limit. -/
  budget : Option Nat
  /-- The input that is not read yet. -/
  input : Bytes
  /-- The output. -/
  output : Sink
  /-- The stream for what is not part of the output: stacks shown by `dbg`, and error reports. -/
  diagnostics : Sink
  deriving DecidableEq, Repr

/-- What became of an operation on a machine. -/
inductive Outcome where
  /-- The operation succeeded and left this machine. -/
  | done (machine : Machine)
  /-- The operation failed and left this machine. -/
  | failed (error : RuntimeError) (machine : Machine)
  deriving DecidableEq, Repr

namespace Outcome

/-- The machine that an operation left. -/
def machine : Outcome → Machine
  | done m | failed _ m => m

/-- The error with which an operation failed, if it did. -/
def error? : Outcome → Option RuntimeError
  | done _ => none
  | failed e _ => some e

/-- Goes on with another operation unless the first one failed. -/
def andThen (o : Outcome) (next : Machine → Outcome) : Outcome :=
  match o with
  | done m => next m
  | failed e m => failed e m

/-- What follows a finished part runs from the machine that part leaves. -/
@[simp] theorem andThen_done (m : Machine) (next : Machine → Outcome) :
    (done m).andThen next = next m := rfl

/-- Nothing runs after a part that failed. -/
@[simp] theorem andThen_failed (e : RuntimeError) (m : Machine) (next : Machine → Outcome) :
    (failed e m).andThen next = failed e m := rfl

end Outcome

/-- The text of a stack, given bottom first: its values in brackets. -/
def stackText (values : List Word) : String :=
  "[" ++ ", ".intercalate (values.map Word.text) ++ "]"

namespace Machine

/-- A machine without a program, with the given budget and streams. -/
def fresh (budget : Option Nat) (input : Bytes) (output diagnostics : Sink) : Machine :=
  ⟨Program.empty 0, 0, [], budget, input, output, diagnostics⟩

/-! ### Inspection -/

/-- The text of the stack of a machine, bottom first. -/
def stackText (m : Machine) : String := StackAsm.stackText m.stack.reverse

/-- Whether no instruction is loaded. -/
def isEmpty (m : Machine) : Bool := m.code.isEmpty

/-- The address behind the last instruction loaded. -/
def nextAddress (m : Machine) : Address := m.code.start + Int64.ofNat m.code.length

/-- Whether the program counter is at an instruction. -/
def isRunning (m : Machine) : Bool := (m.code.indexOf? m.pc).isSome

/-- The instruction at the program counter. -/
def instruction? (m : Machine) : Option Instruction := m.code.instructionAt? m.pc

/-- The place that the instruction at the program counter comes from. -/
def location? (m : Machine) : Option Location := m.code.locationAt? m.pc

/-! ### Control -/

/-- Moves the program counter without executing anything. -/
def goTo (m : Machine) (pc : Address) : Machine := { m with pc := pc }

/-- Drops the program, the program counter and the stack; the streams and the budget stay. -/
def reset (m : Machine) : Machine := { m with code := Program.empty 0, pc := 0, stack := [] }

/-! ### Loading -/

/-- Puts a program behind the one loaded. -/
def append (m : Machine) (p : Program) : Machine := { m with code := m.code.append p }

/-- Loads a program. An empty machine takes over its start as base address and program counter; any
other takes only a program that starts at the next free address, and keeps its program counter. -/
def load (m : Machine) (p : Program) : Except RuntimeError Machine :=
  if p.endAddress? = none then .error (.addressOverflow p.start p.length)
  else if m.isEmpty then
    .ok ({ m with code := { m.code with start := p.start }, pc := p.start }.append p)
  else if p.start = m.nextAddress then .ok (m.append p)
  else .error (.addressMismatch p.start m.nextAddress)

/-- Resolves tokens for the next free address and loads them there. -/
def loadTokens (m : Machine) (tokens : List SourceToken) : Except ResolveError Machine :=
  match Resolution.resolve tokens m.nextAddress with
  | .ok p => .ok (m.append p)
  | .error e => .error e

/-! ### Streams -/

/-- Writes to the output. -/
def write (m : Machine) (bytes : Bytes) : Outcome :=
  if m.output.fits bytes then .done { m with output := m.output.write bytes }
  else .failed (.stream .sinkFull) { m with output := m.output.write bytes }

/-- Writes to the diagnostics. -/
def report (m : Machine) (bytes : Bytes) : Outcome :=
  if m.diagnostics.fits bytes then .done { m with diagnostics := m.diagnostics.write bytes }
  else .failed (.stream .sinkFull) { m with diagnostics := m.diagnostics.write bytes }

/-- Adds bytes at the end of the input. -/
def feed (m : Machine) (bytes : Bytes) : Machine := { m with input := m.input ++ bytes }

/-- Takes the first line off the input; the line is empty only at the end of the input. -/
def takeLine (m : Machine) : Bytes × Machine :=
  let (line, rest) := splitLine m.input
  (line, { m with input := rest })

end Machine

end StackAsm
