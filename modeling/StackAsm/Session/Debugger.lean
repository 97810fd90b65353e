import StackAsm.Machine.Step

set_option autoImplicit false

/-!
# Stepping through a program

The debugger shows every instruction before it is executed and the stack afterwards. Between the two
it waits for a line of input, as long as there is input; at the end of the input the rest of the
program is executed without waiting. There is no budget.

## Main definitions

* `StackAsm.Machine.debugStep` — showing and executing one instruction.
* `StackAsm.Machine.debug` — stepping through a program.

## Implementation notes

While the debugger waits, the line feed that a user types ends the line of the instruction shown.
Without a user the debugger writes it. The same goes for the byte that `cprint` writes.
-/

namespace StackAsm.Machine

/-- What the debugger writes first. -/
def debugHeading : String := "Running script (press enter to execute instructions)\n"

/-- What the debugger shows before it executes an instruction. -/
def banner (instruction : Instruction) (location : Location) : String :=
  "<Running " ++ location.file ++ " line " ++ Decimal.text location.line ++ ", column "
    ++ Decimal.text location.column ++ "> " ++ instruction.text

/-- Waits for a line of input if `waiting`, and tells whether there was one. -/
def await (m : Machine) (waiting : Bool) : Except RuntimeError Bool × Machine :=
  if waiting then
    let (line, m) := m.takeLine
    if (Utf8.decode? line).isSome then (.ok (line ≠ []), m)
    else (.error (.stream .invalidUtf8), m)
  else (.ok false, m)

/-- Executes the instruction at the program counter, once it is shown, and shows the stack; a line
feed comes before it unless a user typed one, and behind the byte that `cprint` writes. -/
def debugStep (m : Machine) (instruction : Instruction) (typed : Bool) : Outcome :=
  (if typed then Outcome.done m else m.write (Utf8.encode "\n")).andThen fun m =>
    m.step.andThen fun m =>
      (if instruction = .op .cprint then m.write (Utf8.encode "\n") else .done m).andThen fun m =>
        m.write (Utf8.encode (m.stackText ++ "\n"))

/-- Steps through a program from the program counter on, executing fewer than `fuel` instructions;
`waiting` tells whether there may be input left. -/
def debugFrom : (fuel : Nat) → (waiting : Bool) → Machine → Option Outcome
  | 0, _, _ => none
  | fuel + 1, waiting, m =>
    match m.instruction?, m.location? with
    | some i, some l =>
      match m.write (Utf8.encode (banner i l)) with
      | .failed e m => some (.failed e m)
      | .done m =>
        match m.await waiting with
        | (.error e, m) => some (.failed e m)
        | (.ok typed, m) =>
          match m.debugStep i typed with
          | .failed e m => some (.failed e m)
          | .done m => debugFrom fuel typed m
    | _, _ => some (.done m)

/-- Steps through a program from the program counter on, executing fewer than `fuel`
instructions. -/
def debug (fuel : Nat) (m : Machine) : Option Outcome :=
  match m.write (Utf8.encode debugHeading) with
  | .failed e m => some (.failed e m)
  | .done m => debugFrom fuel true m

end StackAsm.Machine
