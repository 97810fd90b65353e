import StackAsm.Machine.Run
import StackAsm.Source

set_option autoImplicit false

/-!
# Interactive sessions

In an interactive session every line of input is a piece of program: it is resolved for the next
free address, loaded there and run, and the stack is shown. Labels are those of the line alone. A
line that is no program is reported and dropped; an error while running ends the session, and so
does the end of the input.

## Main definitions

* `StackAsm.Machine.loadLine` — loading one line of a session.
* `StackAsm.Machine.answerLine` — loading a line, running it and showing the stack.
* `StackAsm.Machine.interact` — a whole session.

## Implementation notes

The lines are taken from the input of the machine, from which the program reads, too: a program that
reads takes the lines behind its own.
-/

namespace StackAsm.Machine

/-- The name by which messages call the lines of a session. -/
def sessionFile : String := "CIN"

/-- What asks for a line. -/
def prompt : String := "> "

/-- Loads a line at the next free address and moves the program counter there. A line that is no
program comes back as the message that says why. -/
def loadLine (m : Machine) (line : String) : Except String Machine :=
  match Source.tokens sessionFile line with
  | .error e => .error e.message
  | .ok tokens =>
    match m.loadTokens tokens with
    | .error e => .error e.message
    | .ok loaded => .ok (loaded.goTo m.nextAddress)

/-- Answers a line: runs it and shows the stack, or reports why it is no program. -/
def answerLine (fuel : Nat) (m : Machine) (line : Bytes) : Option Outcome :=
  match Utf8.decode? line with
  | none => some (.failed (.stream .invalidUtf8) m)
  | some text =>
    match m.loadLine text with
    | .error message => some (m.report (Utf8.encode ("error: " ++ message ++ "\n")))
    | .ok loaded =>
      (loaded.run fuel).map fun o => o.andThen fun m => m.write (Utf8.encode (m.stackText ++ "\n"))

/-- Holds a session. Each run looks at `fuel` states at most, and there are `fuel` lines at most. -/
def interact : (fuel : Nat) → Machine → Option Outcome
  | 0, _ => none
  | fuel + 1, m =>
    match m.write (Utf8.encode prompt) with
    | .failed e m => some (.failed e m)
    | .done m =>
      let (line, m) := m.takeLine
      if line = [] then some (m.write (Utf8.encode "\n"))
      else
        match answerLine (fuel + 1) m line with
        | none => none
        | some (.failed e m) => some (.failed e m)
        | some (.done m) => interact fuel m

end StackAsm.Machine
