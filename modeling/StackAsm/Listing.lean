import StackAsm.Column
import StackAsm.Program

set_option autoImplicit false

/-!
# Listings

A listing shows a program one instruction a line: its address, its text and the place it comes
from. A push whose next instruction is a jump shows where the jump leads, and the instruction at
that address is marked and set off by a rule.

## Main definitions

* `StackAsm.Program.feedsJump` — whether a jump stands behind an address.
* `StackAsm.Program.jumpTargets` — the addresses that jumps lead to, as far as the text shows.
* `StackAsm.Program.listing` — the listing of a program.

## Implementation notes

Only a push directly before a jump is taken for its target. Addresses that a program computes stay
unmarked.
-/

namespace StackAsm.Program

/-- Whether the instruction behind the address `a` is a jump. Its place is counted from the start of
the program, and wraps as addresses do. -/
def feedsJump (p : Program) (a : Address) : Bool :=
  (p.instructions[(a - p.start + 1).toUInt64.toNat]?).any Instruction.isJump

/-- The constant that an entry pushes as the target of the jump behind it. -/
def jumpTarget? (p : Program) (e : Entry) : Option Address :=
  match e.instruction with
  | .push n => if p.feedsJump e.address then some n else none
  | .op _ => none

/-- The addresses that are pushed as targets of jumps. -/
def jumpTargets (p : Program) : List Address := p.entries.filterMap p.jumpTarget?

/-- The first line of a listing: the number of instructions and the addresses they take. -/
def heading (p : Program) : String :=
  "; " ++ Decimal.text p.length ++ " instructions" ++
    match p.endAddress? with
    | some last => ", addresses " ++ p.start.text ++ ".." ++ last.text ++ "\n"
    | none => " from address " ++ p.start.text ++ " (past the last address)\n"

/-- The rule above an instruction that is a jump target. -/
def rule : String := "      ┌──────────────────────────────────\n"

/-- The text of an instruction in a listing. -/
def entryText (p : Program) (e : Entry) : String :=
  match p.jumpTarget? e with
  | some n => n.text ++ " (→ " ++ Column.padZero 4 n.toInt ++ ")"
  | none => e.instruction.text

/-- The lines of one instruction in a listing. -/
def entryLines (p : Program) (targets : List Address) (e : Entry) : String :=
  let isTarget := targets.contains e.address
  (if isTarget then rule else "")
    ++ Column.padZero 4 e.address.toInt ++ (if isTarget then " ► " else "   ")
    ++ Column.padRight 12 (p.entryText e) ++ "; " ++ e.location.tag ++ "\n"

/-- The listing of a program. -/
def listing (p : Program) : String :=
  p.heading ++ String.join (p.entries.map (p.entryLines p.jumpTargets))

end StackAsm.Program
