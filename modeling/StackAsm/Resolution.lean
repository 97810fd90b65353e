import StackAsm.Program
import StackAsm.Token

set_option autoImplicit false

/-!
# Resolving labels

A label names the address of the instruction behind its definition. Resolution first collects all
labels, counting an address for every token that becomes an instruction, and then replaces each
reference by a push of the address it names. So a reference may stand before its definition, and a
label behind the last instruction names the address behind the program.

## Main definitions

* `StackAsm.Label` — a name, the address it stands for, and where it is defined.
* `StackAsm.Resolution.labels` — the labels that a list of tokens defines.
* `StackAsm.Resolution.resolve` — the program that a list of tokens stands for.
* `StackAsm.ResolveError` — why there is none.
-/

namespace StackAsm

/-- Why tokens stand for no program. -/
inductive ResolveError where
  /-- A reference to a label that is defined nowhere. -/
  | unknownLabel (name : String) (location : Location)
  /-- A second definition of a label, which was first defined at `first`. -/
  | duplicateLabel (name : String) (location first : Location)
  /-- A token whose instruction would be followed by no address. -/
  | addressOverflow (location : Location)
  deriving DecidableEq, Repr

namespace ResolveError

/-- The message of an error in the use of labels or addresses. -/
def message : ResolveError → String
  | unknownLabel name location => "reference to unknown label in " ++ location.text ++ ": @" ++ name
  | duplicateLabel name location first =>
    "label '" ++ name ++ "' redefined in " ++ location.text ++ " (first defined in " ++ first.text
      ++ ")"
  | addressOverflow location => "program does not fit in the address space at " ++ location.text

/-- Where the error is. -/
def location : ResolveError → Location
  | unknownLabel _ l | duplicateLabel _ l _ | addressOverflow l => l

/-- The label that the error is about, if it is about one. -/
def label? : ResolveError → Option String
  | unknownLabel name _ | duplicateLabel name _ _ => some name
  | addressOverflow _ => none

end ResolveError

/-- The meaning of a label. -/
structure Label where
  /-- The name. -/
  name : String
  /-- The address it stands for. -/
  address : Address
  /-- Where it is defined. -/
  location : Location
  deriving DecidableEq, Repr

namespace Resolution

/-- The label called `name`, if it is among `labels`. -/
def lookup? (labels : List Label) (name : String) : Option Label :=
  labels.find? fun l => l.name = name

/-- The labels that `tokens` define, the first token being at `address`, added to those `defined`
before. -/
def collect (defined : List Label) (address : Address) :
    List SourceToken → Except ResolveError (List Label)
  | [] => .ok defined
  | ⟨.define name, location⟩ :: tokens =>
    match lookup? defined name with
    | some first => .error (.duplicateLabel name location first.location)
    | none => collect (⟨name, address, location⟩ :: defined) address tokens
  | ⟨.refer _, location⟩ :: tokens | ⟨.instr _, location⟩ :: tokens =>
    match Word.ofInt? (address.toInt + 1) with
    | some next => collect defined next tokens
    | none => .error (.addressOverflow location)

/-- The labels that `tokens` define when their first instruction is at `start`. -/
def labels (tokens : List SourceToken) (start : Address) : Except ResolveError (List Label) :=
  collect [] start tokens

/-- The instructions that `tokens` stand for, with their locations. -/
def code (labels : List Label) :
    List SourceToken → Except ResolveError (List (Instruction × Location))
  | [] => .ok []
  | ⟨.define _, _⟩ :: tokens => code labels tokens
  | ⟨.refer name, location⟩ :: tokens =>
    match lookup? labels name with
    | some label => do return (.push label.address, location) :: (← code labels tokens)
    | none => .error (.unknownLabel name location)
  | ⟨.instr i, location⟩ :: tokens => do return (i, location) :: (← code labels tokens)

/-- The program that `tokens` stand for when their first instruction is at `start`. -/
def resolve (tokens : List SourceToken) (start : Address) : Except ResolveError Program := do
  let labels ← labels tokens start
  return Program.ofList start (← code labels tokens)

end Resolution

end StackAsm
