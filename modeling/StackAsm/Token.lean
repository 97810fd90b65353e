import StackAsm.Column
import StackAsm.Instruction
import StackAsm.Location

set_option autoImplicit false

/-!
# Tokens

A source is a sequence of tokens: definitions `:name:` and references `@name` of labels, and
instructions. A reference stands for the push of an address, so it takes an address of its own,
while a definition takes none.

## Main definitions

* `StackAsm.Token` — the tokens; `StackAsm.Token.text` — their spelling.
* `StackAsm.Token.occupies` — whether a token becomes an instruction.
* `StackAsm.SourceToken` — a token and the location where it begins.
* `StackAsm.SourceToken.dump` — a token stream as a table, one token a line.
-/

namespace StackAsm

/-- A word of the assembly language. -/
inductive Token where
  /-- Names the address of the next instruction. -/
  | define (name : String)
  /-- Pushes the address that the label `name` stands for. -/
  | refer (name : String)
  /-- An instruction, spelled out. -/
  | instr (instruction : Instruction)
  deriving DecidableEq, Repr

namespace Token

/-- The spelling of a token in source text. -/
def text : Token → String
  | define name => ":" ++ name ++ ":"
  | refer name => "@" ++ name
  | instr i => i.text

/-- Whether a token becomes an instruction, and so takes an address. -/
def occupies : Token → Bool
  | define _ => false
  | refer _ | instr _ => true

/-- The word for the kind of a token in a table of tokens. -/
def kind : Token → String
  | define _ => "LABEL"
  | refer _ => "REFER"
  | instr (.push _) => "INT"
  | instr (.op _) => "OP"

end Token

/-- A token and the location where it begins. -/
structure SourceToken where
  /-- The token. -/
  token : Token
  /-- Where its text begins. -/
  location : Location
  deriving DecidableEq, Repr

namespace SourceToken

/-- One line of a table of tokens: line, column, kind and spelling. -/
def row (t : SourceToken) : String :=
  "[" ++ Column.padZero 2 t.location.line ++ ":" ++ Column.padZero 2 t.location.column ++ "] "
    ++ Column.padRight 6 t.token.kind ++ " " ++ t.token.text ++ "\n"

/-- A token stream as a table, one token a line. -/
def dump (tokens : List SourceToken) : String := String.join (tokens.map row)

end SourceToken

end StackAsm
