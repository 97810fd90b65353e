import StackAsm.C.Syntax

set_option autoImplicit false

/-!
# Values of C

An arithmetic value is an integer together with its type. Operators bring their operands to a common
type first. The result of an unsigned operation is taken modulo a power of two; a signed result
outside of its type, and a division by zero, have no meaning at all.

## Main definitions

* `StackAsm.C.Value` — the values of expressions.
* `StackAsm.C.CType.convert` — an integer, converted to a type.
* `StackAsm.C.BinOp.apply` — the value of an operator, if it has one.

## Implementation notes

C leaves it to the implementation what an integer becomes that does not fit into the signed type it
is converted to. Here, as everywhere in practice, it is taken modulo a power of two.
-/

namespace StackAsm.C

/-- The standard streams. -/
inductive Stream where
  /-- The input. -/
  | stdin
  /-- The output. -/
  | stdout
  /-- The diagnostics. -/
  | stderr
  deriving DecidableEq, Repr

/-- The values of expressions. -/
inductive Value where
  /-- An integer of an arithmetic type. -/
  | int (type : CType) (n : Int)
  /-- A string. -/
  | str (s : String)
  /-- A stream. -/
  | stream (s : Stream)
  /-- The value of what has none. -/
  | void
  deriving DecidableEq, Repr

namespace CType

/-- Whether an arithmetic type has negative values. -/
def isSigned : CType → Bool
  | int | int64 => true
  | uint64 | uchar | void | string => false

/-- An integer, converted to a type: the value of the type that is equal to it modulo the power of
two that the type has values. What is converted to no arithmetic type stays as it is. -/
def convert : CType → Int → Int
  | int, n => (Int32.ofInt n).toInt
  | int64, n => (Int64.ofInt n).toInt
  | uint64, n => (UInt64.ofInt n).toNat
  | uchar, n => (UInt8.ofInt n).toNat
  | void, n | string, n => n

/-- An integer is a value of a type if its conversion to the type leaves it as it is. -/
def Holds (type : CType) (n : Int) : Prop := type.convert n = n

instance (type : CType) (n : Int) : Decidable (type.Holds n) :=
  inferInstanceAs (Decidable (_ = _))

/-- The type that the operands of an operator are converted to. -/
def common (a b : CType) : CType :=
  if a = uint64 ∨ b = uint64 then uint64 else if a = int64 ∨ b = int64 then int64 else int

/-- The result of an operation whose exact result is `n`: a signed one must be in range. -/
def result? (type : CType) (n : Int) : Option Value :=
  if type.isSigned then if type.Holds n then some (.int type n) else none
  else some (.int type (type.convert n))

end CType

namespace Value

/-- The value of a decimal constant: it has the first of the signed types that holds it. -/
def ofNat? (n : Nat) : Option Value :=
  if CType.int.Holds n then some (.int .int n)
  else if CType.int64.Holds n then some (.int .int64 n)
  else none

/-- A truth value. -/
def ofBool (b : Bool) : Value := .int .int (if b then 1 else 0)

/-- Whether a value is true; only arithmetic values are true or false. -/
def truth? : Value → Option Bool
  | int _ n => some (n ≠ 0)
  | _ => none

/-- A value, converted to a type. -/
def convert? (type : CType) : Value → Option Value
  | int _ n =>
    match type with
    | .void => some void
    | .string => none
    | type => some (.int type (type.convert n))
  | str s => if type = .string then some (str s) else none
  | stream _ => none
  | void => if type = .void then some void else none

end Value

namespace BinOp

/-- The value of an operator on operands of their common type, if it has one. The operators that
need not evaluate their right operand have none here. -/
def onCommon (op : BinOp) (type : CType) (a b : Int) : Option Value :=
  match op with
  | mul => type.result? (a * b)
  | div => if b = 0 then none else type.result? (a.tdiv b)
  | add => type.result? (a + b)
  | sub => type.result? (a - b)
  | lt => some (.ofBool (a < b))
  | gt => some (.ofBool (a > b))
  | le => some (.ofBool (a ≤ b))
  | ge => some (.ofBool (a ≥ b))
  | eq => some (.ofBool (a = b))
  | ne => some (.ofBool (a ≠ b))
  | and | or => none

/-- The value of an operator, if it has one. -/
def apply (op : BinOp) : Value → Value → Option Value
  | .int s a, .int t b => op.onCommon (s.common t) ((s.common t).convert a) ((s.common t).convert b)
  | _, _ => none

end BinOp

end StackAsm.C
