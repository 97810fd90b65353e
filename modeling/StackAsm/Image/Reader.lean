import StackAsm.Utf8

set_option autoImplicit false

/-!
# Reading binary data

A reader takes a value off the front of a byte string. It looks at the bytes from left to right,
stops at the first fault, and leaves the bytes behind the value for the next reader.

Numbers are written in groups of seven bits, the lowest group first, one group a byte; the high bit
of a byte tells that another group follows. A number may be written with more groups than it needs,
up to the number of groups that its type can need.

## Main definitions

* `StackAsm.Image.Fault` — why bytes are no value of the type read.
* `StackAsm.Image.Reader` — readers of a type.
* `StackAsm.Image.varint`, `StackAsm.Image.readVarint` — writing and reading numbers.
* `StackAsm.Image.zigzag`, `StackAsm.Image.unzigzag` — signed integers as natural numbers, small
  ones as small ones.
* `StackAsm.Image.readList` — reading a counted sequence.
-/

namespace StackAsm.Image

/-- Why bytes are no value of the type read. -/
inductive Fault where
  /-- The bytes end before the value does. -/
  | endOfBuffer
  /-- A number goes on behind the last group that its type has, or exceeds its type. -/
  | numberTooLong
  /-- A number that stands for a choice names none. -/
  | unknownChoice
  /-- The bytes of a text are no UTF-8. -/
  | invalidUtf8
  deriving DecidableEq, Repr

/-- The wording of a fault. -/
def Fault.message : Fault → String
  | endOfBuffer => "Hit the end of buffer, expected more data"
  | numberTooLong =>
    "Found a varint that didn't terminate. Is the usize too big for this platform?"
  | unknownChoice => "Serde Deserialization Error"
  | invalidUtf8 => "Tried to parse invalid utf-8"

/-- Takes a value off the front of a byte string and leaves the rest. -/
abbrev Reader := StateT Bytes (Except Fault)

/-! ## Natural numbers -/

/-- The groups of a natural number, as few as possible. -/
def varint (n : Nat) : Bytes :=
  if n < 128 then [UInt8.ofNat n] else UInt8.ofNat (n % 128 + 128) :: varint (n / 128)

/-- Reads one byte. -/
def readByte : Reader UInt8 := fun bytes =>
  match bytes with
  | [] => .error .endOfBuffer
  | b :: rest => .ok (b, rest)

/-- Reads a number of at most `more + 1` groups. In the last group that is permitted, the value may
be at most `last`. -/
def readVarint (last : Nat) : (more : Nat) → Reader Nat
  | 0 => do
    let b ← readByte
    if b.toNat ≤ last then return b.toNat else throw .numberTooLong
  | more + 1 => do
    let b ← readByte
    if b.toNat < 128 then return b.toNat
    else
      let high ← readVarint last more
      return b.toNat - 128 + 128 * high

/-- Reads a number of 64 bits. -/
def readNat64 : Reader Nat := readVarint 1 9

/-- Reads a number of 32 bits. -/
def readNat32 : Reader Nat := readVarint 15 4

/-! ## Signed integers -/

/-- The natural number that stands for a signed one: 0, -1, 1, -2, … are counted from 0. -/
def zigzag (n : Int) : Nat := if n < 0 then 2 * n.natAbs - 1 else 2 * n.natAbs

/-- The signed integer that a natural number stands for. -/
def unzigzag (n : Nat) : Int := if n % 2 = 0 then ↑(n / 2) else -↑(n / 2 + 1)

/-- The zigzag code of an integer is decoded to that integer. -/
theorem unzigzag_zigzag (n : Int) : unzigzag (zigzag n) = n := by
  unfold unzigzag zigzag
  split <;> split <;> omega

/-! ## Texts and sequences -/

/-- Reads the given number of bytes. -/
def readBytes (n : Nat) : Reader Bytes := fun bytes =>
  if n ≤ bytes.length then .ok (bytes.take n, bytes.drop n) else .error .endOfBuffer

/-- Reads a text: the number of its bytes, then its UTF-8 bytes. -/
def readText : Reader String := do
  let bytes ← readBytes (← readNat64)
  match Utf8.decode? bytes with
  | some text => return text
  | none => throw .invalidUtf8

/-- The bytes of a text: their number, then its UTF-8 bytes. -/
def text (s : String) : Bytes :=
  let bytes := Utf8.encode s
  varint bytes.length ++ bytes

/-- Reads `n` values one after the other. -/
def readItems {α : Type} (item : Reader α) : (n : Nat) → Reader (List α)
  | 0 => return []
  | n + 1 => do
    let x ← item
    return x :: (← readItems item n)

/-- Reads a sequence: the number of its values, then the values. -/
def readList {α : Type} (item : Reader α) : Reader (List α) := do
  readItems item (← readNat64)

/-- The bytes of a sequence: the number of its values, then the values. -/
def list {α : Type} (item : α → Bytes) (xs : List α) : Bytes :=
  varint xs.length ++ xs.flatMap item

end StackAsm.Image
