import StackAsm.Decimal
import StackAsm.Utf8

set_option autoImplicit false

/-!
# Reading integers from a byte stream

An integer in the input is an optional sign and decimal digits, after any number of blanks. What is
looked at is taken from the stream whether or not it is an integer: the blanks, a sign, and the
digits behind it. The byte behind the last digit stays.

## Main definitions

* `StackAsm.Numeral` — the parts that the front of an input falls into.
* `StackAsm.Numeral.split` — the split of an input.
* `StackAsm.Numeral.value` — the word that the parts spell.

## Main results

* `StackAsm.Numeral.split_append` — the parts make up the input.
-/

namespace StackAsm

/-- Why the front of an input is no integer. -/
inductive InputFault where
  /-- There is no digit. -/
  | expectedInteger
  /-- The integer, written `text`, is no word. -/
  | outOfRange (text : String)
  deriving DecidableEq, Repr

/-- The wording of a fault. -/
def InputFault.message : InputFault → String
  | expectedInteger => "expected an integer"
  | outOfRange text => "integer out of range: " ++ text

/-- The front of an input, taken apart for an integer. -/
structure Numeral where
  /-- The blanks before it. -/
  blank : Bytes
  /-- Its sign, or nothing. -/
  sign : Bytes
  /-- Its digits. -/
  digits : Bytes
  /-- All that is behind it. -/
  rest : Bytes
  deriving DecidableEq, Repr

namespace Numeral

/-- The blanks of an input: the space and the five control characters from the tab to the carriage
return. -/
def isBlank (b : UInt8) : Bool := b = 32 || (9 ≤ b && b ≤ 13)

/-- The bytes of the two signs. -/
def isSign (b : UInt8) : Bool := b = 45 || b = 43

/-- The bytes of the ten digits. -/
def isDigit (b : UInt8) : Bool := 48 ≤ b && b ≤ 57

/-- The sign that bytes begin with, or nothing, and the rest. -/
def splitSign : Bytes → Bytes × Bytes
  | [] => ([], [])
  | b :: bytes => if isSign b then ([b], bytes) else ([], b :: bytes)

/-- Takes an input apart: the blanks, a sign, the digits behind it, and the rest. -/
def split (input : Bytes) : Numeral :=
  let (sign, unsigned) := splitSign (input.dropWhile isBlank)
  ⟨input.takeWhile isBlank, sign, unsigned.takeWhile isDigit, unsigned.dropWhile isDigit⟩

/-- The text of a numeral: its sign and its digits. -/
def text (n : Numeral) : String :=
  String.ofList ((n.sign ++ n.digits).map fun b => Char.ofNat b.toNat)

/-- The word that a numeral spells, or why it spells none. -/
def value (n : Numeral) : Except InputFault Word :=
  let digits := n.digits.map fun b => Char.ofNat b.toNat
  if n.digits = [] then .error .expectedInteger
  else
    match Word.ofInt? (Decimal.value (n.sign = [45]) digits) with
    | some w => .ok w
    | none => .error (.outOfRange n.text)

/-- Splitting off the sign loses no byte. -/
theorem splitSign_append (bytes : Bytes) : (splitSign bytes).1 ++ (splitSign bytes).2 = bytes := by
  cases bytes with
  | nil => rfl
  | cons b bytes => by_cases h : isSign b <;> simp [splitSign, h]

/-- The four parts of an input, put together again, are the input. -/
theorem split_append (input : Bytes) :
    (split input).blank ++ (split input).sign ++ (split input).digits ++ (split input).rest
      = input := by
  simp [split, List.append_assoc, splitSign_append]

end Numeral

end StackAsm
