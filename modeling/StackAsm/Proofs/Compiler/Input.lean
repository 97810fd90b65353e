import StackAsm.Machine.Numeral
import StackAsm.Proofs.Compiler.Library

set_option autoImplicit false

/-!
# How compiled programs read their input

While an integer is read, one byte of the input is held in a variable: what is still to be read is
that byte and the rest of the input. In each loop the bytes to be read become fewer, so an input
needs no more turns than it has bytes.

## Main definitions

* `StackAsm.Compiler.front` — the value of the next byte, as it is read.

## Main results

* `StackAsm.Compiler.readChar_meaning` — reading a byte.
* `StackAsm.Compiler.isSpace_meaning` — the test for blanks.
-/

namespace StackAsm.Compiler

open C

/-- The value that reading the next byte yields; at the end of the input it is -1. -/
def front : Bytes → Int
  | [] => -1
  | b :: _ => b.toNat

/-- What reading a byte yields is in the range of `int`. -/
lemma front_small (bytes : Bytes) : -2 ^ 31 ≤ front bytes ∧ front bytes < 2 ^ 31 := by
  cases bytes with
  | nil => decide
  | cons b bytes =>
    have := b.toNat_lt
    simp only [front]
    omega

/-- What reading a byte yields is converted to itself. -/
@[simp] lemma convert_front (bytes : Bytes) : CType.int.convert (front bytes) = front bytes :=
  CType.convert_int (front_small bytes).1 (front_small bytes).2

/-- Reading a byte yields the next one and takes it away. -/
@[simp] lemma readInput_memory (stack free : List Word) (locals : List Variable)
    (input output diagnostics : Bytes) :
    readInput (memory stack free locals input output diagnostics) =
      .ok (.int .int (front input)) (memory stack free locals input.tail output diagnostics) := by
  cases input <;> rfl

/-! ## Tests of a byte -/

section Tests

variable {scope : Scope} {c : String} {n : Int} {s : State}
  (read : readName scope c s = .ok (.int .int n) s) (small : -2 ^ 31 ≤ n ∧ n < 2 ^ 31)

include read small

/-- A character that was read is compared with a character constant. -/
lemma eval_compare {op : BinOp} (strict : op ≠ .and ∧ op ≠ .or) (x : Char) :
    (Expr.bin op (.name c) (.char x)).eval scope s =
      Eval.ofOption (op.onCommon .int n x.toNat) s := by
  have char : -2 ^ 31 ≤ (x.toNat : Int) ∧ (x.toNat : Int) < 2 ^ 31 := by
    have bound : x.toNat < 2 ^ 31 := by
      rcases x.valid with low | ⟨-, high⟩
      · exact Nat.lt_trans low (by decide)
      · exact Nat.lt_trans high (by decide)
    omega
  rw [Expr.eval_bin _ _ _ strict]
  simp [read, BinOp.apply_ints small char]

/-- The test for several characters looks whether the one that was read is among them. -/
lemma eval_isOneOf (cs : List Char) :
    (isOneOf c cs).eval scope s = .ok (.ofBool (cs.any fun x => n = x.toNat)) s := by
  cases cs with
  | nil => simp [isOneOf, Value.ofBool]
  | cons first more =>
    have one (x : Char) : (Expr.bin .eq (.name c) (.char x)).eval scope s =
        .ok (.ofBool (n = x.toNat)) s :=
      eval_compare read small (by decide) x
    have many : ∀ {e : Expr} {p : Bool}, e.eval scope s = .ok (.ofBool p) s →
        (more.foldl (fun e x => .bin .or e (.bin .eq (.name c) (.char x))) e).eval scope s =
          .ok (.ofBool (p || more.any fun x => n = x.toNat)) s := by
      induction more with
      | nil => simp
      | cons x more ih =>
        intro e p value
        rw [List.foldl_cons, ih (Expr.eval_or value (one x)), List.any_cons, Bool.or_assoc]
    exact many (one first)

/-- The test for a digit looks whether the code is between those of the first digit and the last.
-/
lemma eval_isDigit :
    (isDigit c).eval scope s = .ok (.ofBool (48 ≤ n && n ≤ 57)) s :=
  Expr.eval_and (eval_compare read small (by decide) '0') (eval_compare read small (by decide) '9')

end Tests

/-! ### Blanks, signs and digits -/

/-- What reading a byte yields is one of the blank characters exactly if the byte is blank. -/
lemma any_blank (bytes : Bytes) :
    ([' ', '\t', '\n', '\r', '\x0b', '\x0c'].any fun x => front bytes = x.toNat) =
      bytes.head?.any Numeral.isBlank := by
  cases bytes with
  | nil => rfl
  | cons b bytes =>
    rw [Bool.eq_iff_iff]
    simp only [List.any_cons, List.any_nil, List.head?_cons, Option.any_some, Numeral.isBlank,
      Bool.or_eq_true, Bool.and_eq_true, decide_eq_true_eq, ← UInt8.toNat_inj,
      UInt8.le_iff_toNat_le]
    simp [front]
    omega

/-- What reading a byte yields is a sign exactly if the byte is one. -/
lemma any_sign (bytes : Bytes) :
    (['-', '+'].any fun x => front bytes = x.toNat) = bytes.head?.any Numeral.isSign := by
  cases bytes with
  | nil => rfl
  | cons b bytes =>
    rw [Bool.eq_iff_iff]
    simp only [List.any_cons, List.any_nil, List.head?_cons, Option.any_some, Numeral.isSign,
      Bool.or_eq_true, decide_eq_true_eq, ← UInt8.toNat_inj]
    simp [front]
    omega

/-- What reading a byte yields is between the digits exactly if the byte is one. -/
lemma front_digit (bytes : Bytes) :
    (decide (48 ≤ front bytes) && decide (front bytes ≤ 57)) = bytes.head?.any Numeral.isDigit := by
  cases bytes with
  | nil => rfl
  | cons b bytes =>
    rw [Bool.eq_iff_iff]
    simp only [List.head?_cons, Option.any_some, Numeral.isDigit, Bool.and_eq_true,
      decide_eq_true_eq, UInt8.le_iff_toNat_le]
    simp [front]

/-! ## Reading a byte -/

section Functions

variable {size fuel : Nat} {functions : List Function} {stack free : List Word}
  (locals : List Variable) (input output diagnostics : Bytes)

variable (functions) in
/-- The function that reads a character returns the next byte. -/
theorem readChar_meaning (getchar : "getchar" ∉ functions.map Function.name) :
    readChar.meaning (scope size fuel functions) fuel []
        (memory stack free locals input output diagnostics) =
      .ok (.int .int64 (front input))
        (memory stack free locals input.tail output diagnostics) := by
  have call := callFunction_of_notMem size fuel functions getchar
  have minus : BinOp.sub.apply (.int .int 0) (.int .int 1) = some (.int .int (-1)) := rfl
  have eof : BinOp.eq.apply (.int .int (front input)) (.int .int (-1)) =
      some (.ofBool (front input = -1)) := by
    rw [BinOp.apply_ints (front_small input) (by decide), BinOp.onCommon]
  have small := front_small input
  have fits : CType.int64.convert (front input) = front input :=
    CType.convert_of_inRange (Word.inRange_iff.2 ⟨by omega, by omega⟩)
  by_cases last : front input = -1
  · rw [decide_eq_true last] at eof
    have value : CType.int64.convert (-1) = front input := by
      rw [last]
      rfl
    simp [Function.meaning, readChar, call, eof, minus, value]
  · rw [decide_eq_false last] at eof
    simp [Function.meaning, readChar, call, eof, fits]

/-- The function that looks for blank space tells whether the next byte is blank. -/
theorem isSpace_meaning (bytes : Bytes) :
    isSpace.meaning (scope size fuel functions) fuel [.int .int (front bytes)]
        (memory stack free locals input output diagnostics) =
      .ok (.ofBool (bytes.head?.any Numeral.isBlank))
        (memory stack free locals input output diagnostics) := by
  have test (cs : List Char) : (isOneOf "c" cs).eval (scope size fuel functions)
      (memory stack free [⟨"c", .int, some (.int .int (front bytes))⟩] input output diagnostics) =
      .ok (.ofBool (cs.any fun x => front bytes = x.toNat))
        (memory stack free [⟨"c", .int, some (.int .int (front bytes))⟩] input output
          diagnostics) :=
    eval_isOneOf (by simp) (front_small bytes) cs
  have test := test [' ', '\t', '\n', '\r', '\x0b', '\x0c']
  rw [any_blank] at test
  simp [Function.meaning, isSpace, test]

end Functions

end StackAsm.Compiler
