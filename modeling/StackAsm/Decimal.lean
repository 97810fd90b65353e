set_option autoImplicit false

/-!
# Words and their decimal text

A *word* is a signed integer of 64 bits. Stack values and addresses are words: arithmetic on
them wraps, and text that names an integer outside their range names no word.

## Main definitions

* `StackAsm.Word` — 64-bit signed integers; `StackAsm.Word.ofInt?` — the word with a given
  value, if the value is in range.
* `StackAsm.Decimal.text` — the decimal text of an integer.
* `StackAsm.Decimal.value` — the integer that a sign and digits spell.

## Main results

* `StackAsm.Word.ofInt?_eq_some_iff` — a word is the word of its value and of no other integer.
* `StackAsm.Word.ofInt?_eq_none_iff` — there is no word exactly for the integers out of range.
* `StackAsm.Decimal.value_text` — the digits of a written natural number spell it.
-/

namespace StackAsm

/-- A stack value or an address: a signed integer of 64 bits, with wrapping arithmetic. -/
abbrev Word := Int64

/-- The absolute position of an instruction; jumps take it from the stack like any value. -/
abbrev Address := Word

namespace Word

/-- The integers that are values of words. -/
def InRange (n : Int) : Prop := Int64.minValue.toInt ≤ n ∧ n ≤ Int64.maxValue.toInt

/-- The word with the value `n`; there is none when `n` needs more than 64 bits. -/
def ofInt? (n : Int) : Option Word :=
  if (Int64.ofInt n).toInt = n then some (Int64.ofInt n) else none

/-- The value of a machine word is in the range of machine words. -/
theorem inRange_toInt (w : Word) : InRange w.toInt :=
  ⟨Int64.minValue_le_toInt w, Int64.toInt_le w⟩

/-- An integer becomes the word that has it as value. -/
theorem ofInt?_eq_some_iff {n : Int} {w : Word} : ofInt? n = some w ↔ w.toInt = n := by
  constructor
  · intro h
    rw [ofInt?, Option.ite_none_right_eq_some] at h
    obtain ⟨value, same⟩ := h
    rwa [← Option.some.inj same]
  · rintro rfl
    simp [ofInt?]

/-- The value of a word becomes that word again. -/
theorem ofInt?_toInt (w : Word) : ofInt? w.toInt = some w := ofInt?_eq_some_iff.2 rfl

/-- The integers that become no word are those out of range. -/
theorem ofInt?_eq_none_iff {n : Int} : ofInt? n = none ↔ ¬ InRange n := by
  constructor
  · intro h range
    have value : (Int64.ofInt n).toInt = n := by
      rw [InRange, Int64.toInt_minValue, Int64.toInt_maxValue] at range
      exact Int64.toInt_ofInt_of_le range.1 (Int.lt_of_le_sub_one range.2)
    simp [ofInt?, value] at h
  · intro range
    rw [ofInt?, if_neg]
    intro value
    exact range (value ▸ inRange_toInt (Int64.ofInt n))

end Word

namespace Decimal

/-- The decimal text of `n`: a minus sign if `n` is negative, then its digits without leading
zeros. -/
def text (n : Int) : String :=
  if n < 0 then "-" ++ n.natAbs.repr else n.natAbs.repr

/-- The integer that decimal digits spell, leading zeros allowed, negated if `negative`. -/
def value (negative : Bool) (digits : List Char) : Int :=
  let magnitude : Int := Nat.ofDigitChars 10 digits 0
  if negative then -magnitude else magnitude

/-- The digits a number is printed with stand for that number. -/
theorem value_text (n : Nat) : value false n.repr.toList = n := by
  simp [value, Nat.toList_repr]

end Decimal

/-- The decimal text of a word. -/
def Word.text (w : Word) : String := Decimal.text w.toInt

end StackAsm
