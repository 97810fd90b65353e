import Mathlib
import StackAsm.Machine.Numeral

set_option autoImplicit false

/-!
# How the front of an input falls into parts

Reading an integer takes the front of the input apart by one pass over it. The parts are determined
by the input alone: each is as long as its kind of byte permits, and the sign is at most one byte.

## Main definitions

* `StackAsm.Numeral.Splits` — the parts of an input, said without a pass over it.

## Main results

* `StackAsm.Numeral.splits_split` — the pass finds the parts.
-/

namespace StackAsm.Numeral

/-- The parts of an input: the longest run of blanks, at most one sign, the longest run of digits
behind it, and the rest. -/
structure Splits (input : Bytes) (n : Numeral) : Prop where
  /-- The parts make up the input. -/
  append : n.blank ++ n.sign ++ n.digits ++ n.rest = input
  /-- The first part has blanks only. -/
  blank : ∀ b ∈ n.blank, isBlank b
  /-- No blank follows the first part. -/
  blank_max : ∀ b ∈ (n.sign ++ n.digits ++ n.rest).head?, ¬ isBlank b
  /-- The second part is one sign, or nothing if no sign follows the first one. -/
  sign : (∃ b, isSign b ∧ n.sign = [b]) ∨
    n.sign = [] ∧ ∀ b ∈ (n.digits ++ n.rest).head?, ¬ isSign b
  /-- The third part has digits only. -/
  digits : ∀ b ∈ n.digits, isDigit b
  /-- No digit follows the third part. -/
  digits_max : ∀ b ∈ n.rest.head?, ¬ isDigit b

/-- What is left behind the longest run of some bytes does not start with one of them. -/
lemma not_of_mem_head?_dropWhile {p : UInt8 → Bool} {bytes : Bytes} {b : UInt8}
    (h : b ∈ (bytes.dropWhile p).head?) : ¬ p b := by
  have := List.head?_dropWhile_not p bytes
  rw [Option.mem_def.1 h] at this
  simpa using this

/-- A sign is split off exactly if there is one. -/
lemma splitSign_cases (bytes : Bytes) :
    (∃ b, isSign b ∧ (splitSign bytes).1 = [b]) ∨
      (splitSign bytes).1 = [] ∧ ∀ b ∈ (splitSign bytes).2.head?, ¬ isSign b := by
  cases bytes with
  | nil => exact .inr ⟨rfl, by simp [splitSign]⟩
  | cons b bytes =>
    by_cases h : isSign b
    · exact .inl ⟨b, h, by simp [splitSign, h]⟩
    · exact .inr ⟨by simp [splitSign, h], by simp [splitSign, h]⟩

/-- **Taking an input apart finds its parts.** -/
theorem splits_split (input : Bytes) : Splits input (split input) where
  append := split_append input
  blank _ mem := List.mem_takeWhile_imp mem
  blank_max b mem := by
    have front : b ∈ (input.dropWhile isBlank).head? := by simpa [split, splitSign_append] using mem
    exact not_of_mem_head?_dropWhile front
  sign := by simpa [split] using splitSign_cases (input.dropWhile isBlank)
  digits _ mem := List.mem_takeWhile_imp mem
  digits_max _ mem := not_of_mem_head?_dropWhile mem

end StackAsm.Numeral
