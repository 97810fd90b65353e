import StackAsm.Proofs.Program
import StackAsm.Proofs.Step

set_option autoImplicit false

/-!
# Reading integers, exactly

An input falls into blanks, a sign, digits and a rest in one way only. The instruction that reads an
integer takes all but the rest off the input, whether or not it finds an integer there; and it finds
one if there are digits and the number that they spell, with its sign, is a word. What number they
spell does not depend on how many zeros are in front.

## Main definitions

* `StackAsm.Numeral.magnitude`, `StackAsm.Numeral.integer` — the number that digits spell, and the
  integer that a numeral spells.

## Main results

* `StackAsm.Numeral.Splits.eq_split` — the parts of an input are unique.
* `StackAsm.Numeral.value_cases` — what a numeral is worth.
* `StackAsm.Machine.step_read_exact` — what reading an integer does.
-/

namespace StackAsm

/-! ## Characters of one byte -/

/-- A character of ASCII is one byte. -/
lemma Utf8.encodeChar_of_ascii {c : Char} (ascii : c.toNat < 128) :
    String.utf8EncodeChar c = [UInt8.ofNat c.toNat] := by
  have small : c.val.toNat ≤ 127 := Nat.le_of_lt_succ ascii
  unfold String.utf8EncodeChar
  exact if_pos small

/-- The byte `b`, read as the number of a character. -/
lemma toNat_charOfByte (b : UInt8) : (Char.ofNat b.toNat).toNat = b.toNat := by
  have small := b.toNat_lt
  rw [Char.toNat_ofNat, if_pos (.inl (by omega))]

/-- Bytes of ASCII are the encoding of the characters that they number. -/
lemma Utf8.encode_ofBytes {bytes : Bytes} (ascii : ∀ b ∈ bytes, b.toNat < 128) :
    Utf8.encode (String.ofList (bytes.map fun b => Char.ofNat b.toNat)) = bytes := by
  rw [Utf8.encode, String.toList_ofList, List.flatMap_map]
  induction bytes with
  | nil => rfl
  | cons b bytes ih =>
    rw [List.forall_mem_cons] at ascii
    have first : String.utf8EncodeChar (Char.ofNat b.toNat) = [b] := by
      rw [encodeChar_of_ascii (by rw [toNat_charOfByte]; exact ascii.1), toNat_charOfByte,
        UInt8.ofNat_toNat]
    rw [List.flatMap_cons, first, ih ascii.2]
    rfl

namespace Numeral

/-! ## The parts of an input are unique -/

/-- Bytes of one kind in front of a byte of another kind are the longest run of their kind. -/
lemma span_append {p : UInt8 → Bool} {run rest : Bytes} (all : ∀ b ∈ run, p b)
    (ends : ∀ b ∈ rest.head?, ¬ p b) :
    (run ++ rest).takeWhile p = run ∧ (run ++ rest).dropWhile p = rest := by
  rw [List.takeWhile_append_of_pos all, List.dropWhile_append_of_pos all]
  cases rest with
  | nil => simp
  | cons b rest =>
    have other := ends b rfl
    simp [other]

/-- A sign that is split off is the one in front, if there is one. -/
lemma splitSign_of_sign {sign rest : Bytes}
    (front : (∃ b, isSign b ∧ sign = [b]) ∨ sign = [] ∧ ∀ b ∈ rest.head?, ¬ isSign b) :
    splitSign (sign ++ rest) = (sign, rest) := by
  rcases front with ⟨b, isSign, rfl⟩ | ⟨rfl, none⟩
  · exact if_pos isSign
  · cases rest with
    | nil => rfl
    | cons b rest => exact if_neg (none b rfl)

/-- **The parts of an input are unique**: they are those that the pass over it finds. -/
theorem Splits.eq_split {input : Bytes} {n : Numeral} (splits : Splits input n) :
    n = split input := by
  obtain ⟨append, blank, blank_max, sign, digits, digits_max⟩ := splits
  have parts : input = n.blank ++ (n.sign ++ (n.digits ++ n.rest)) := by
    simp only [← append, List.append_assoc]
  rw [List.append_assoc] at blank_max
  obtain ⟨takesBlank, leavesSigned⟩ := span_append blank blank_max
  obtain ⟨takesDigits, leavesRest⟩ := span_append digits digits_max
  simp only [split, parts, takesBlank, leavesSigned, splitSign_of_sign sign, takesDigits,
    leavesRest]

/-! ## What digits spell -/

/-- The number that digits spell; the last one counts ones. -/
def magnitude (digits : Bytes) : Nat := Nat.ofDigits 10 (digits.reverse.map fun b => b.toNat - 48)

/-- The integer that a numeral spells: the number that its digits spell, negated behind a minus
sign. -/
def integer (n : Numeral) : Int := if n.sign = [45] then -magnitude n.digits else magnitude n.digits

/-- Digits read from the first one to the last spell the number in which the last one counts ones.

**Proof sketch.** Induction on the digits, with the number so far in front of them: each digit moves
it on by one place. -/
lemma ofDigitChars_eq_magnitude (digits : Bytes) (sofar : Nat) :
    Nat.ofDigitChars 10 (digits.map fun b => Char.ofNat b.toNat) sofar =
      10 ^ digits.length * sofar + magnitude digits := by
  induction digits generalizing sofar with
  | nil => simp [magnitude]
  | cons b digits ih =>
    have first : magnitude (b :: digits) =
        magnitude digits + 10 ^ digits.length * (b.toNat - 48) := by
      simp [magnitude, Nat.ofDigits_append]
    have zero : '0'.toNat = 48 := rfl
    rw [List.map_cons, Nat.ofDigitChars_cons, ih, toNat_charOfByte, zero, first, List.length_cons]
    ring

/-- The value of the digits with their sign is the integer that the numeral spells. -/
lemma value_eq_integer (n : Numeral) :
    Decimal.value (n.sign = [45]) (n.digits.map fun b => Char.ofNat b.toNat) = n.integer := by
  simp [Decimal.value, integer, ofDigitChars_eq_magnitude]

/-- What a numeral is worth: nothing without digits, the word that it spells if there is one. -/
theorem value_cases (n : Numeral) :
    n.digits = [] ∧ n.value = .error .expectedInteger ∨
      n.digits ≠ [] ∧ ¬ Word.InRange n.integer ∧ n.value = .error (.outOfRange n.text) ∨
      n.digits ≠ [] ∧ ∃ v : Word, v.toInt = n.integer ∧ n.value = .ok v := by
  by_cases none : n.digits = []
  · exact .inl ⟨none, if_pos none⟩
  refine .inr ?_
  cases word : Word.ofInt? n.integer with
  | none =>
    refine .inl ⟨none, Word.ofInt?_eq_none_iff.1 word, ?_⟩
    simp only [value, if_neg none, value_eq_integer, word]
  | some v =>
    refine .inr ⟨none, v, Word.ofInt?_eq_some_iff.1 word, ?_⟩
    simp only [value, if_neg none, value_eq_integer, word]

/-- The digits are ten bytes in a row. -/
lemma isDigit_iff {b : UInt8} : isDigit b ↔ 48 ≤ b.toNat ∧ b.toNat ≤ 57 := by
  simp only [isDigit, Bool.and_eq_true, decide_eq_true_eq, UInt8.le_iff_toNat_le]
  exact Iff.rfl

/-- The text of a numeral is its sign and its digits. -/
lemma Splits.encode_text {input : Bytes} {n : Numeral} (splits : Splits input n) :
    Utf8.encode n.text = n.sign ++ n.digits := by
  rw [text]
  refine Utf8.encode_ofBytes fun b mem => ?_
  rcases List.mem_append.1 mem with sign | digit
  · rcases splits.sign with ⟨c, isSign, only⟩ | ⟨none, -⟩
    · obtain rfl : b = c := by simpa [only] using sign
      simp only [Numeral.isSign, Bool.or_eq_true, decide_eq_true_eq] at isSign
      rcases isSign with rfl | rfl <;> decide
    · simp [none] at sign
  · exact (isDigit_iff.1 (splits.digits b digit)).2.trans_lt (by decide)

end Numeral

namespace Machine

variable {m : Machine} {l : Location} (instruction : m.instruction? = some (.op .read))
  (location : m.location? = some l)
include instruction location

/-- At an instruction that reads, a step reads an integer. -/
lemma step_of_read : m.step = m.readInteger l := step_eq_execute instruction location

/-- If the numeral has a value, it is pushed, and the input behind it is left. -/
lemma step_of_read_ok {v : Word} (value : (Numeral.split m.input).value = .ok v) :
    m.step = .done { m with
      input := (Numeral.split m.input).rest, stack := v :: m.stack, pc := m.pc + 1 } := by
  rw [step_of_read instruction location, readInteger, value]
  rfl

/-- If the numeral has no value, the step fails, and the input behind it is left. -/
lemma step_of_read_error {fault : InputFault}
    (value : (Numeral.split m.input).value = .error fault) :
    m.step = .failed (.invalidInput fault l) { m with input := (Numeral.split m.input).rest } := by
  rw [step_of_read instruction location, readInteger, value]

/-- **An integer is read exactly.** Let a machine be at an instruction that reads an integer. Its
input falls into blanks, a sign, digits and a rest in one way. Whatever comes of it, all but the
rest is taken off the input. If there are digits and the integer that they spell with the sign is a
word, this word is pushed and nothing else changes but the program counter; otherwise nothing else
changes at all, and the error at the location of the instruction says what was wrong, and quotes the
sign and the digits if there are any. -/
theorem step_read_exact :
    ∃ n, Numeral.Splits m.input n ∧ (∀ other, Numeral.Splits m.input other → other = n) ∧
      m.step.machine.input = n.rest ∧
      ((∃ m', m.step = .done m') ↔ n.digits ≠ [] ∧ Word.InRange n.integer) ∧
      (∀ m', m.step = .done m' → ∃ v : Word, v.toInt = n.integer ∧
        m' = { m with input := n.rest, stack := v :: m.stack, pc := m.pc + 1 }) ∧
      ∀ e m', m.step = .failed e m' → m' = { m with input := n.rest } ∧
        ∃ fault, e = .invalidInput fault l ∧
          (n.digits = [] → fault.message = "expected an integer") ∧
          (n.digits ≠ [] → ∃ text, Utf8.encode text = n.sign ++ n.digits ∧
            fault.message = "integer out of range: " ++ text) := by
  have splits := Numeral.splits_split m.input
  refine ⟨Numeral.split m.input, splits, fun other parts => parts.eq_split, ?_⟩
  have text := splits.encode_text
  rcases (Numeral.split m.input).value_cases with
    ⟨none, value⟩ | ⟨some, large, value⟩ | ⟨some, v, same, value⟩
  · rw [step_of_read_error instruction location value]
    refine ⟨rfl, by simp [none], by simp, ?_⟩
    rintro _ _ ⟨⟩
    exact ⟨rfl, _, rfl, fun _ => rfl, fun digits => absurd none digits⟩
  · rw [step_of_read_error instruction location value]
    refine ⟨rfl, by simp [large], by simp, ?_⟩
    rintro _ _ ⟨⟩
    exact ⟨rfl, _, rfl, fun digits => absurd digits some, fun _ => ⟨_, text, rfl⟩⟩
  · have inRange := Word.inRange_toInt v
    rw [same] at inRange
    rw [step_of_read_ok instruction location value]
    refine ⟨rfl, by simp [some, inRange], ?_, by simp⟩
    rintro _ ⟨⟩
    exact ⟨v, same, rfl⟩

omit instruction location in
/-- A tab, a minus sign, zeros and the absolute value of the least word, which is no word itself. -/
theorem step_read_exact_least_word :
    ∃ m m' : Machine, m.input = Utf8.encode "\t-0009223372036854775808x" ∧ m.step = .done m' ∧
      m'.stack = [Int64.minValue] ∧ m'.input = [120] := by
  let digits : Bytes :=
    [48, 48, 48, 57, 50, 50, 51, 51, 55, 50, 48, 51, 54, 56, 53, 52, 55, 55, 53, 56, 48, 56]
  let m : Machine := ⟨⟨0, #[.op .read], #[⟨"f", 1, 1⟩]⟩, 0, [], none, 9 :: 45 :: (digits ++ [120]),
    {}, {}⟩
  have input : m.input = Utf8.encode "\t-0009223372036854775808x" := by decide +kernel
  obtain ⟨n, -, unique, -, succeeds, pushes, -⟩ := step_read_exact (m := m) rfl rfl
  have parts : Numeral.Splits m.input ⟨[9], [45], digits, [120]⟩ := by
    constructor <;> decide +kernel
  obtain rfl := unique _ parts
  have integer : (-9223372036854775808 : Int) = Numeral.integer ⟨[9], [45], digits, [120]⟩ := by
    decide
  obtain ⟨m', step⟩ := succeeds.2 ⟨nofun, by rw [← integer]; decide⟩
  obtain ⟨v, value, rfl⟩ := pushes m' step
  obtain rfl : v = Int64.minValue := Int64.toInt_inj.1 (value.trans integer.symm)
  exact ⟨m, _, input, step, rfl, rfl⟩

end Machine

end StackAsm
