import StackAsm.Proofs.Numeral.Reading
import StackAsm.Proofs.Reachable
import StackAsm.Proofs.Source.Printing

set_option autoImplicit false

/-!
# Reading printed integers

An integer is printed as a minus sign, if it is negative, and digits; and these are what is read as
this integer, as long as no digit follows. So integers that were printed with blanks between them
are read again by as many instructions, in the same order, and what follows the last one is not
touched.

## Main definitions

* `StackAsm.Word.PrintedAs` — the bytes that an integer is printed as.
* `StackAsm.Numeral.Field` — an integer and the blanks behind it.
* `StackAsm.Machine.ReadsAt` — at an address there is an instruction that reads an integer.

## Main results

* `StackAsm.Numeral.splits_printed`, `StackAsm.Numeral.value_printed` — a printed integer is a
  numeral that is worth this integer.
* `StackAsm.Machine.step_of_printed` — a printed integer is read.
* `StackAsm.Machine.exists_print_visits_of_reads` — a list of printed integers is read.
-/

namespace StackAsm

/-- An integer is printed as `bytes`: a machine with this integer on top of its stack and with room
for its output prints it, and these bytes are what it writes. -/
def Word.PrintedAs (v : Word) (bytes : Bytes) : Prop :=
  ∀ (m : Machine) (s : List Word) (l : Location), m.output.capacity = none → m.stack = v :: s →
    ∃ m', m.execute (.op .print) l = .done m' ∧
      m'.output.written.toList = m.output.written.toList ++ bytes

/-- A word is printed as its numeral. -/
lemma Word.printedAs_text (v : Word) : v.PrintedAs (Utf8.encode v.text) := by
  intro m s l unlimited top
  have fits := Sink.fits_of_unlimited unlimited (Utf8.encode v.text)
  refine ⟨{ m with output := m.output.write (Utf8.encode v.text), stack := s, pc := m.pc + 1 }, ?_,
    Sink.written_write_of_unlimited unlimited _⟩
  simp only [Machine.execute, top, Machine.write, if_pos fits]
  rfl

/-- An integer is printed in one way. -/
lemma Word.printedAs_iff {v : Word} {bytes : Bytes} :
    v.PrintedAs bytes ↔ bytes = Utf8.encode v.text := by
  constructor
  · intro printed
    let m : Machine := { Machine.fresh none [] {} {} with stack := [v] }
    obtain ⟨m', done, written⟩ := printed m [] ⟨"", 1, 1⟩ rfl rfl
    obtain ⟨n, done', written'⟩ := v.printedAs_text m [] ⟨"", 1, 1⟩ rfl rfl
    obtain rfl : m' = n := Outcome.done.inj (done.symm.trans done')
    exact List.append_cancel_left (written.symm.trans written')
  · rintro rfl
    exact v.printedAs_text

namespace Numeral

/-! ## One integer -/

/-- The bytes of the digits of a number. -/
def digitsOf (n : Nat) : Bytes := n.repr.toList.map fun c => UInt8.ofNat c.toNat

/-- The sign that is printed in front of the digits of a word. -/
def signOf (v : Word) : Bytes := if v.toInt < 0 then [45] else []

/-- The byte of a digit. -/
lemma toNat_ofNat_of_isDigit {c : Char} (digit : c.isDigit) :
    (UInt8.ofNat c.toNat).toNat = c.toNat ∧ 48 ≤ c.toNat ∧ c.toNat ≤ 57 := by
  simp only [Char.isDigit, Bool.and_eq_true, decide_eq_true_eq, UInt32.le_iff_toNat_le] at digit
  exact ⟨UInt8.toNat_ofNat_of_lt' (digit.2.trans_lt (by decide)), digit⟩

/-- The digits of a number are digits. -/
lemma isDigit_of_mem_digitsOf {n : Nat} {b : UInt8} (mem : b ∈ digitsOf n) : isDigit b := by
  obtain ⟨c, c_mem, rfl⟩ := List.mem_map.1 mem
  obtain ⟨same, range⟩ := toNat_ofNat_of_isDigit ((Source.isNumeral_repr n).2 c c_mem)
  rw [isDigit_iff, same]
  exact range

/-- The bytes of digits number the characters of the digits. -/
lemma chars_digitsOf (n : Nat) :
    (digitsOf n).map (fun b => Char.ofNat b.toNat) = n.repr.toList := by
  rw [digitsOf, List.map_map]
  refine List.map_congr_left (fun c mem => ?_) |>.trans (List.map_id _)
  obtain ⟨same, -⟩ := toNat_ofNat_of_isDigit ((Source.isNumeral_repr n).2 c mem)
  rw [Function.comp_apply, same, Char.ofNat_toNat, id]

/-- The numeral of a word is its sign and the digits of its absolute value. -/
lemma encode_text (v : Word) : Utf8.encode v.text = signOf v ++ digitsOf v.toInt.natAbs := by
  have digits : Utf8.encode v.toInt.natAbs.repr = digitsOf v.toInt.natAbs := by
    rw [← String.ofList_toList (s := v.toInt.natAbs.repr), ← chars_digitsOf]
    refine Utf8.encode_ofBytes fun b mem => ?_
    exact (isDigit_iff.1 (isDigit_of_mem_digitsOf mem)).2.trans_lt (by decide)
  rw [Word.text, Decimal.text, signOf]
  split
  · rw [Utf8.encode_append, digits]
    rfl
  · exact digits

/-- Every number has digits. -/
lemma digitsOf_ne_nil (n : Nat) : digitsOf n ≠ [] := by simp [digitsOf]

/-- A blank is no digit. -/
lemma not_isDigit_of_isBlank {b : UInt8} (blank : isBlank b) : ¬ isDigit b := by
  rw [isDigit_iff]
  simp only [isBlank, Bool.or_eq_true, Bool.and_eq_true, decide_eq_true_eq,
    UInt8.le_iff_toNat_le] at blank
  rcases blank with rfl | ⟨-, le⟩
  · decide
  · exact fun digit => absurd (digit.1.trans le) (by decide)

/-- A sign is no digit. -/
lemma not_isDigit_of_isSign {b : UInt8} (sign : isSign b) : ¬ isDigit b := by
  simp only [isSign, Bool.or_eq_true, decide_eq_true_eq] at sign
  rcases sign with rfl | rfl <;> decide

section Printed

variable (v : Word) {blank rest : Bytes}

/-- A printed integer is worth this integer. -/
theorem value_printed : value ⟨blank, signOf v, digitsOf v.toInt.natAbs, rest⟩ = .ok v := by
  have integer : Decimal.value (signOf v = [45]) v.toInt.natAbs.repr.toList = v.toInt := by
    have magnitude := Decimal.value_text v.toInt.natAbs
    by_cases negative : v.toInt < 0
    · have value : Decimal.value true v.toInt.natAbs.repr.toList = -Decimal.value false _ := rfl
      simp only [signOf, if_pos negative, decide_true, value, magnitude]
      omega
    · simp only [signOf, if_neg negative, List.nil_eq, reduceCtorEq, decide_false, magnitude]
      omega
  simp only [value, if_neg (digitsOf_ne_nil _), chars_digitsOf, integer, Word.ofInt?_toInt]

/-- A printed integer between blanks, or nothing, and what does not begin with a digit is the
numeral at the front of the input. -/
theorem splits_printed (blanks : ∀ b ∈ blank, isBlank b) (ends : ∀ b ∈ rest.head?, ¬ isDigit b) :
    Splits (blank ++ Utf8.encode v.text ++ rest)
      ⟨blank, signOf v, digitsOf v.toInt.natAbs, rest⟩ := by
  have front : ∀ b ∈ (digitsOf v.toInt.natAbs ++ rest).head?, isDigit b := by
    intro b first
    rw [List.head?_append_of_ne_nil _ (digitsOf_ne_nil _)] at first
    exact isDigit_of_mem_digitsOf (List.mem_of_head? first)
  refine ⟨?_, blanks, ?_, ?_, fun _ mem => isDigit_of_mem_digitsOf mem, ends⟩
  · rw [encode_text, List.append_assoc blank]
  · intro b first blank
    unfold signOf at first
    split at first
    · obtain rfl : 45 = b := Option.some.inj first
      cases blank
    · exact not_isDigit_of_isBlank blank (front b first)
  · unfold signOf
    split
    · exact .inl ⟨45, rfl, rfl⟩
    · exact .inr ⟨rfl, fun b first sign => not_isDigit_of_isSign sign (front b first)⟩

end Printed

/-! ## Several integers -/

/-- An integer and the blanks behind it. -/
structure Field where
  /-- The integer. -/
  value : Word
  /-- The blanks. -/
  behind : Bytes
  /-- They are nothing else. -/
  blank : ∀ b ∈ behind, isBlank b

/-- Behind an integer there is no digit if there are blanks, and otherwise none if none follows. -/
lemma Field.ends (f : Field) {rest : Bytes}
    (ends : f.behind = [] → ∀ b ∈ rest.head?, ¬ isDigit b) :
    ∀ b ∈ (f.behind ++ rest).head?, ¬ isDigit b := by
  intro b first
  by_cases none : f.behind = []
  · rw [none, List.nil_append] at first
    exact ends none b first
  · rw [List.head?_append_of_ne_nil _ none] at first
    exact not_isDigit_of_isBlank (f.blank b (List.mem_of_head? first))

/-- The bytes of printed integers with blanks behind them, if `print` says how each is printed. -/
def Field.bytes (print : Word → Bytes) (fields : List Field) : Bytes :=
  fields.flatMap fun f => print f.value ++ f.behind

end Numeral

namespace Machine

open Numeral (Field)

variable {m : Machine}

/-- An address is counted on from the next one. -/
lemma address_add_succ (a : Address) (k : Nat) :
    a + 1 + Int64.ofNat k = a + Int64.ofNat (k + 1) := by
  rw [Int64.ofNat_add, Int64.add_comm (Int64.ofNat k), Int64.add_assoc]
  rfl

/-- At an address of a program there is an instruction that reads an integer. -/
def ReadsAt (m : Machine) (a : Address) : Prop :=
  m.code.instructionAt? a = some (.op .read) ∧ (m.code.locationAt? a).isSome

/-- **A printed integer is read.** -/
theorem step_of_printed (reads : m.ReadsAt m.pc) {v : Word} {blank rest : Bytes}
    (blanks : ∀ b ∈ blank, Numeral.isBlank b) (ends : ∀ b ∈ rest.head?, ¬ Numeral.isDigit b)
    (input : m.input = blank ++ Utf8.encode v.text ++ rest) :
    m.step = .done { m with input := rest, stack := v :: m.stack, pc := m.pc + 1 } := by
  obtain ⟨instruction, source⟩ := reads
  obtain ⟨l, location⟩ := Option.isSome_iff_exists.1 source
  have parts := (Numeral.splits_printed v blanks ends).eq_split
  rw [← input] at parts
  have value : (Numeral.split m.input).value = .ok v := parts ▸ Numeral.value_printed v
  rw [step_of_read_ok instruction location value, ← parts]

/-- Printed integers are read one after the other, each with the blanks in front of it.

**Proof sketch.** Induction on the integers, with the blanks in front of the first one: behind the
first step, these are the blanks behind the integer that was read. -/
lemma visits_of_reads (fields : List Field) {last : Field} {m : Machine} {front rest : Bytes}
    (blanks : ∀ b ∈ front, Numeral.isBlank b) (parted : ∀ f ∈ fields, f.behind ≠ [])
    (ends : last.behind = [] → ∀ b ∈ rest.head?, ¬ Numeral.isDigit b)
    (input : m.input =
      front ++ Field.bytes (fun v => Utf8.encode v.text) (fields ++ [last]) ++ rest)
    (reads : ∀ k ≤ fields.length, m.ReadsAt (m.pc + Int64.ofNat k)) :
    Visits (fields.length + 1) m { m with
      input := last.behind ++ rest
      stack := ((fields ++ [last]).map Field.value).reverse ++ m.stack
      pc := m.pc + Int64.ofNat (fields.length + 1) } := by
  induction fields generalizing m front with
  | nil =>
    have here : m.ReadsAt m.pc := by simpa using reads 0 le_rfl
    have parts : m.input = front ++ Utf8.encode last.value.text ++ (last.behind ++ rest) := by
      simpa [Field.bytes] using input
    have step := step_of_printed here blanks (last.ends ends) parts
    exact .step (isRunning_of_instruction? here.1) step .start
  | cons f fields ih =>
    have here : m.ReadsAt m.pc := by simpa using reads 0 (Nat.zero_le _)
    rw [List.forall_mem_cons] at parted
    let later := Field.bytes (fun v => Utf8.encode v.text) (fields ++ [last]) ++ rest
    have parts : m.input = front ++ Utf8.encode f.value.text ++ (f.behind ++ later) := by
      simpa [Field.bytes, later] using input
    let next : Machine :=
      { m with input := f.behind ++ later, stack := f.value :: m.stack, pc := m.pc + 1 }
    have step : m.step = .done next :=
      step_of_printed here blanks (f.ends fun none => absurd none parted.1) parts
    have reads_next : ∀ k ≤ fields.length, next.ReadsAt (next.pc + Int64.ofNat k) := by
      intro k le
      rw [address_add_succ]
      exact reads (k + 1) (Nat.succ_le_succ le)
    have more := ih f.blank parted.2 (List.append_assoc ..).symm reads_next
    refine .step (isRunning_of_instruction? here.1) step ?_
    simp only [next, address_add_succ] at more
    simpa using more

/-- **Reading is the inverse of printing.** Every integer is printed in one way. Let the unread
input of a machine begin with printed integers, with any blanks in front of the first one and with
blanks behind each of them; there have to be some between two integers, and behind the last one if a
digit follows. If the machine is in front of as many instructions that read an integer, it executes
all of them, and they push these integers in their order. The blanks behind the last integer and all
that follows them stay unread; nothing else changes but the program counter. -/
theorem exists_print_visits_of_reads :
    ∃ print : Word → Bytes, (∀ v bytes, v.PrintedAs bytes ↔ bytes = print v) ∧
      ∀ (m : Machine) (fields : List Field) (last : Field) (front rest : Bytes),
        (∀ b ∈ front, Numeral.isBlank b) → (∀ f ∈ fields, f.behind ≠ []) →
        (last.behind = [] → ∀ b ∈ rest.head?, ¬ Numeral.isDigit b) →
        m.input = front ++ Field.bytes print (fields ++ [last]) ++ rest →
        (∀ k ≤ fields.length, m.ReadsAt (m.pc + Int64.ofNat k)) →
        Visits (fields.length + 1) m { m with
          input := last.behind ++ rest
          stack := ((fields ++ [last]).map Field.value).reverse ++ m.stack
          pc := m.pc + Int64.ofNat (fields.length + 1) } :=
  ⟨fun v => Utf8.encode v.text, fun _ _ => Word.printedAs_iff,
    fun _ fields _ _ _ => visits_of_reads fields⟩

/-- The least word, a line feed, zero, two blanks and the greatest word, with a letter right behind
it. -/
theorem exists_print_visits_of_reads_extremes :
    ∃ m n : Machine, m.input = Utf8.encode "-9223372036854775808\n0\t 9223372036854775807x" ∧
      Visits 3 m n ∧ n.stack = [Int64.maxValue, 0, Int64.minValue] ∧ n.input = Utf8.encode "x" := by
  let l : Location := ⟨"f", 1, 1⟩
  let m : Machine := ⟨⟨-1, #[.op .read, .op .read, .op .read], #[l, l, l]⟩, -1, [], none,
    Utf8.encode "-9223372036854775808\n0\t 9223372036854775807x", {}, {}⟩
  let fields : List Field :=
    [⟨Int64.minValue, [10], by simp [Numeral.isBlank]⟩, ⟨0, [9, 32], by simp [Numeral.isBlank]⟩]
  let last : Field := ⟨Int64.maxValue, [], by simp⟩
  obtain ⟨print, printed, reads⟩ := exists_print_visits_of_reads
  obtain rfl : print = fun v => Utf8.encode v.text :=
    funext fun v => ((printed v _).1 v.printedAs_text).symm
  have at_reads : ∀ k ≤ 2, m.ReadsAt (m.pc + Int64.ofNat k) := by
    intro k le
    interval_cases k <;> exact ⟨by decide +kernel, by decide +kernel⟩
  have visits := reads m fields last [] [120] (by simp) (by simp [fields])
    (by simp [Numeral.isDigit]) (by decide +kernel) at_reads
  exact ⟨m, _, rfl, visits, rfl, rfl⟩

end Machine

end StackAsm
