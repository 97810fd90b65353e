import Mathlib
import StackAsm.Machine.Basic

set_option autoImplicit false

/-!
# Addresses of a program

As long as the address behind the last instruction is a word, adding up addresses never wraps, and
an address of a program is its start plus the place of the instruction, as integers.

## Main definitions

* `StackAsm.Program.WellFormed` — equally long tables and a last address.

## Main results

* `StackAsm.Word.toInt_add_ofNat` — a sum of an address and a count that is a word does not wrap.
* `StackAsm.Program.indexOf?_eq_some_iff` — the place of an address.
* `StackAsm.Program.WellFormed.append` — a program that continues another one.
-/

namespace StackAsm

/-! ## Sums of words -/

namespace Word

instance (n : Int) : Decidable (InRange n) := inferInstanceAs (Decidable (_ ∧ _))

/-- The range of words, written out. -/
lemma inRange_iff {n : Int} : InRange n ↔ -2 ^ 63 ≤ n ∧ n < 2 ^ 63 := by
  rw [InRange, Int64.toInt_minValue, Int64.toInt_maxValue]
  omega

/-- A natural number is in the range of words if it is less than `2 ^ 63`. -/
lemma inRange_natCast {n : Nat} : InRange n ↔ n < 2 ^ 63 := by
  rw [inRange_iff]
  omega

/-- An integer in range is its own remainder around zero. -/
lemma bmod_of_inRange {n : Int} (h : InRange n) : n.bmod (2 ^ 64) = n := by
  obtain ⟨low, high⟩ := inRange_iff.1 h
  exact Int.bmod_eq_of_le_mul_two (by omega) (by omega)

/-- A sum of a word and a count that is in range does not wrap, whether or not the count is a word
by itself. -/
theorem toInt_add_ofNat {a : Word} {n : Nat} (h : a.toInt + n ≤ Int64.maxValue.toInt) :
    (a + Int64.ofNat n).toInt = a.toInt + n := by
  have inside : InRange (a.toInt + n) := by
    have low := (inRange_toInt a).1
    exact ⟨by omega, h⟩
  calc (a + Int64.ofNat n).toInt
      = (a.toInt + (n : Int).bmod (2 ^ 64)).bmod (2 ^ 64) := by
        rw [Int64.toInt_add, Int64.toInt_ofNat']
        rfl
    _ = (a.toInt + n).bmod (2 ^ 64) := Int.add_bmod_bmod
    _ = a.toInt + n := bmod_of_inRange inside

/-- The word behind a word that is not the last one. -/
lemma toInt_add_one {a : Word} (h : a.toInt < Int64.maxValue.toInt) :
    (a + 1).toInt = a.toInt + 1 :=
  toInt_add_ofNat (n := 1) h

end Word

/-! ## Well-formed programs -/

namespace Program

/-- A program whose tables are equally long and whose addresses are words, up to the one behind the
last instruction. -/
structure WellFormed (p : Program) : Prop where
  /-- The tables are equally long. -/
  tables : p.instructions.size = p.locations.size
  /-- The address behind the last instruction is a word. -/
  fits : p.start.toInt + p.length ≤ Int64.maxValue.toInt

/-- No instructions at address 0 are well-formed. -/
lemma wellFormed_empty : (empty 0).WellFormed := ⟨rfl, by decide⟩

/-- There is an address behind the last instruction exactly if it is not too great for a word. -/
lemma endAddress?_ne_none_iff {p : Program} :
    p.endAddress? ≠ none ↔ p.start.toInt + p.length ≤ Int64.maxValue.toInt := by
  have start := Word.inRange_toInt p.start
  rw [Word.InRange] at start
  rw [endAddress?, ne_eq, Word.ofInt?_eq_none_iff, Word.InRange,
    Decidable.not_not]
  omega

/-- The place of an address, as integers. -/
theorem indexOf?_eq_some_iff {p : Program} {a : Address} {k : Nat} :
    p.indexOf? a = some k ↔ a.toInt = p.start.toInt + k ∧ k < p.length := by
  simp only [indexOf?, Option.ite_none_right_eq_some, Option.some.injEq]
  omega

/-- An address has a place in a program if it is from the start on and before the end. -/
lemma isSome_indexOf?_iff {p : Program} {a : Address} :
    (p.indexOf? a).isSome ↔ p.start.toInt ≤ a.toInt ∧ a.toInt < p.start.toInt + p.length := by
  simp only [indexOf?, Option.isSome_ite]
  omega

/-- An address stays at its place in a program that begins at the same address and goes on as far
at least. -/
lemma indexOf?_of_start_eq {p q : Program} {a : Address} {k : Nat} (start : q.start = p.start)
    (le : p.length ≤ q.length) (index : p.indexOf? a = some k) : q.indexOf? a = some k := by
  obtain ⟨place, inside⟩ := indexOf?_eq_some_iff.1 index
  exact indexOf?_eq_some_iff.2 ⟨start ▸ place, inside.trans_le le⟩

/-- What is in the front of a table is at the same place in the table. -/
lemma getElem?_of_front {α : Type} {table whole : Array α}
    (front : table.toList <+: whole.toList) {k : Nat} (inside : k < table.size) :
    whole[k]? = table[k]? := by
  have inside' : k < table.toList.length := inside
  rw [← Array.getElem?_toList, ← Array.getElem?_toList, List.getElem?_eq_getElem inside']
  exact List.prefix_iff_getElem?.1 front k inside'

/-- The instruction at an address is the one at its place. -/
lemma instructionAt?_of_indexOf? {p : Program} {a : Address} {k : Nat}
    (h : p.indexOf? a = some k) : p.instructionAt? a = p.instructions[k]? := by
  rw [instructionAt?, h, Option.bind_some]

/-- The location at an address is the one at its place. -/
lemma locationAt?_of_indexOf? {p : Program} {a : Address} {k : Nat}
    (h : p.indexOf? a = some k) : p.locationAt? a = p.locations[k]? := by
  rw [locationAt?, h, Option.bind_some]

/-- There is an instruction at exactly the addresses that have a place. -/
lemma isSome_instructionAt?_iff {p : Program} {a : Address} :
    (p.instructionAt? a).isSome ↔ (p.indexOf? a).isSome := by
  cases h : p.indexOf? a with
  | none => simp [instructionAt?, h]
  | some k =>
    have inside : k < p.instructions.size := (indexOf?_eq_some_iff.1 h).2
    simp [instructionAt?_of_indexOf? h, inside]

/-- In a well-formed program there is a location at exactly the addresses that have a place. -/
lemma WellFormed.isSome_locationAt?_iff {p : Program} (wf : p.WellFormed) {a : Address} :
    (p.locationAt? a).isSome ↔ (p.indexOf? a).isSome := by
  cases h : p.indexOf? a with
  | none => simp [locationAt?, h]
  | some k =>
    have inside : k < p.instructions.size := (indexOf?_eq_some_iff.1 h).2
    rw [wf.tables] at inside
    simp [locationAt?_of_indexOf? h, inside]

/-- The length of two programs is the sum of their lengths. -/
@[simp] lemma length_append (p q : Program) : (p.append q).length = p.length + q.length :=
  Array.size_append

/-- A program that is put behind another one, at its end, makes with it a longer program. -/
theorem WellFormed.append {p q : Program} (hp : p.WellFormed) (hq : q.WellFormed)
    (follows : q.start.toInt = p.start.toInt + p.length) : (p.append q).WellFormed where
  tables := by simp [Program.append, hp.tables, hq.tables]
  fits := by
    have := hq.fits
    rw [length_append]
    show p.start.toInt + _ ≤ _
    omega

end Program

/-- The next free address of a well-formed machine is the one behind its last instruction. -/
lemma Machine.toInt_nextAddress {m : Machine} (wf : m.code.WellFormed) :
    m.nextAddress.toInt = m.code.start.toInt + m.code.length :=
  Word.toInt_add_ofNat wf.fits

/-- A machine without a program takes over the one that is loaded. -/
lemma Machine.load_fresh_eq {p : Program} (fits : p.endAddress? ≠ none) (budget : Option Nat)
    (input : Bytes) (output diagnostics : Sink) :
    (fresh budget input output diagnostics).load p =
      .ok ⟨p, p.start, [], budget, input, output, diagnostics⟩ := by
  have empty : (fresh budget input output diagnostics).isEmpty = true := rfl
  rw [load, if_neg fits, if_pos empty]
  simp [append, Program.append, fresh, Program.empty]

/-- At an instruction of a well-formed program the address behind it is one more. -/
lemma Machine.toInt_pc_add_one {m : Machine} (wf : m.code.WellFormed) (running : m.isRunning) :
    (m.pc + 1).toInt = m.pc.toInt + 1 := by
  have inside := (Program.isSome_indexOf?_iff.1 running).2
  have fits := wf.fits
  exact Word.toInt_add_one (by omega)

end StackAsm
