import StackAsm.Listing
import StackAsm.Proofs.Source.Printing

set_option autoImplicit false

/-!
# What a listing marks

A listing shows where the jumps of a program lead, as far as its text tells: a push directly before
a jump shows its target, and the instruction at a target is set off and marked. The targets are
collected before the first line is written, from the addresses of the instructions and not from
their places, so it has to be seen that an address leads back to its place, even where addresses
wrap around behind the last word.

## Main definitions

* `StackAsm.Program.PushesTarget` — at a place there is a push directly before a jump.
* `StackAsm.Program.IsTarget` — an address that is pushed directly before a jump.
* `StackAsm.Instruction.Ends` — whether a text can stand behind that of an instruction.
* `StackAsm.Program.arrow` — what is shown behind the text of an instruction.

## Main results

* `StackAsm.Program.getElem?_entries` — the entry at a place.
* `StackAsm.Program.feedsJump_iff` — whether a jump stands behind an address.
* `StackAsm.Program.mem_jumpTargets_iff` — the targets that are collected.
* `StackAsm.Instruction.text_append_inj` — the text of an instruction is read back.
* `StackAsm.Program.entryText_eq_iff` — the text of an entry tells its instruction and its arrow.
* `StackAsm.Program.listing_marks_targets` — what is marked in a listing.
-/

namespace StackAsm

namespace Program

/-! ## Places and addresses -/

variable {p : Program} {k : Nat} {e : Entry} {n : Address}

/-- The entry at a place has what the tables have there, and the address of the place. -/
theorem getElem?_entries : p.entries[k]? = some e ↔ e.index = k ∧
    e.address = p.start + Int64.ofNat k ∧ p.instructions[k]? = some e.instruction ∧
      p.locations[k]? = some e.location := by
  obtain ⟨index, address, i, l⟩ := e
  have both : (p.instructions.zip p.locations).toList[k]? = some (i, l) ↔
      p.instructions[k]? = some i ∧ p.locations[k]? = some l := by
    rw [Array.getElem?_toList, Array.getElem?_zip_eq_some]
  simp only [entries, List.getElem?_map, List.getElem?_zipIdx, ← both, Option.map_map,
    Option.map_eq_some_iff, Function.comp_apply, Nat.zero_add, Entry.mk.injEq]
  constructor
  · rintro ⟨_, found, rfl, rfl, rfl, rfl⟩
    exact ⟨rfl, rfl, found⟩
  · rintro ⟨rfl, rfl, found⟩
    exact ⟨(i, l), found, rfl, rfl, rfl, rfl⟩

/-- The entries of a program are the instructions with their addresses and locations. -/
lemma mem_entries_iff : e ∈ p.entries ↔ e.address = p.start + Int64.ofNat e.index ∧
    p.instructions[e.index]? = some e.instruction ∧ p.locations[e.index]? = some e.location := by
  rw [List.mem_iff_getElem?]
  simp only [getElem?_entries, exists_eq_left']

/-- If the tables are equally long, there is an entry for each instruction. -/
lemma length_entries (tables : p.instructions.size = p.locations.size) :
    p.entries.length = p.length := by
  simp [entries, length, tables]

/-! ## Targets of jumps -/

/-- At the place `k` there is a push of `n`, and behind it there is a jump. -/
def PushesTarget (p : Program) (k : Nat) (n : Address) : Prop :=
  p.instructions[k]? = some (.push n) ∧
    ∃ o ∈ [Opcode.jmp, .jeq, .jnq, .jgt, .jlt], p.instructions[k + 1]? = some (.op o)

/-- The address `a` is pushed directly before a jump. -/
def IsTarget (p : Program) (a : Address) : Prop := ∃ j, p.PushesTarget j a

/-- Subtracting the start from the address of a place leads back to the place, and one more to the
next, whether or not addresses wrap around on the way. -/
lemma place_behind (start : Address) (inside : k + 1 < 2 ^ 64) :
    (start + Int64.ofNat k - start + 1).toUInt64.toNat = k + 1 := by
  have behind : start + Int64.ofNat k - start + 1 = Int64.ofNat k + 1 := by grind
  have bits : (Int64.ofNat k + 1).toUInt64 = UInt64.ofNat (k + 1) := by
    rw [Int64.toUInt64_add, UInt64.ofNat_add]
    rfl
  rw [behind, bits, UInt64.toNat_ofNat_of_lt' inside]

/-- Five opcodes are jumps. -/
lemma isJump_iff {i : Instruction} :
    i.isJump ↔ ∃ o ∈ [Opcode.jmp, .jeq, .jnq, .jgt, .jlt], i = .op o := by
  cases i with
  | push n => simp [Instruction.isJump]
  | op o => cases o <;> simp [Instruction.isJump, Opcode.isJump]

section Targets

variable (short : p.length < 2 ^ 64)
include short

/-- A jump stands behind the address of a place exactly if it is the next instruction. -/
theorem feedsJump_iff (inside : k < p.length) : p.feedsJump (p.start + Int64.ofNat k) ↔
    ∃ o ∈ [Opcode.jmp, .jeq, .jnq, .jgt, .jlt], p.instructions[k + 1]? = some (.op o) := by
  have inside' : k + 1 < 2 ^ 64 := by omega
  rw [feedsJump, place_behind p.start inside', Option.any_eq_true]
  constructor
  · rintro ⟨i, next, jump⟩
    obtain ⟨o, mem, rfl⟩ := isJump_iff.1 jump
    exact ⟨o, mem, next⟩
  · rintro ⟨o, mem, next⟩
    exact ⟨.op o, next, isJump_iff.2 ⟨o, mem, rfl⟩⟩

/-- An entry shows a target exactly if it pushes it directly before a jump. -/
lemma jumpTarget?_eq_some_iff (mem : e ∈ p.entries) :
    p.jumpTarget? e = some n ↔ p.PushesTarget e.index n := by
  obtain ⟨address, instruction, -⟩ := mem_entries_iff.1 mem
  have inside : e.index < p.length := (Array.getElem?_eq_some_iff.1 instruction).1
  have jump := feedsJump_iff short inside
  rw [← address] at jump
  rw [PushesTarget, instruction, ← jump, jumpTarget?]
  cases e.instruction with
  | op o => simp
  | push m => simp [and_comm]

/-- **The targets that are collected** are the addresses pushed directly before a jump. -/
theorem mem_jumpTargets_iff (tables : p.instructions.size = p.locations.size) {a : Address} :
    a ∈ p.jumpTargets ↔ p.IsTarget a := by
  rw [jumpTargets, List.mem_filterMap]
  constructor
  · rintro ⟨e, mem, target⟩
    exact ⟨e.index, (jumpTarget?_eq_some_iff short mem).1 target⟩
  · rintro ⟨j, pushes⟩
    have inside : j < p.locations.size := tables ▸ (Array.getElem?_eq_some_iff.1 pushes.1).1
    have mem : (⟨j, p.start + Int64.ofNat j, .push a, p.locations[j]⟩ : Entry) ∈ p.entries :=
      mem_entries_iff.2 ⟨rfl, pushes.1, Array.getElem?_eq_getElem inside⟩
    exact ⟨_, mem, (jumpTarget?_eq_some_iff short mem).2 pushes⟩

end Targets

end Program

/-! ## Texts of instructions -/

namespace Instruction

/-- The text of an instruction spells it. -/
lemma spells_text (i : Instruction) : Source.Spells i.text.toList (.instr i) :=
  Token.WellNamed.spells (t := .instr i) trivial

/-- The text of an instruction begins with a letter, a digit or a minus sign and has no other
characters. -/
lemma mem_text {i : Instruction} {c : Char} (mem : c ∈ i.text.toList) :
    c = '-' ∨ c.isDigit ∨ c.isAlpha := by
  generalize text : i.text.toList = x at mem
  generalize token : Token.instr i = t
  have spells : Source.Spells x t := text ▸ token ▸ i.spells_text
  cases spells with
  | define _ => cases token
  | refer _ => cases token
  | unsigned numeral _ => exact .inr (.inl (numeral.2 c mem))
  | negative numeral _ =>
    rcases List.mem_cons.1 mem with rfl | digit
    · exact .inl rfl
    · exact .inr (.inl (numeral.2 c digit))
  | op o => exact .inr (.inr ((Source.isWord_mnemonic o).2 c mem))

/-- What ends the text of any instruction before it: a text that begins neither with a letter nor
with a digit. -/
def Ends (cs : List Char) : Prop := ∀ c ∈ cs.head?, ¬ c.isAlpha ∧ ¬ c.isDigit

/-- A text ends an instruction if its first character is neither a letter nor a digit. -/
@[simp] lemma ends_cons {c : Char} {cs : List Char} :
    Ends (c :: cs) ↔ ¬ c.isAlpha ∧ ¬ c.isDigit := by
  simp [Ends]

/-- An instruction does not go on in a text that ends it. -/
lemma Ends.closed {cs : List Char} (ends : Ends cs) (i : Instruction) :
    Source.Closed (.instr i) cs := by
  cases i with
  | push n => exact fun c mem => (ends c mem).2
  | op o => exact fun c mem => (ends c mem).1

/-- **The text of an instruction is read back**: before what ends it, it is the text of no other
instruction. -/
theorem text_append_inj {i j : Instruction} {cs ds : List Char} (ends : Ends cs) (ends' : Ends ds)
    (same : i.text.toList ++ cs = j.text.toList ++ ds) : i = j ∧ cs = ds := by
  obtain ⟨c, x, text, -⟩ := i.spells_text.starts
  obtain ⟨d, y, text', -⟩ := j.spells_text.starts
  have spells := i.spells_text
  have spells' := j.spells_text
  rw [text] at spells
  rw [text'] at spells'
  rw [text, text', List.cons_append, List.cons_append, List.cons.injEq] at same
  obtain ⟨rfl, same⟩ := same
  -- the reader takes both texts from the same characters
  have read := Source.lexeme_append spells (ends.closed i)
  rw [same, Source.lexeme_append spells' (ends'.closed j)] at read
  obtain rfl : j = i := by
    injection read with read
    injection read with read
    injection read
  obtain rfl : x = y := (List.cons.inj (text.symm.trans text')).2
  exact ⟨rfl, List.append_cancel_left same⟩

end Instruction

/-! ## What is marked -/

namespace Program

variable {p : Program} {k : Nat} {e : Entry} {n : Address}

/-- What is shown behind the text of an instruction: the target of the jump behind it, if it pushes
one. -/
def arrow : Option Address → String
  | some n => " (→ " ++ Column.padZero 4 n.toInt ++ ")"
  | none => ""

/-- What is shown behind an instruction ends its text. -/
lemma ends_arrow (target : Option Address) (spaces : Nat) :
    Instruction.Ends ((arrow target).toList ++ List.replicate spaces ' ') := by
  cases target with
  | some n => simp [arrow]
  | none => cases spaces <;> simp [arrow, Instruction.Ends, List.replicate_succ]

/-- An entry that shows a target pushes it. -/
lemma instruction_of_jumpTarget? (target : p.jumpTarget? e = some n) :
    e.instruction = .push n := by
  unfold jumpTarget? at target
  split at target <;> simp_all

/-- The text of an entry is that of its instruction and perhaps an arrow. -/
lemma entryText_eq (p : Program) (e : Entry) :
    p.entryText e = e.instruction.text ++ arrow (p.jumpTarget? e) := by
  unfold entryText
  cases target : p.jumpTarget? e with
  | none => simp [arrow]
  | some n => simp [arrow, instruction_of_jumpTarget? target, Instruction.text, String.append_assoc]

/-- **The text of an entry tells the instruction and whether there is an arrow**, which is no part
of the text of any instruction. -/
theorem entryText_eq_iff {i : Instruction} {target : Option Address}
    (pushed : ∀ n ∈ target, i = .push n) :
    p.entryText e = i.text ++ arrow target ↔ e.instruction = i ∧ p.jumpTarget? e = target := by
  rw [entryText_eq]
  constructor
  · intro same
    have ends (target : Option Address) : Instruction.Ends (arrow target).toList := by
      simpa using ends_arrow target 0
    have lists := congrArg String.toList same
    rw [String.toList_append, String.toList_append] at lists
    obtain ⟨instruction, arrows⟩ := Instruction.text_append_inj (ends _) (ends _) lists
    refine ⟨instruction, ?_⟩
    cases shown : p.jumpTarget? e with
    | none =>
      cases target with
      | none => rfl
      | some n => simp [shown, arrow] at arrows
    | some m =>
      cases target with
      | none => simp [shown, arrow] at arrows
      | some n =>
        have push : Instruction.push m = .push n := by
          rw [← instruction_of_jumpTarget? shown, instruction, pushed n rfl]
        rw [Instruction.push.inj push]
  · rintro ⟨rfl, rfl⟩
    rfl

/-- **A listing marks the targets of jumps**, as far as they are pushed directly before the jump. It
consists of its heading and a block for each instruction, in order. The block has the address, which
wraps around behind the last word, the text of the instruction and its place. It is set off by a
rule and marked exactly if some push of its address stands directly before a jump; and the text
shows an arrow to `n` exactly if the instruction is a push of `n` directly before a jump, and is
else the text of the instruction alone. The instructions are fewer than there are addresses, as
those of every table in memory are.

**Proof sketch.** The targets that are collected are the addresses pushed before a jump
(`mem_jumpTargets_iff`), since an address leads back to its place (`feedsJump_iff`). Whether a text
has an arrow, and to which number, can be read off it (`entryText_eq_iff`). -/
theorem listing_marks_targets (p : Program) (tables : p.instructions.size = p.locations.size)
    (short : p.length < 2 ^ 64) :
    ∃ blocks : List String, p.listing = p.heading ++ String.join blocks ∧
      blocks.length = p.length ∧
      ∀ k i l, p.instructions[k]? = some i → p.locations[k]? = some l →
        ∃ above marker text,
          blocks[k]? = some (above ++ Column.padZero 4 (p.start + Int64.ofNat k).toInt ++ marker ++
            Column.padRight 12 text ++ "; " ++ l.tag ++ "\n") ∧
          (p.IsTarget (p.start + Int64.ofNat k) ↔ above = rule ∧ marker = " ► ") ∧
          (¬ p.IsTarget (p.start + Int64.ofNat k) ↔ above = "" ∧ marker = "   ") ∧
          (∀ n, p.PushesTarget k n ↔ text = n.text ++ " (→ " ++ Column.padZero 4 n.toInt ++ ")") ∧
          ((∀ n, ¬ p.PushesTarget k n) ↔ text = i.text) := by
  refine ⟨p.entries.map (p.entryLines p.jumpTargets), rfl, ?_, fun k i l instruction location => ?_⟩
  · rw [List.length_map, length_entries tables]
  let e : Entry := ⟨k, p.start + Int64.ofNat k, i, l⟩
  have here : p.entries[k]? = some e := getElem?_entries.2 ⟨rfl, rfl, instruction, location⟩
  have mem : e ∈ p.entries := List.mem_of_getElem? here
  have pushes (n : Address) : p.PushesTarget k n ↔ p.jumpTarget? e = some n :=
    (jumpTarget?_eq_some_iff short mem).symm
  have target : p.IsTarget (p.start + Int64.ofNat k) ↔ p.jumpTargets.contains e.address := by
    rw [List.contains_iff_mem, mem_jumpTargets_iff short tables]
  refine ⟨if p.jumpTargets.contains e.address then rule else "",
    if p.jumpTargets.contains e.address then " ► " else "   ", p.entryText e, ?_, ?_, ?_, ?_, ?_⟩
  · rw [List.getElem?_map, here]
    rfl
  · rw [target]
    split <;> simp_all [rule]
  · rw [target]
    split <;> simp_all [rule]
  · intro n
    have shown : p.entryText e = (Instruction.push n).text ++ arrow (some n) ↔
        e.instruction = .push n ∧ p.jumpTarget? e = some n := entryText_eq_iff (by simp)
    have whole : (Instruction.push n).text ++ arrow (some n) =
        n.text ++ " (→ " ++ Column.padZero 4 n.toInt ++ ")" := by
      simp [arrow, Instruction.text, String.append_assoc]
    rw [pushes, ← whole, shown, and_iff_right_of_imp instruction_of_jumpTarget?]
  · have shown : p.entryText e = i.text ++ arrow none ↔
        e.instruction = i ∧ p.jumpTarget? e = none := entryText_eq_iff (by simp)
    rw [arrow, String.append_empty] at shown
    simp only [pushes, ← Option.eq_none_iff_forall_ne_some]
    rw [shown, and_iff_right_of_imp fun _ => rfl]

/-- The second instruction is behind the last word, at the least one, which the first one pushes. -/
theorem listing_marks_targets_wrapped :
    ∃ first, listing ⟨Int64.maxValue, #[.push Int64.minValue, .op .jmp],
        #[⟨"f", 1, 1⟩, ⟨"f", 1, 3⟩]⟩ =
      "; 2 instructions from address 9223372036854775807 (past the last address)\n" ++ (first ++
        (rule ++ "-9223372036854775808 ► jmp         ; f:1:3\n")) := by
  obtain ⟨blocks, whole, count, each⟩ := listing_marks_targets
    ⟨Int64.maxValue, #[.push Int64.minValue, .op .jmp], #[⟨"f", 1, 1⟩, ⟨"f", 1, 3⟩]⟩ rfl (by decide)
  obtain ⟨first, second, rfl⟩ := List.length_eq_two.1 count
  obtain ⟨above, marker, text, block, target, -, -, plain⟩ := each 1 _ _ rfl rfl
  obtain ⟨rfl, rfl⟩ := target.1 ⟨0, rfl, .jmp, by simp, rfl⟩
  obtain rfl := plain.1 fun n pushes => by cases pushes.1
  refine ⟨first, whole.trans ?_⟩
  obtain rfl := Option.some.inj block
  rw [String.join_cons, String.join_cons, String.join_nil, String.append_empty]
  exact congrArg₂ (· ++ ·) (by decide) (congrArg (first ++ ·) (by decide +kernel))

end Program

end StackAsm
