import StackAsm.Proofs.Image.Truncation

set_option autoImplicit false

/-!
# Images that are written again

Numbers can be written with more groups than they need, so a program has many images. All of them
end where the reader says, whatever follows them; and among them the one that is written is the
shortest, because it is so for each number, and all the other bytes of an image are given by the
program.

## Main definitions

* `StackAsm.Image.Canonical` — a way of writing values that is read back and is never longer than
  what a value was read from.
* `StackAsm.Program.Delimits` — the bytes of an image, all of them and no others.

## Main results

* `StackAsm.Image.canonical_varint` — numbers are written with the fewest groups.
* `StackAsm.Image.canonical_list` — sequences are written as their values are.
* `StackAsm.Image.canonical_image` — so are programs.
* `StackAsm.Program.delimits_of_ofImage` — what is read as a program can be loaded, has one front
  that is its image, and is written with no more bytes.
-/

namespace StackAsm

namespace Image

variable {α : Type} {bytes rest : Bytes}

/-- Whatever a reader yields can be written and read back, with no more bytes than it was read
from. -/
def Canonical (reader : Reader α) (write : α → Bytes) : Prop :=
  ∀ bytes x rest, reader bytes = .ok (x, rest) →
    Reads reader (write x) x ∧ (write x).length + rest.length ≤ bytes.length

/-! ## Natural numbers -/

section Varint

variable {last more n : Nat}

/-- The last group that is permitted is not above the greatest one. -/
lemma readVarint_zero (read : readVarint last 0 bytes = .ok (n, rest)) :
    ∃ b : UInt8, bytes = b :: rest ∧ n = b.toNat ∧ n ≤ last := by
  obtain ⟨b, middle, first, second⟩ := bind_eq_ok_iff.1 read
  rw [readByte_eq_ok_iff] at first
  split at second
  · cases second
    exact ⟨b, first, rfl, ‹_›⟩
  · cases second

/-- Any other group is the number, or a low part of it. -/
lemma readVarint_succ (read : readVarint last (more + 1) bytes = .ok (n, rest)) :
    ∃ (b : UInt8) (middle : Bytes), bytes = b :: middle ∧
      (n = b.toNat ∧ n < 128 ∧ rest = middle ∨
        ∃ low high, low < 128 ∧ n = low + 128 * high ∧
          readVarint last more middle = .ok (high, rest)) := by
  obtain ⟨b, middle, first, second⟩ := bind_eq_ok_iff.1 read
  rw [readByte_eq_ok_iff] at first
  refine ⟨b, middle, first, ?_⟩
  split at second
  · cases second
    exact .inl ⟨rfl, ‹_›, rfl⟩
  · obtain ⟨high, behind, third, fourth⟩ := bind_eq_ok_iff.1 second
    cases fourth
    have byte := b.toNat_lt
    exact .inr ⟨b.toNat - 128, high, by omega, rfl, third⟩

/-- The numbers that are read are those that the groups can hold. -/
lemma lt_of_readVarint (read : readVarint last more bytes = .ok (n, rest)) :
    n < (last + 1) * 128 ^ more := by
  induction more generalizing bytes n with
  | zero =>
    obtain ⟨b, -, -, small⟩ := readVarint_zero read
    omega
  | succ more ih =>
    have power : 0 < (last + 1) * 128 ^ more := by positivity
    rw [Nat.pow_succ, ← Nat.mul_assoc]
    obtain ⟨b, middle, -, ⟨-, small, -⟩ | ⟨low, high, small, rfl, behind⟩⟩ := readVarint_succ read
    · omega
    · have := ih behind
      omega

/-- A low part takes one group more, at most: none if the rest of the number is nothing. -/
lemma length_varint_add_le {low : Nat} (small : low < 128) (high : Nat) :
    (varint (low + 128 * high)).length ≤ (varint high).length + 1 := by
  rw [varint]
  split
  · simp
  · have quotient : (low + 128 * high) / 128 = high := by omega
    rw [quotient, List.length_cons]

/-- A number is written with no more groups than it was read from. -/
lemma length_varint_of_readVarint (group : last < 128)
    (read : readVarint last more bytes = .ok (n, rest)) :
    (varint n).length + rest.length ≤ bytes.length := by
  have single {n : Nat} (small : n < 128) : (varint n).length = 1 := by
    rw [varint, if_pos small]
    rfl
  induction more generalizing bytes n with
  | zero =>
    obtain ⟨b, rfl, -, small⟩ := readVarint_zero read
    rw [single (by omega), List.length_cons]
    omega
  | succ more ih =>
    obtain ⟨b, middle, rfl, ⟨-, small, rfl⟩ | ⟨low, high, small, rfl, behind⟩⟩ :=
      readVarint_succ read
    · rw [single small, List.length_cons]
      omega
    · have shorter := ih behind
      have longer := length_varint_add_le small high
      rw [List.length_cons]
      omega

/-- **Numbers are written with the fewest groups** that they can be read from. -/
theorem canonical_varint (group : last < 128) (more : Nat) :
    Canonical (readVarint last more) varint :=
  fun _ _ _ read =>
    ⟨reads_varint group (lt_of_readVarint read), length_varint_of_readVarint group read⟩

end Varint

/-- A number of 64 bits is written with no more bytes than it is read from. -/
lemma canonical_nat64 : Canonical readNat64 varint := canonical_varint (by decide) 9

/-- A number of 32 bits is written with no more bytes than it is read from. -/
lemma canonical_nat32 : Canonical readNat32 varint := canonical_varint (by decide) 4

/-- A number that is read fits 64 bits. -/
lemma lt_of_readNat64 {n : Nat} (read : readNat64 bytes = .ok (n, rest)) : n < 2 ^ 64 :=
  lt_of_readVarint read

/-! ## Words -/

/-- A number of 64 bits stands for one word. -/
lemma zigzag_unzigzag {n : Nat} (fits : n < 2 ^ 64) :
    zigzag (Int64.ofInt (unzigzag n)).toInt = n := by
  have inside : -2 ^ 63 ≤ unzigzag n ∧ unzigzag n < 2 ^ 63 := by
    unfold unzigzag
    split <;> omega
  rw [Int64.toInt_ofInt_of_le inside.1 inside.2]
  unfold zigzag unzigzag
  split <;> split <;> omega

/-- A word is written with no more bytes than it is read from. -/
lemma canonical_word : Canonical readWord word := by
  intro bytes w rest read
  refine ⟨reads_word w, ?_⟩
  obtain ⟨n, middle, first, second⟩ := bind_eq_ok_iff.1 read
  cases second
  rw [word, zigzag_unzigzag (lt_of_readNat64 first)]
  exact (canonical_nat64 _ _ _ first).2

/-! ## Texts and sequences -/

/-- A text is written with no more bytes than it is read from. -/
lemma canonical_text : Canonical readText text := by
  intro bytes s rest read
  obtain ⟨n, middle, first, second⟩ := bind_eq_ok_iff.1 read
  obtain ⟨encoded, behind, third, fourth⟩ := bind_eq_ok_iff.1 second
  obtain ⟨rfl, rfl⟩ := readBytes_eq_ok third
  cases decoded : Utf8.decode? encoded with
  | none =>
    rw [decoded] at fourth
    cases fourth
  | some s =>
    rw [decoded] at fourth
    cases fourth
    obtain rfl := Utf8.encode_of_decode? decoded
    refine ⟨reads_text (lt_of_readNat64 first), ?_⟩
    have shorter := (canonical_nat64 _ _ _ first).2
    rw [List.length_append] at shorter
    rw [text, List.length_append]
    omega

section Sequences

variable {item : Reader α} {write : α → Bytes} (each : Canonical item write)
include each

/-- Items are written with no more bytes than they are read from. -/
lemma canonical_items {n : Nat} {xs : List α} (read : readItems item n bytes = .ok (xs, rest)) :
    xs.length = n ∧ (∀ x ∈ xs, Reads item (write x) x) ∧
      (xs.flatMap write).length + rest.length ≤ bytes.length := by
  induction n generalizing bytes xs with
  | zero =>
    cases read
    simp
  | succ n ih =>
    obtain ⟨x, middle, first, second⟩ := bind_eq_ok_iff.1 read
    obtain ⟨others, behind, third, fourth⟩ := bind_eq_ok_iff.1 second
    cases fourth
    obtain ⟨reads, shorter⟩ := each _ _ _ first
    obtain ⟨rfl, all, shorter'⟩ := ih third
    refine ⟨rfl, List.forall_mem_cons.2 ⟨reads, all⟩, ?_⟩
    rw [List.flatMap_cons, List.length_append]
    omega

/-- **Sequences are written as their values are**, behind their number. -/
theorem canonical_list : Canonical (readList item) (list write) := by
  intro bytes xs rest read
  obtain ⟨n, middle, first, second⟩ := bind_eq_ok_iff.1 read
  obtain ⟨rfl, all, shorter'⟩ := canonical_items each second
  refine ⟨reads_list (lt_of_readNat64 first) all, ?_⟩
  have shorter := (canonical_nat64 _ _ _ first).2
  rw [list, List.length_append]
  omega

end Sequences

/-! ## Parts of a program -/

/-- The number of an opcode is its place among all of them, and no other one has it. -/
lemma index_eq_of_all_getElem? {n : Nat} {o : Opcode} (found : Opcode.all[n]? = some o) :
    o.index = n := by
  have distinct : Opcode.all.Nodup := by decide
  obtain ⟨inside, rfl⟩ := List.getElem?_eq_some_iff.1 found
  exact distinct.idxOf_getElem n inside

/-- An opcode is written with no more bytes than it is read from. -/
lemma canonical_opcode : Canonical readOpcode (varint ∘ Opcode.index) := by
  intro bytes o rest read
  refine ⟨reads_opcode o, ?_⟩
  obtain ⟨n, middle, first, second⟩ := bind_eq_ok_iff.1 read
  cases found : Opcode.all[n]? with
  | none =>
    rw [found] at second
    cases second
  | some o =>
    rw [found] at second
    cases second
    rw [Function.comp_apply, index_eq_of_all_getElem? found]
    exact (canonical_nat32 _ _ _ first).2

/-- An instruction is written with no more bytes than it is read from. -/
lemma canonical_instruction : Canonical readInstruction instruction := by
  intro bytes i rest read
  refine ⟨reads_instruction i, ?_⟩
  obtain ⟨kind, middle, first, second⟩ := bind_eq_ok_iff.1 read
  have shorter := (canonical_nat32 _ _ _ first).2
  split at second
  · obtain ⟨n, behind, third, fourth⟩ := bind_eq_ok_iff.1 second
    cases fourth
    have shorter' := (canonical_word _ _ _ third).2
    rw [instruction, List.length_append]
    omega
  · obtain ⟨o, behind, third, fourth⟩ := bind_eq_ok_iff.1 second
    cases fourth
    have shorter' : (varint o.index).length + _ ≤ _ := (canonical_opcode _ _ _ third).2
    rw [instruction, List.length_append]
    omega
  · cases second

/-- A location is written with no more bytes than it is read from. -/
lemma canonical_location : Canonical readLocation location := by
  intro bytes l rest read
  obtain ⟨file, behindFile, first, second⟩ := bind_eq_ok_iff.1 read
  obtain ⟨line, behindLine, third, fourth⟩ := bind_eq_ok_iff.1 second
  obtain ⟨column, behindColumn, fifth, sixth⟩ := bind_eq_ok_iff.1 fourth
  cases sixth
  obtain ⟨reads, shorter⟩ := canonical_text _ _ _ first
  obtain ⟨reads', shorter'⟩ := canonical_nat64 _ _ _ third
  obtain ⟨reads'', shorter''⟩ := canonical_nat64 _ _ _ fifth
  have parts : location ⟨file, line, column⟩ = text file ++ (varint line ++ varint column) :=
    List.append_assoc ..
  rw [parts]
  refine ⟨reads.bind (reads'.bind (reads''.bind_pure (.pure _))), ?_⟩
  rw [List.length_append, List.length_append]
  omega

/-- **The image of a program is its shortest one.** -/
theorem canonical_image : Canonical readProgram Program.image := by
  intro bytes p rest read
  obtain ⟨start, behindStart, first, second⟩ := bind_eq_ok_iff.1 read
  obtain ⟨is, behindInstructions, third, fourth⟩ := bind_eq_ok_iff.1 second
  obtain ⟨ls, behindLocations, fifth, sixth⟩ := bind_eq_ok_iff.1 fourth
  cases sixth
  obtain ⟨reads, shorter⟩ := canonical_word _ _ _ first
  obtain ⟨reads', shorter'⟩ := canonical_list canonical_instruction _ _ _ third
  obtain ⟨reads'', shorter''⟩ := canonical_list canonical_location _ _ _ fifth
  have parts : Program.image ⟨start, is.toArray, ls.toArray⟩ =
      word start ++ (list instruction is ++ list location ls) := List.append_assoc ..
  rw [parts]
  refine ⟨reads.bind (reads'.bind (reads''.bind_pure (.pure _))), ?_⟩
  rw [List.length_append, List.length_append]
  omega

end Image

namespace Program

variable {p : Program} {bytes : Bytes}

/-- The bytes of an image, all of them and no others: whatever follows them, they stand for the
program, and when any of them are missing, the end of the buffer is hit. -/
structure Delimits (bytes : Bytes) (p : Program) : Prop where
  /-- What follows does not matter. -/
  append : ∀ more, ofImage (bytes ++ more) = .ok p
  /-- None of the bytes may be missing. -/
  cut : ∀ front, front <+: bytes → front ≠ bytes → ofImage front = .error (.decode .endOfBuffer)

/-- Of two fronts of a byte string that are images without a byte too many, neither goes on behind
the other. -/
lemma Delimits.unique {front front' : Bytes} {q : Program} (delimits : Delimits front p)
    (delimits' : Delimits front' q) (inside : front <+: bytes) (inside' : front' <+: bytes) :
    front = front' := by
  -- an image is no strict front of another one, on which the end of the buffer would be hit
  have apart {front front' : Bytes} {p q : Program} (delimits : Delimits front p)
      (delimits' : Delimits front' q) (inside : front <+: front') : front = front' := by
    by_contra short
    have read := delimits.append []
    rw [List.append_nil, delimits'.cut front inside short] at read
    cases read
  rcases List.prefix_or_prefix_of_prefix inside inside' with shorter | longer
  · exact apart delimits delimits' shorter
  · exact (apart delimits' delimits longer).symm

/-- An image stands for a program if it is read off the bytes and passes the check. -/
lemma ofImage_eq_ok_iff :
    ofImage bytes = .ok p ↔
      (∃ rest, Image.readProgram bytes = .ok (p, rest)) ∧ p.checked = .ok p := by
  have same {q : Program} (ok : q.checked = .ok p) : q = p := by
    unfold checked at ok
    split_ifs at ok
    exact Except.ok.inj ok
  unfold ofImage
  split
  · rename_i fault read
    simp [read]
  · rename_i q rest read
    constructor
    · intro ok
      obtain rfl := same ok
      exact ⟨⟨rest, read⟩, ok⟩
    · rintro ⟨⟨rest', read'⟩, ok⟩
      rw [read] at read'
      cases read'
      exact ok

/-- A program passes the check if its tables are equally long and the address behind its last
instruction is a word. -/
lemma checked_eq_ok_iff :
    p.checked = .ok p ↔ p.instructions.size = p.locations.size ∧ p.endAddress? ≠ none := by
  unfold checked
  split_ifs with differ overflows
  · simp [differ]
  · simp [overflows]
  · simp [Decidable.not_not.1 differ, overflows]

/-- **What is read as a program can be loaded, and it is written with no more bytes than it was read
from.** Its tables are equally long and the address behind its last instruction is a word, so every
fresh machine loads it. Of the fronts of the bytes there is one that is an image of the program
without a byte too many; the image that is written is not longer than this one; and it is read back.

**Proof sketch.** The reader is sequential, so the bytes that it takes are the front
(`Sequential`); two such fronts are equal (`Delimits.unique`). What it yields is written with no
more bytes than it takes, and read back (`canonical_image`). -/
theorem delimits_of_ofImage (read : ofImage bytes = .ok p) :
    (p.instructions.size = p.locations.size ∧ p.endAddress? ≠ none) ∧
    (∀ budget input output diagnostics, ∃ m,
      (Machine.fresh budget input output diagnostics).load p = .ok m) ∧
    (∃ front, (front <+: bytes ∧ Delimits front p ∧ p.image.length ≤ front.length) ∧
      ∀ front', front' <+: bytes → Delimits front' p → front' = front) ∧
    ofImage p.image = .ok p := by
  obtain ⟨⟨rest, read⟩, checked⟩ := ofImage_eq_ok_iff.1 read
  have fits := checked_eq_ok_iff.1 checked
  obtain ⟨front, rfl, takes⟩ := Image.sequential_readProgram _ _ _ read
  obtain ⟨reads, shorter⟩ := Image.canonical_image _ _ _ read
  have delimits : Delimits front p := by
    refine ⟨fun more => ofImage_eq_ok_iff.2 ⟨⟨more, takes.reads more⟩, checked⟩, ?_⟩
    intro cut inside short
    rw [ofImage, takes.starves inside short]
  refine ⟨fits, ?_, ⟨front, ⟨List.prefix_append .., delimits, ?_⟩, ?_⟩, ?_⟩
  · intro budget input output diagnostics
    exact ⟨_, Machine.load_fresh_eq fits.2 budget input output diagnostics⟩
  · rw [List.length_append] at shorter
    omega
  · intro front' inside delimits'
    exact delimits'.unique delimits inside (List.prefix_append ..)
  · have back := reads []
    rw [List.append_nil] at back
    exact ofImage_eq_ok_iff.2 ⟨⟨[], back⟩, checked⟩

/-- The start, the number of instructions, the mark of a push and the column have more groups than
they need, and one more byte stands behind them all. -/
theorem delimits_of_ofImage_overlong :
    ∃ (bytes : Bytes) (p : Program),
      bytes = [128, 0, 129, 0, 128, 128, 0, 2, 1, 2, 195, 169, 1, 133, 0, 255] ∧
      p = ⟨0, #[.push 1], #[⟨"é", 1, 5⟩]⟩ ∧ ofImage bytes = .ok p ∧
      (∃ m, (Machine.fresh (some 3) [] {} {}).load p = .ok m) ∧
      (∃ front, (front <+: bytes ∧ Delimits front p ∧ p.image.length ≤ front.length) ∧
        ∀ front', front' <+: bytes → Delimits front' p → front' = front) ∧
      p.image = [0, 1, 0, 2, 1, 2, 195, 169, 1, 5] ∧ ofImage p.image = .ok p := by
  let bytes : Bytes := [128, 0, 129, 0, 128, 128, 0, 2, 1, 2, 195, 169, 1, 133, 0, 255]
  let p : Program := ⟨0, #[.push 1], #[⟨"é", 1, 5⟩]⟩
  have read : ofImage bytes = .ok p := by cbv
  have image : p.image = [0, 1, 0, 2, 1, 2, 195, 169, 1, 5] := by cbv
  obtain ⟨-, loads, front, back⟩ := delimits_of_ofImage read
  exact ⟨bytes, p, rfl, rfl, read, loads (some 3) [] {} {}, front, image, back⟩

end Program

end StackAsm
