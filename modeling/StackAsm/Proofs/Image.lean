import StackAsm.Image
import StackAsm.Proofs.Program

set_option autoImplicit false

/-!
# Images are read as they were written

Every part of an image is read off the front of the bytes that are left, so what stands behind a
part does not matter to its reader. Reading a part therefore composes: a reader made of others takes
off what these take off, one after the other. Signed integers, texts and sequences come down to the
groups of natural numbers.

## Main definitions

* `StackAsm.Image.Reads` — a reader takes a value off the front of whatever begins with its bytes.
* `StackAsm.Program.Sized` — the numbers of a program are numbers of 64 bits.

## Main results

* `StackAsm.Image.reads_varint` — natural numbers, in as many groups as their type permits.
* `StackAsm.Image.reads_list` — sequences of what can be read.
* `StackAsm.Program.Sized.reads_image` — whole programs.
* `StackAsm.Program.ofImage_image` — what becomes of a program that is written and read.
-/

namespace StackAsm

namespace Image

variable {α β : Type} {reader : Reader α} {next : α → Reader β} {bytes more : Bytes} {x : α} {y : β}

/-- Bytes are those of a value if a reader takes the value off them and leaves all that follows. -/
def Reads (reader : Reader α) (bytes : Bytes) (x : α) : Prop :=
  ∀ rest, reader (bytes ++ rest) = .ok (x, rest)

/-- To yield a value takes no bytes. -/
lemma Reads.pure (x : α) : Reads (pure x) [] x := fun _ => rfl

/-- A reader goes on where the one before it has stopped. -/
lemma Reads.bind (first : Reads reader bytes x) (second : Reads (next x) more y) :
    Reads (reader >>= next) (bytes ++ more) y := by
  intro rest
  show (reader (bytes ++ more ++ rest) >>= fun (x, rest) => next x rest) = _
  rw [List.append_assoc, first]
  exact second rest

/-- What is made of a value takes no bytes of its own. -/
lemma Reads.bind_pure (first : Reads reader bytes x) (second : Reads (next x) [] y) :
    Reads (reader >>= next) bytes y := by
  have := first.bind second
  rwa [List.append_nil] at this

/-! ## Natural numbers -/

/-- A byte is read back. -/
lemma reads_readByte (b : UInt8) : Reads readByte [b] b := fun _ => rfl

/-- The groups of a number, read with as many groups as its type has.

**Proof sketch.** Induction on the groups that are left. The number is at most the greatest one that
these groups can hold, so behind the last of them nothing is left of it, and behind any other one a
number that the remaining groups can hold. -/
theorem reads_varint {last : Nat} (group : last < 128) {more n : Nat}
    (fits : n < (last + 1) * 128 ^ more) : Reads (readVarint last more) (varint n) n := by
  induction more generalizing n with
  | zero =>
    have small : n ≤ last := by omega
    have value : (UInt8.ofNat n).toNat = n := by
      rw [UInt8.toNat_ofNat']
      omega
    rw [varint, if_pos (by omega), readVarint]
    refine (reads_readByte _).bind_pure ?_
    rw [value, if_pos small]
    exact .pure n
  | succ more ih =>
    rw [varint, readVarint]
    split
    · rename_i single
      have value : (UInt8.ofNat n).toNat = n := by
        rw [UInt8.toNat_ofNat']
        omega
      refine (reads_readByte _).bind_pure ?_
      rw [value, if_pos single]
      exact .pure n
    · have value : (UInt8.ofNat (n % 128 + 128)).toNat = n % 128 + 128 := by
        rw [UInt8.toNat_ofNat']
        omega
      have high : n / 128 < (last + 1) * 128 ^ more := by
        rw [Nat.div_lt_iff_lt_mul (by decide), Nat.mul_assoc, ← Nat.pow_succ]
        exact fits
      refine Reads.bind (reads_readByte _) ?_
      rw [value, if_neg (by omega)]
      refine (ih high).bind_pure ?_
      have whole : n % 128 + 128 - 128 + 128 * (n / 128) = n := by
        rw [Nat.add_sub_cancel, Nat.mod_add_div]
      rw [whole]
      exact .pure n

/-- A number of 64 bits is read back. -/
lemma reads_nat64 {n : Nat} (fits : n < 2 ^ 64) : Reads readNat64 (varint n) n :=
  reads_varint (by decide) fits

/-- A number of 32 bits is read back. -/
lemma reads_nat32 {n : Nat} (fits : n < 2 ^ 32) : Reads readNat32 (varint n) n :=
  reads_varint (by decide) fits

/-! ## Words -/

/-- The number that stands for a word has 64 bits. -/
lemma zigzag_toInt_lt (w : Word) : zigzag w.toInt < 2 ^ 64 := by
  obtain ⟨low, high⟩ := Word.inRange_iff.1 (Word.inRange_toInt w)
  unfold zigzag
  split <;> omega

/-- A word is read back. -/
lemma reads_word (w : Word) : Reads readWord (word w) w := by
  refine (reads_nat64 (zigzag_toInt_lt w)).bind_pure ?_
  rw [unzigzag_zigzag, Int64.ofInt_toInt]
  exact .pure w

/-! ## Texts and sequences -/

/-- As many bytes as there are to be read are read back. -/
lemma reads_readBytes (bytes : Bytes) : Reads (readBytes bytes.length) bytes bytes := by
  intro rest
  simp [readBytes]

/-- A text is read back if its length fits 64 bits. -/
lemma reads_text {s : String} (fits : (Utf8.encode s).length < 2 ^ 64) :
    Reads readText (text s) s := by
  refine (reads_nat64 fits).bind ((reads_readBytes _).bind_pure ?_)
  rw [Utf8.decode?_encode]
  exact .pure s

/-- Items are read back one after the other. -/
lemma reads_items {item : Reader α} {write : α → Bytes} {xs : List α}
    (each : ∀ x ∈ xs, Reads item (write x) x) :
    Reads (readItems item xs.length) (xs.flatMap write) xs := by
  induction xs with
  | nil => exact .pure []
  | cons x xs ih =>
    rw [List.forall_mem_cons] at each
    exact each.1.bind ((ih each.2).bind_pure (.pure (x :: xs)))

/-- A sequence is read if each of its values is. -/
theorem reads_list {item : Reader α} {write : α → Bytes} {xs : List α}
    (fits : xs.length < 2 ^ 64) (each : ∀ x ∈ xs, Reads item (write x) x) :
    Reads (readList item) (list write xs) xs :=
  (reads_nat64 fits).bind (reads_items each)

/-! ## Parts of a program -/

/-- The index of an opcode fits 32 bits. -/
lemma index_lt (op : Opcode) : op.index < 2 ^ 32 := by cases op <;> decide

/-- An opcode is read back. -/
lemma reads_opcode (op : Opcode) : Reads readOpcode (varint op.index) op := by
  refine (reads_nat32 (index_lt op)).bind_pure ?_
  rw [Opcode.all_getElem?_index]
  exact .pure op

/-- An instruction is read back. -/
lemma reads_instruction (i : Instruction) : Reads readInstruction (instruction i) i := by
  cases i with
  | push n => exact (reads_nat32 (n := 0) (by decide)).bind ((reads_word n).bind_pure (.pure _))
  | op o => exact (reads_nat32 (n := 1) (by decide)).bind ((reads_opcode o).bind_pure (.pure _))

/-- A location is read back if its parts fit 64 bits. -/
lemma reads_location {l : Location} (file : (Utf8.encode l.file).length < 2 ^ 64)
    (line : l.line < 2 ^ 64) (column : l.column < 2 ^ 64) : Reads readLocation (location l) l := by
  rw [location, List.append_assoc]
  exact (reads_text file).bind ((reads_nat64 line).bind ((reads_nat64 column).bind_pure (.pure l)))

end Image

namespace Program

/-- A program whose counts are numbers of 64 bits: the lengths of its tables and, for every
location, the length of the name of the file, the line and the column. An image has no room for
others. -/
structure Sized (p : Program) : Prop where
  /-- The number of instructions. -/
  instructions : p.instructions.size < 2 ^ 64
  /-- The number of locations. -/
  locations : p.locations.size < 2 ^ 64
  /-- The length of the name of each file, in bytes. -/
  file : ∀ l ∈ p.locations.toList, (Utf8.encode l.file).length < 2 ^ 64
  /-- The number of each line. -/
  line : ∀ l ∈ p.locations.toList, l.line < 2 ^ 64
  /-- The number of each column. -/
  column : ∀ l ∈ p.locations.toList, l.column < 2 ^ 64

variable {p : Program}

/-- A program is read back from its image if its sizes fit 64 bits. -/
theorem Sized.reads_image (sized : p.Sized) : Image.Reads Image.readProgram p.image p := by
  have instructions := Image.reads_list sized.instructions fun i _ => Image.reads_instruction i
  have locations := Image.reads_list sized.locations fun l mem =>
    Image.reads_location (sized.file l mem) (sized.line l mem) (sized.column l mem)
  rw [image, List.append_assoc]
  exact (Image.reads_word p.start).bind (instructions.bind (locations.bind_pure (.pure p)))

/-- What is read back is the program that was written, checked as every program is. -/
lemma Sized.ofImage_image_eq (sized : p.Sized) : ofImage p.image = p.checked := by
  have read := sized.reads_image []
  rw [List.append_nil] at read
  rw [ofImage, read]

/-- **What is written is read back.** The image of a program stands for the program itself if its
tables are equally long and the address behind its last instruction is a word. If the tables differ
in length, this is what is found wrong, whether or not there is such an address; else it is that
there is none. -/
theorem ofImage_image (sized : p.Sized) :
    (p.instructions.size = p.locations.size → p.endAddress? ≠ none → ofImage p.image = .ok p) ∧
    (p.instructions.size ≠ p.locations.size →
      ofImage p.image = .error (.mismatch p.instructions.size p.locations.size)) ∧
    (p.instructions.size = p.locations.size → p.endAddress? = none →
      ofImage p.image = .error (.addressOverflow p.start p.length)) := by
  rw [sized.ofImage_image_eq, checked]
  refine ⟨fun tables fits => ?_, fun differ => ?_, fun tables overflows => ?_⟩
  · rw [if_neg (not_not_intro tables), if_neg fits]
  · rw [if_pos differ]
  · rw [if_neg (not_not_intro tables), if_pos overflows]

/-- The longest numbers and a name outside of ASCII; a program with both faults, of which the one in
its tables counts; and a program that the last address is too small for. -/
theorem ofImage_image_extremes :
    ofImage (image ⟨Int64.minValue, #[.push Int64.maxValue, .op .cread],
        #[⟨"é", 2 ^ 64 - 1, 1⟩, ⟨"", 0, 2 ^ 64 - 1⟩]⟩) =
      .ok ⟨Int64.minValue, #[.push Int64.maxValue, .op .cread],
        #[⟨"é", 2 ^ 64 - 1, 1⟩, ⟨"", 0, 2 ^ 64 - 1⟩]⟩ ∧
    ofImage (image ⟨Int64.maxValue, #[.push 0], #[]⟩) = .error (.mismatch 1 0) ∧
    ofImage (image ⟨Int64.maxValue, #[.push 0], #[⟨"é", 1, 1⟩]⟩) =
      .error (.addressOverflow Int64.maxValue 1) := by
  refine ⟨?_, ?_, ?_⟩
  · exact (ofImage_image ⟨by decide, by decide, by decide, by decide, by decide⟩).1 rfl (by decide)
  · exact (ofImage_image ⟨by decide, by decide, by decide, by decide, by decide⟩).2.1 (by decide)
  · exact (ofImage_image ⟨by decide, by decide, by decide, by decide, by decide⟩).2.2 rfl
      (by decide)

end Program

end StackAsm
