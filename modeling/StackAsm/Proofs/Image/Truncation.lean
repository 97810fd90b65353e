import StackAsm.Proofs.Image

set_option autoImplicit false

/-!
# Images that are cut short

A reader looks at the bytes from left to right and at none behind those that it takes. So the bytes
of a value end where its reader says that they do: it takes the value off them whatever follows, and
when any of them are missing it hits the end of the buffer, before it can find another fault. That
is so for a single byte and for a stretch of bytes, and it is handed on from readers to the readers
made of them, because what has been read in front is the same whether or not bytes are missing
behind.

## Main definitions

* `StackAsm.Image.Takes` — the bytes of a value, all of them and no others.
* `StackAsm.Image.Sequential` — a reader that takes what it looks at, and nothing else.

## Main results

* `StackAsm.Image.Takes.bind`, `StackAsm.Image.Sequential.bind` — readers one after the other.
* `StackAsm.Image.sequential_readProgram` — the reader of programs is of this kind.
* `StackAsm.Program.ofImage_of_truncated` — an image that is cut short is never taken for a program.
-/

namespace StackAsm

namespace Image

variable {α β : Type} {reader : Reader α} {next : α → Reader β} {bytes middle more rest : Bytes}
  {x : α} {y : β} {fault : Fault}

/-! ## Readers one after the other -/

/-- Behind a value that is read, the next reader goes on. -/
lemma bind_of_ok (first : reader bytes = .ok (x, middle)) :
    (reader >>= next) bytes = next x middle := by
  show (reader bytes >>= fun (x, middle) => next x middle) = _
  rw [first]
  rfl

/-- Behind a fault, nothing is read. -/
lemma bind_of_error (first : reader bytes = .error fault) :
    (reader >>= next) bytes = .error fault := by
  show (reader bytes >>= fun (x, middle) => next x middle) = _
  rw [first]
  rfl

/-- Readers succeed one after the other if each of them does. -/
lemma bind_eq_ok_iff :
    (reader >>= next) bytes = .ok (y, rest) ↔
      ∃ x middle, reader bytes = .ok (x, middle) ∧ next x middle = .ok (y, rest) := by
  constructor
  · intro read
    cases first : reader bytes with
    | error fault => simp [bind_of_error first] at read
    | ok p =>
      obtain ⟨x, middle⟩ := p
      rw [bind_of_ok first] at read
      exact ⟨x, middle, rfl, read⟩
  · rintro ⟨x, middle, first, second⟩
    rw [bind_of_ok first, second]

/-! ## Single bytes -/

/-- A byte is read exactly if it is the first one. -/
lemma readByte_eq_ok_iff {b : UInt8} : readByte bytes = .ok (b, rest) ↔ bytes = b :: rest := by
  cases bytes with
  | nil => simp [readByte]
  | cons c bytes => simp [readByte]

/-- The bytes that are read are the first ones, and as many as asked for. -/
lemma readBytes_eq_ok {n : Nat} {front : Bytes} (read : readBytes n bytes = .ok (front, rest)) :
    front ++ rest = bytes ∧ front.length = n := by
  unfold readBytes at read
  split at read
  · cases read
    exact ⟨List.take_append_drop .., List.length_take_of_le ‹_›⟩
  · cases read

/-! ## The bytes of a value -/

/-- A reader takes a value off bytes, whatever follows them, and with fewer of them it hits the end
of the buffer. -/
structure Takes (reader : Reader α) (bytes : Bytes) (x : α) : Prop where
  /-- All that follows is left. -/
  reads : Reads reader bytes x
  /-- None of the bytes may be missing. -/
  starves : ∀ {front}, front <+: bytes → front ≠ bytes → reader front = .error .endOfBuffer

/-- To yield a value takes no bytes. -/
lemma Takes.pure (x : α) : Takes (pure x) [] x where
  reads := .pure x
  starves cut short := absurd (List.prefix_nil.1 cut) short

/-- What is missing is missing at the first reader, or the first reader reads as ever and leaves to
the second one what is not missing. -/
theorem Takes.bind (first : Takes reader bytes x) (second : Takes (next x) more y) :
    Takes (reader >>= next) (bytes ++ more) y where
  reads := first.reads.bind second.reads
  starves {front} cut short := by
    by_cases whole : bytes <+: front
    · obtain ⟨back, rfl⟩ := whole
      rw [bind_of_ok (first.reads back)]
      refine second.starves ((List.prefix_append_right_inj bytes).1 cut) ?_
      rintro rfl
      exact short rfl
    · have inside : front <+: bytes :=
        (List.prefix_or_prefix_of_prefix cut (List.prefix_append ..)).resolve_right whole
      refine bind_of_error (first.starves inside ?_)
      rintro rfl
      exact whole List.prefix_rfl

/-! ## Sequential readers -/

/-- When a reader succeeds, it has taken the value off a front of the bytes and left the others. -/
def Sequential (reader : Reader α) : Prop :=
  ∀ bytes x rest, reader bytes = .ok (x, rest) →
    ∃ front, front ++ rest = bytes ∧ Takes reader front x

/-- The bytes that a value was read from are the ones that its reader takes. -/
lemma Sequential.takes (sequential : Sequential reader) (reads : Reads reader bytes x) :
    Takes reader bytes x := by
  obtain ⟨front, whole, takes⟩ := sequential _ _ _ (reads [])
  rw [List.append_nil, List.append_nil] at whole
  rwa [whole] at takes

/-- To yield a value is sequential. -/
lemma sequential_pure (x : α) : Sequential (pure x) := by
  intro bytes y rest read
  cases read
  exact ⟨[], rfl, .pure x⟩

/-- To fail is sequential. -/
lemma sequential_throw (fault : Fault) : Sequential (throw fault : Reader α) := by
  intro bytes x rest read
  cases read

/-- Two sequential readers, one behind the other, are sequential. -/
theorem Sequential.bind (first : Sequential reader) (second : ∀ x, Sequential (next x)) :
    Sequential (reader >>= next) := by
  intro bytes y rest read
  obtain ⟨x, middle, read, read'⟩ := bind_eq_ok_iff.1 read
  obtain ⟨front, rfl, takes⟩ := first _ _ _ read
  obtain ⟨back, rfl, takes'⟩ := second x _ _ _ read'
  exact ⟨front ++ back, List.append_assoc .., takes.bind takes'⟩

/-- To read a byte is sequential. -/
lemma sequential_readByte : Sequential readByte := by
  intro bytes b rest read
  obtain rfl := readByte_eq_ok_iff.1 read
  refine ⟨[b], rfl, reads_readByte b, fun {front} cut short => ?_⟩
  cases front with
  | nil => rfl
  | cons c front =>
    obtain ⟨rfl, nothing⟩ := List.cons_prefix_cons.1 cut
    rw [List.prefix_nil.1 nothing] at short
    exact absurd rfl short

/-- To read several bytes is sequential. -/
lemma sequential_readBytes (n : Nat) : Sequential (readBytes n) := by
  intro bytes taken rest read
  obtain ⟨rfl, rfl⟩ := readBytes_eq_ok read
  refine ⟨taken, rfl, reads_readBytes taken, fun {front} cut short => ?_⟩
  have fewer : front.length < taken.length :=
    Nat.lt_of_le_of_ne cut.length_le fun same => short (cut.eq_of_length same)
  rw [readBytes, if_neg (Nat.not_le.2 fewer)]

/-- To read a number of variable length is sequential. -/
lemma sequential_readVarint (last more : Nat) : Sequential (readVarint last more) := by
  induction more with
  | zero =>
    refine sequential_readByte.bind fun b => ?_
    split
    · exact sequential_pure _
    · exact sequential_throw _
  | succ more ih =>
    refine sequential_readByte.bind fun b => ?_
    split
    · exact sequential_pure _
    · exact ih.bind fun high => sequential_pure _

/-- To read a number of 64 bits is sequential. -/
lemma sequential_readNat64 : Sequential readNat64 := sequential_readVarint 1 9

/-- To read a number of 32 bits is sequential. -/
lemma sequential_readNat32 : Sequential readNat32 := sequential_readVarint 15 4

/-- To read a word is sequential. -/
lemma sequential_readWord : Sequential readWord :=
  sequential_readNat64.bind fun _ => sequential_pure _

/-- To read a text is sequential. -/
lemma sequential_readText : Sequential readText := by
  refine sequential_readNat64.bind fun n => (sequential_readBytes n).bind fun bytes => ?_
  split
  · exact sequential_pure _
  · exact sequential_throw _

/-- To read a number of items is sequential if it is to read each of them. -/
lemma sequential_readItems {item : Reader α} (each : Sequential item) (n : Nat) :
    Sequential (readItems item n) := by
  induction n with
  | zero => exact sequential_pure []
  | succ n ih => exact each.bind fun x => ih.bind fun xs => sequential_pure _

/-- To read a list is sequential if it is to read each of its items. -/
lemma sequential_readList {item : Reader α} (each : Sequential item) :
    Sequential (readList item) :=
  sequential_readNat64.bind fun n => sequential_readItems each n

/-- To read an opcode is sequential. -/
lemma sequential_readOpcode : Sequential readOpcode := by
  refine sequential_readNat32.bind fun n => ?_
  split
  · exact sequential_pure _
  · exact sequential_throw _

/-- To read an instruction is sequential. -/
lemma sequential_readInstruction : Sequential readInstruction := by
  refine sequential_readNat32.bind fun kind => ?_
  split
  · exact sequential_readWord.bind fun w => sequential_pure _
  · exact sequential_readOpcode.bind fun o => sequential_pure _
  · exact sequential_throw _

/-- To read a location is sequential. -/
lemma sequential_readLocation : Sequential readLocation :=
  sequential_readText.bind fun _ => sequential_readNat64.bind fun _ =>
    sequential_readNat64.bind fun _ => sequential_pure _

/-- **The reader of programs is sequential**, as all its parts are. -/
theorem sequential_readProgram : Sequential readProgram :=
  sequential_readWord.bind fun _ => (sequential_readList sequential_readInstruction).bind fun _ =>
    (sequential_readList sequential_readLocation).bind fun _ => sequential_pure _

end Image

namespace Program

variable {p : Program} {bytes : Bytes}

/-- **An image that is cut short is never taken for a program**, wherever the cut is: in the groups
of a number, between the tables or within a character of a name. Nor is anything else found wrong
with it than that it hits the end of the buffer, even if the tables of the program differ in length
or its last address is too large. -/
theorem ofImage_of_truncated (sized : p.Sized) (cut : bytes <+: p.image)
    (short : bytes ≠ p.image) : ofImage bytes = .error (.decode .endOfBuffer) := by
  have takes := Image.sequential_readProgram.takes sized.reads_image
  rw [ofImage, takes.starves cut short]

/-- The program has no address behind its instruction. Its image is cut behind the first group of
its start, between its tables, and within the one character of the name of the file. -/
theorem ofImage_of_truncated_within_character :
    ∃ p : Program, p.Sized ∧ p.endAddress? = none ∧
      p.image =
        [254, 255, 255, 255, 255, 255, 255, 255, 255, 1, 1, 0, 216, 4, 1, 2, 195, 169, 1, 1] ∧
      ofImage [254] = .error (.decode .endOfBuffer) ∧
      ofImage [254, 255, 255, 255, 255, 255, 255, 255, 255, 1, 1, 0, 216, 4] =
        .error (.decode .endOfBuffer) ∧
      ofImage [254, 255, 255, 255, 255, 255, 255, 255, 255, 1, 1, 0, 216, 4, 1, 2, 195] =
        .error (.decode .endOfBuffer) := by
  let p : Program := ⟨Int64.maxValue, #[.push 300], #[⟨"é", 1, 1⟩]⟩
  have sized : p.Sized := ⟨by decide, by decide, by decide, by decide, by decide⟩
  have image : p.image =
      [254, 255, 255, 255, 255, 255, 255, 255, 255, 1, 1, 0, 216, 4, 1, 2, 195, 169, 1, 1] := by cbv
  have cut (n : Nat) (short : p.image.take n ≠ p.image) :
      ofImage (p.image.take n) = .error (.decode .endOfBuffer) :=
    ofImage_of_truncated sized (List.take_prefix n p.image) short
  rw [image] at cut
  exact ⟨p, sized, by decide, image, cut 1 (by decide), cut 14 (by decide), cut 17 (by decide)⟩

end Program

end StackAsm
