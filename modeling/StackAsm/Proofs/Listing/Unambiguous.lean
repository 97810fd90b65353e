import StackAsm.Proofs.Listing

set_option autoImplicit false

/-!
# Listings are unambiguous

The listing of a program tells all of it. Names of files may look like any other part of a line, yet
a line can be taken apart: what stands before the first semicolon is written by the listing alone,
with the instruction as its last field, and behind the last two colons stand digits alone. Only a
line feed must not be in a name, since it would end the line.

**Proof sketch.** Texts are taken apart at characters that do not occur before the place, or behind
it (`eq_of_append_cons`, `eq_of_append_cons'`). So two listings that are the same have the same
heading, which tells the start, and block by block the same instruction and place
(`block_inj`).

## Main definitions

* `StackAsm.Program.Listable` — equally long tables, and names of files without a line feed.

## Main results

* `StackAsm.Location.tag_inj` — the text of a place tells the place.
* `StackAsm.Program.start_of_heading` — the heading of a listing tells the start.
* `StackAsm.Program.block_inj` — the block of an instruction tells the instruction and its place.
* `StackAsm.Program.listing_eq_listing_iff` — a listing tells the program.
-/

namespace StackAsm

/-! ## Taking texts apart -/

section Apart

variable {α : Type} {a : α} {xs ys zs ws : List α}

/-- A list is taken apart in one way at an element that does not occur before the place. -/
lemma eq_of_append_cons (first : a ∉ xs) (first' : a ∉ zs)
    (same : xs ++ a :: ys = zs ++ a :: ws) : xs = zs ∧ ys = ws := by
  induction xs generalizing zs with
  | nil =>
    cases zs with
    | nil => exact ⟨rfl, (List.cons.inj same).2⟩
    | cons z zs =>
      obtain ⟨rfl, -⟩ := List.cons.inj same
      exact absurd (List.mem_cons_self ..) first'
  | cons x xs ih =>
    cases zs with
    | nil =>
      obtain ⟨rfl, -⟩ := List.cons.inj same
      exact absurd (List.mem_cons_self ..) first
    | cons z zs =>
      obtain ⟨rfl, tails⟩ := List.cons.inj same
      have later : a ∉ xs := fun mem => first (.tail _ mem)
      have later' : a ∉ zs := fun mem => first' (.tail _ mem)
      obtain ⟨rfl, rfl⟩ := ih later later' tails
      exact ⟨rfl, rfl⟩

/-- A list is taken apart in one way at an element that does not occur behind the place. -/
lemma eq_of_append_cons' (last : a ∉ ys) (last' : a ∉ ws)
    (same : xs ++ a :: ys = zs ++ a :: ws) : xs = zs ∧ ys = ws := by
  have reversed := congrArg List.reverse same
  simp only [List.reverse_append, List.reverse_cons, List.append_assoc, List.singleton_append]
    at reversed
  obtain ⟨back, front⟩ := eq_of_append_cons (by simpa using last) (by simpa using last') reversed
  exact ⟨List.reverse_inj.1 front, List.reverse_inj.1 back⟩

end Apart

/-! ## Places -/

/-- A natural number is written with digits alone. -/
lemma notMem_decimal {c : Char} (other : ¬ c.isDigit) (n : Nat) :
    c ∉ (Decimal.text n).toList := by
  intro mem
  rw [Decimal.text, if_neg (by omega)] at mem
  exact other ((Source.isNumeral_repr _).2 c mem)

/-- Two numbers with the same numeral are equal. -/
lemma decimal_inj {m n : Nat} (same : (Decimal.text m).toList = (Decimal.text n).toList) :
    m = n := by
  rw [Decimal.text, Decimal.text, if_neg (by omega), if_neg (by omega), String.toList_inj,
    Nat.repr_inj] at same
  simpa using same

/-- **The text of a place tells the place**, whatever its file is called. -/
theorem Location.tag_inj {l l' : Location} (same : l.tag.toList = l'.tag.toList) : l = l' := by
  have chars (l : Location) : l.tag.toList = (l.file.toList ++ ':' :: (Decimal.text l.line).toList)
      ++ ':' :: (Decimal.text l.column).toList := by
    simp [tag]
  have digits := notMem_decimal (c := ':') (by decide)
  rw [chars, chars] at same
  obtain ⟨front, column⟩ := eq_of_append_cons' (digits _) (digits _) same
  obtain ⟨file, line⟩ := eq_of_append_cons' (digits _) (digits _) front
  obtain ⟨file', line', column'⟩ := l'
  obtain rfl := String.toList_inj.1 file
  obtain rfl := decimal_inj line
  obtain rfl := decimal_inj column
  rfl

/-! ## Lines -/

/-- A text without the characters that end a part of a line. -/
def Unbroken (cs : List Char) : Prop := ∀ c ∈ cs, c ≠ ';' ∧ c ≠ '\n'

/-- Two texts together are unbroken exactly if both are. -/
@[simp] lemma unbroken_append {cs ds : List Char} :
    Unbroken (cs ++ ds) ↔ Unbroken cs ∧ Unbroken ds := List.forall_mem_append

/-- Spaces are unbroken. -/
lemma unbroken_replicate_space (n : Nat) : Unbroken (List.replicate n ' ') := by
  intro c mem
  rw [List.eq_of_mem_replicate mem]
  decide

/-- A number that is filled with zeros is written with digits and perhaps a minus sign. -/
lemma Column.notMem_padZero {c : Char} (dash : c ≠ '-') (digit : ¬ c.isDigit) (width : Nat)
    (n : Int) : c ∉ (padZero width n).toList := by
  have sign : c ∉ (sign n).toList := by
    rw [Column.sign]
    split <;> simp [dash]
  have zeros : c ∉ List.replicate (width - (Decimal.text n).length) '0' := by
    intro mem
    rw [List.eq_of_mem_replicate mem] at digit
    exact digit (by decide)
  have digits : c ∉ n.natAbs.repr.toList := fun mem => digit ((Source.isNumeral_repr _).2 c mem)
  simp only [padZero, String.toList_append, String.toList_ofList, List.mem_append, sign, zeros,
    digits, or_self, not_false_eq_true]

/-- A numeral padded with zeros is unbroken. -/
lemma Column.unbroken_padZero (width : Nat) (n : Int) : Unbroken (padZero width n).toList := by
  intro c mem
  constructor <;> rintro rfl <;>
    exact Column.notMem_padZero (by decide) (by decide) width n mem

/-- The text of an instruction is unbroken. -/
lemma Instruction.unbroken_text (i : Instruction) : Unbroken i.text.toList := by
  intro c mem
  rcases mem_text mem with rfl | digit | letter
  · decide
  · constructor <;> rintro rfl <;> cases digit
  · constructor <;> rintro rfl <;> cases letter

namespace Program

variable {p q : Program} {targets targets' : List Address} {e e' : Entry}

/-- What is shown behind an instruction is unbroken. -/
lemma unbroken_arrow (target : Option Address) : Unbroken (arrow target).toList := by
  cases target with
  | none => simp [arrow, Unbroken]
  | some n =>
    rw [arrow, String.toList_append, String.toList_append, unbroken_append, unbroken_append]
    exact ⟨⟨by simp [Unbroken], Column.unbroken_padZero 4 _⟩, by simp [Unbroken]⟩

/-- The field of an instruction, in which an arrow and spaces follow its text. -/
lemma exists_field (p : Program) (e : Entry) :
    ∃ spaces, (Column.padRight 12 (p.entryText e)).toList =
      e.instruction.text.toList ++
        ((arrow (p.jumpTarget? e)).toList ++ List.replicate spaces ' ') := by
  refine ⟨12 - (p.entryText e).length, ?_⟩
  rw [Column.padRight, String.toList_append, String.toList_ofList, ← List.append_assoc,
    ← String.toList_append, ← entryText_eq]

/-- What stands before the semicolon in the line of an instruction. -/
def lead (p : Program) (targets : List Address) (e : Entry) : List Char :=
  (Column.padZero 4 e.address.toInt).toList ++
    ' ' :: ((if targets.contains e.address then ['►', ' '] else [' ', ' ']) ++
      (Column.padRight 12 (p.entryText e)).toList)

/-- The lines of an entry are a rule if it is a target, what stands before the semicolon, and its
location. -/
lemma toList_entryLines : (p.entryLines targets e).toList =
    (if targets.contains e.address then rule.toList else []) ++
      (p.lead targets e ++ ';' :: ' ' :: e.location.tag.toList) ++ ['\n'] := by
  unfold entryLines lead
  split <;> rename_i marked <;> simp only [marked] <;> simp

/-- What stands before the semicolon is unbroken. -/
lemma unbroken_lead (p : Program) (targets : List Address) (e : Entry) :
    Unbroken (p.lead targets e) := by
  obtain ⟨spaces, field⟩ := exists_field p e
  have marker :
      Unbroken (' ' :: if targets.contains e.address then ['►', ' '] else [' ', ' ']) := by
    split <;> simp [Unbroken]
  rw [lead, field, ← List.cons_append]
  simp only [unbroken_append]
  exact ⟨Column.unbroken_padZero 4 _, marker, e.instruction.unbroken_text,
    unbroken_arrow _, unbroken_replicate_space _⟩

/-- **What stands before the semicolon tells the instruction.** -/
theorem lead_inj (same : p.lead targets e = q.lead targets' e') :
    e.instruction = e'.instruction := by
  have blank := Column.notMem_padZero (c := ' ') (by decide) (by decide) 4
  -- address and marker are as wide in both, the marker because it is, the address up to the space
  obtain ⟨-, behind⟩ := eq_of_append_cons (blank _) (blank _) same
  have wide (marked : Bool) : (if marked then ['►', ' '] else [' ', ' ']).length = 2 := by
    cases marked <;> rfl
  obtain ⟨-, fields⟩ := List.append_inj behind ((wide _).trans (wide _).symm)
  obtain ⟨spaces, field⟩ := exists_field p e
  obtain ⟨spaces', field'⟩ := exists_field q e'
  rw [field, field'] at fields
  exact (Instruction.text_append_inj (ends_arrow _ _) (ends_arrow _ _) fields).1

/-- Without a rule, a block does not begin with a space. -/
lemma exists_lead_eq (p : Program) (targets : List Address) (e : Entry) :
    ∃ c more, p.lead targets e = c :: more ∧ c ≠ ' ' := by
  have wide := Column.length_padZero 4 e.address.toInt
  rw [← String.length_toList] at wide
  obtain ⟨c, more, digits⟩ := List.exists_cons_of_length_pos
    (l := (Column.padZero 4 e.address.toInt).toList) (by omega)
  refine ⟨c, _, by rw [lead, digits]; rfl, ?_⟩
  have mem : c ∈ (Column.padZero 4 e.address.toInt).toList := digits ▸ List.mem_cons_self ..
  rintro rfl
  exact Column.notMem_padZero (by decide) (by decide) 4 _ mem

/-- **The block of an instruction tells the instruction and its place**, whatever follows it, if the
name of the file does not end the line. -/
theorem block_inj {cs ds : List Char} (file : '\n' ∉ e.location.file.toList)
    (file' : '\n' ∉ e'.location.file.toList)
    (same : (p.entryLines targets e).toList ++ cs = (q.entryLines targets' e').toList ++ ds) :
    e.instruction = e'.instruction ∧ e.location = e'.location ∧ cs = ds := by
  have line (p : Program) (targets : List Address) {e : Entry}
      (file : '\n' ∉ e.location.file.toList) :
      '\n' ∉ p.lead targets e ++ ';' :: ' ' :: e.location.tag.toList := by
    have digits := notMem_decimal (c := '\n') (by decide)
    have front : '\n' ∉ p.lead targets e := fun mem => (unbroken_lead p targets e _ mem).2 rfl
    simp [Location.tag, front, file, digits]
  -- a rule begins with a space, and no line does
  have lines : (p.lead targets e ++ ';' :: ' ' :: e.location.tag.toList) ++ '\n' :: cs =
      (q.lead targets' e' ++ ';' :: ' ' :: e'.location.tag.toList) ++ '\n' :: ds := by
    obtain ⟨c, more, begins, nonblank⟩ := exists_lead_eq p targets e
    obtain ⟨d, more', begins', nonblank'⟩ := exists_lead_eq q targets' e'
    obtain ⟨behind, blank⟩ : ∃ behind, rule.toList = ' ' :: behind := ⟨_, rfl⟩
    rw [toList_entryLines, toList_entryLines] at same
    split at same <;> split at same
    · simpa using same
    · simp [begins', blank] at same
      exact absurd same.1.symm nonblank'
    · simp [begins, blank] at same
      exact absurd same.1 nonblank
    · simpa using same
  obtain ⟨whole, rest⟩ := eq_of_append_cons (line p targets file) (line q targets' file') lines
  obtain ⟨leads, tags⟩ := eq_of_append_cons (fun mem => (unbroken_lead p targets e _ mem).1 rfl)
    (fun mem => (unbroken_lead q targets' e' _ mem).1 rfl) whole
  exact ⟨lead_inj leads, Location.tag_inj (List.cons.inj tags).2, rest⟩

/-- Blocks, one behind the other, tell the instructions and their places. -/
lemma contents_of_join {es es' : List Entry}
    (files : ∀ e ∈ es, '\n' ∉ e.location.file.toList)
    (files' : ∀ e ∈ es', '\n' ∉ e.location.file.toList)
    (same : (String.join (es.map (p.entryLines targets))).toList =
      (String.join (es'.map (q.entryLines targets'))).toList) :
    es.map (fun e => (e.instruction, e.location)) =
      es'.map fun e => (e.instruction, e.location) := by
  induction es generalizing es' with
  | nil =>
    cases es' with
    | nil => rfl
    | cons e' es' => simp [toList_entryLines] at same
  | cons e es ih =>
    cases es' with
    | nil => simp [toList_entryLines] at same
    | cons e' es' =>
      obtain ⟨file, files⟩ := List.forall_mem_cons.1 files
      obtain ⟨file', files'⟩ := List.forall_mem_cons.1 files'
      rw [List.map_cons, List.map_cons, String.join_cons, String.join_cons, String.toList_append,
        String.toList_append] at same
      obtain ⟨instruction, location, rest⟩ := block_inj file file' same
      rw [List.map_cons, List.map_cons, instruction, location, ih files files' rest]

/-! ## The heading -/

/-- What stands in a heading behind the number of instructions. -/
def extent (p : Program) : String :=
  match p.endAddress? with
  | some last => ", addresses " ++ p.start.text ++ ".." ++ last.text ++ "\n"
  | none => " from address " ++ p.start.text ++ " (past the last address)\n"

/-- Two words with the same numeral are equal, whatever stands behind it that ends it. -/
lemma word_append_inj {m n : Word} {cs ds : List Char} (ends : Instruction.Ends cs)
    (ends' : Instruction.Ends ds) (same : m.text.toList ++ cs = n.text.toList ++ ds) :
    m = n ∧ cs = ds := by
  obtain ⟨push, rest⟩ := Instruction.text_append_inj (i := .push m) (j := .push n) ends ends' same
  exact ⟨Instruction.push.inj push, rest⟩

/-- What stands in a heading behind the number of instructions tells where the program starts. -/
lemma start_of_extent {cs ds : List Char}
    (same : p.extent.toList ++ cs = q.extent.toList ++ ds) : p.start = q.start ∧ cs = ds := by
  unfold extent at same
  split at same <;> split at same
  · simp only [String.toList_append, List.append_assoc, List.append_cancel_left_eq] at same
    obtain ⟨start, behind⟩ := word_append_inj (by simp) (by simp) same
    rw [List.append_cancel_left_eq] at behind
    obtain ⟨-, rest⟩ := word_append_inj (by simp) (by simp) behind
    exact ⟨start, List.append_cancel_left rest⟩
  · simp at same
  · simp at same
  · simp only [String.toList_append, List.append_assoc, List.append_cancel_left_eq] at same
    obtain ⟨start, rest⟩ := word_append_inj (by simp) (by simp) same
    exact ⟨start, List.append_cancel_left rest⟩

/-- **The heading of a listing tells the start**, whatever follows it. -/
theorem start_of_heading {cs ds : List Char}
    (same : p.heading.toList ++ cs = q.heading.toList ++ ds) : p.start = q.start ∧ cs = ds := by
  have digits := notMem_decimal (c := ' ') (by decide)
  have parts (p : Program) :
      p.heading = "; " ++ Decimal.text p.length ++ " instructions" ++ p.extent := rfl
  have word : " instructions".toList = ' ' :: "instructions".toList := by simp
  rw [parts, parts] at same
  simp only [String.toList_append, List.append_assoc, List.append_cancel_left_eq, word,
    List.cons_append] at same
  obtain ⟨-, behind⟩ := eq_of_append_cons (digits _) (digits _) same
  exact start_of_extent (List.append_cancel_left behind)

/-! ## Programs -/

/-- A program whose tables are equally long, and whose files have names without a line feed. -/
structure Listable (p : Program) : Prop where
  /-- The tables are equally long. -/
  tables : p.instructions.size = p.locations.size
  /-- No name has a line feed. -/
  files : ∀ l ∈ p.locations, '\n' ∉ l.file.toList

/-- A program with equally long tables is made of what its entries have. -/
lemma ofList_entries (tables : p.instructions.size = p.locations.size) :
    ofList p.start (p.entries.map fun e => (e.instruction, e.location)) = p := by
  have contents : p.entries.map (fun e => (e.instruction, e.location)) =
      p.instructions.toList.zip p.locations.toList := by
    simp [entries, Function.comp_def]
  have tables' : p.instructions.toList.length = p.locations.toList.length := tables
  rw [contents, ofList, List.map_fst_zip tables'.le, List.map_snd_zip tables'.ge]

/-- **A listing tells the program**: two programs whose listings are the same start at the same
address and have the same instructions, each with the same file, line and column.

**Proof sketch.** The headings tell the starts (`start_of_heading`) and are followed by the blocks
of the instructions. Block by block, these tell the instructions and their places
(`contents_of_join`), and of these the programs are made. -/
theorem listing_eq_listing_iff (hp : p.Listable) (hq : q.Listable) :
    p.listing = q.listing ↔ p = q := by
  refine ⟨fun same => ?_, fun same => same ▸ rfl⟩
  have files {p : Program} (listable : p.Listable) :
      ∀ e ∈ p.entries, '\n' ∉ e.location.file.toList := by
    intro e mem
    exact listable.files e.location (Array.mem_of_getElem? (mem_entries_iff.1 mem).2.2)
  have lists := congrArg String.toList same
  rw [listing, listing, String.toList_append, String.toList_append] at lists
  obtain ⟨start, blocks⟩ := start_of_heading lists
  have contents := contents_of_join (files hp) (files hq) blocks
  rw [← ofList_entries hp.tables, ← ofList_entries hq.tables, start, contents]

/-- The name of a file goes on like the line and column of another place. -/
theorem listing_eq_listing_iff_imitation :
    listing ⟨0, #[.op .dup], #[⟨"; f:1", 1, 1⟩]⟩ ≠ listing ⟨0, #[.op .dup], #[⟨"; f", 1, 11⟩]⟩ := by
  intro same
  have programs := (listing_eq_listing_iff ⟨rfl, by simp⟩ ⟨rfl, by simp⟩).1 same
  revert programs
  decide

end Program

end StackAsm
