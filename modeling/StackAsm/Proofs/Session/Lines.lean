import StackAsm.Proofs.Session.Turns

set_option autoImplicit false

/-!
# The lines of an input

Sessions and the debugger take their input line by line. Cut behind each line feed, an input falls
into its lines; taking a line off it takes the first of them, and leaves the others.

## Main definitions

* `StackAsm.inputLines` — the lines of an input.

## Main results

* `StackAsm.inputLines_eq_cons` — the first line and the others.
* `StackAsm.splitLine_of_splitLine` — a line is read as it was read before, with only some of the
  lines behind it left.
* `StackAsm.isSome_decode?_splitLine` — the lines of a text are texts.
-/

namespace StackAsm

/-- The lines of an input, each through its line feed; what is behind the last line feed is a line,
too, if it is not empty. -/
def inputLines : Bytes → List Bytes
  | [] => []
  | b :: bytes =>
    if b = lineFeed then [b] :: inputLines bytes
    else
      match inputLines bytes with
      | [] => [[b]]
      | line :: lines => (b :: line) :: lines

variable {bytes line rest : Bytes}

/-- An input that is not empty has a first line that is not. -/
lemma splitLine_fst_ne_nil (nonempty : bytes ≠ []) : (splitLine bytes).1 ≠ [] := by
  obtain ⟨b, bytes, rfl⟩ := List.exists_cons_of_ne_nil nonempty
  unfold splitLine
  split <;> exact List.cons_ne_nil _ _

/-- **The first line of an input and the others.** -/
theorem inputLines_eq_cons (nonempty : bytes ≠ []) :
    inputLines bytes = (splitLine bytes).1 :: inputLines (splitLine bytes).2 := by
  induction bytes with
  | nil => exact absurd rfl nonempty
  | cons b bytes ih =>
    rw [inputLines, splitLine]
    split
    · rfl
    · cases bytes with
      | nil => rfl
      | cons c bytes => rw [ih (List.cons_ne_nil _ _)]

/-- The lines of an input, one behind the other, are the input. -/
lemma flatten_inputLines (bytes : Bytes) : (inputLines bytes).flatten = bytes := by
  induction bytes with
  | nil => rfl
  | cons b bytes ih =>
    unfold inputLines
    split
    · rw [List.flatten_cons, ih, List.singleton_append]
    · split
      · rename_i none
        rw [none] at ih
        rw [← ih]
        rfl
      · rename_i line lines cons
        rw [cons, List.flatten_cons] at ih
        rw [List.flatten_cons, List.cons_append, ih]

/-- Only an empty input has no lines. -/
lemma inputLines_eq_nil_iff : inputLines bytes = [] ↔ bytes = [] := by
  constructor
  · intro none
    rw [← flatten_inputLines bytes, none, List.flatten_nil]
  · rintro rfl
    rfl

/-- An input without a line feed is one line. -/
lemma splitLine_of_lineFeed_notMem (other : lineFeed ∉ bytes) :
    splitLine bytes = (bytes, []) := by
  induction bytes with
  | nil => rfl
  | cons b bytes ih =>
    rw [List.mem_cons, not_or] at other
    simp [splitLine, Ne.symm other.1, ih other.2]

/-- A line ends with its only line feed, or there is nothing behind it. -/
lemma splitLine_cases (bytes : Bytes) :
    (∃ front rest, lineFeed ∉ front ∧ bytes = front ++ lineFeed :: rest ∧
      splitLine bytes = (front ++ [lineFeed], rest)) ∨
    lineFeed ∉ bytes ∧ splitLine bytes = (bytes, []) := by
  by_cases mem : lineFeed ∈ bytes
  · obtain ⟨front, rest, rfl, other⟩ := List.eq_append_cons_of_mem mem
    exact .inl ⟨front, rest, other, rfl, splitLine_append_lineFeed other rest⟩
  · exact .inr ⟨mem, splitLine_of_lineFeed_notMem mem⟩

/-- **A line is read as it was read before** if other bytes are behind it, unless it was the last
one and did not end with a line feed. -/
theorem splitLine_of_splitLine (split : splitLine bytes = (line, rest)) {more : Bytes}
    (last : rest = [] → more = []) : splitLine (line ++ more) = (line, more) := by
  rcases splitLine_cases bytes with ⟨front, rest', other, rfl, split'⟩ | ⟨other, split'⟩
  · cases split.symm.trans split'
    rw [List.append_assoc]
    exact splitLine_append_lineFeed other more
  · cases split.symm.trans split'
    rw [last rfl, List.append_nil, split']

/-- **The lines of a text are texts**, since the byte of the line feed is part of no other
character. -/
theorem isSome_decode?_splitLine (decodes : (Utf8.decode? bytes).isSome) :
    (Utf8.decode? (splitLine bytes).1).isSome ∧ (Utf8.decode? (splitLine bytes).2).isSome := by
  have isText (cs : List Char) :
      (Utf8.decode? (cs.flatMap String.utf8EncodeChar)).isSome := by
    have decoded := Utf8.decode?_encode (String.ofList cs)
    rw [Utf8.encode, String.toList_ofList] at decoded
    rw [decoded]
    rfl
  obtain ⟨text, decoded⟩ := Option.isSome_iff_exists.1 decodes
  obtain rfl := Utf8.encode_of_decode? decoded
  rw [Utf8.encode]
  by_cases mem : '\n' ∈ text.toList
  · obtain ⟨front, back, same, other⟩ := List.eq_append_cons_of_mem mem
    have bytes : text.toList.flatMap String.utf8EncodeChar =
        front.flatMap String.utf8EncodeChar ++ lineFeed :: back.flatMap String.utf8EncodeChar := by
      rw [same, List.flatMap_append, List.flatMap_cons]
      rfl
    rw [bytes, splitLine_append_lineFeed (lineFeed_notMem_flatMap other)]
    have line := isText (front ++ ['\n'])
    rw [List.flatMap_append] at line
    exact ⟨line, isText back⟩
  · rw [splitLine_of_lineFeed_notMem (lineFeed_notMem_flatMap mem)]
    exact ⟨isText _, isText []⟩

end StackAsm
