import StackAsm.Compiler
import StackAsm.Proofs.C.WholeText

set_option autoImplicit false

/-!
# Where the instructions come from is only a comment

The text of a compiled program mentions the places of its instructions only in comments, one at each
case. A preprocessor turns each of them into a space, so the places do not matter, as long as none
of them closes its comment. Closing marks are parted when the text is written, but one whose
characters are on different lines, joined by a backslash, appears only when the lines are spliced.
These are the only names of files that close their comment.

## Main definitions

* `StackAsm.Compiler.HidesMark` — names of files that close their comment when lines are spliced.
* `StackAsm.Compiler.caseText` — the text of the case of an instruction.

## Main results

* `StackAsm.Compiler.closing_caseComment_iff` — which comments close themselves.
* `StackAsm.Program.cText_eq` — the text of a compiled program, case by case.
* `StackAsm.Program.preprocess_cText_congr` — places are not seen behind the preprocessor.
-/

namespace StackAsm

namespace Compiler

open C

/-! ## Closing marks in comments -/

/-- In front of a text, characters that hold no star make no closing mark. -/
lemma infix_append_iff_of_notMem {xs ys : List Char} (none : '*' ∉ xs) (n : Nat) :
    closingMark n <:+: xs ++ ys ↔ closingMark n <:+: ys := by
  induction xs with
  | nil => rfl
  | cons x xs ih =>
    rw [List.mem_cons, not_or] at none
    have other : ¬ closingMark n <+: x :: (xs ++ ys) := fun h =>
      none.1 (List.cons_prefix_cons.1 h).1
    rw [List.cons_append, List.infix_cons_iff, or_iff_right other, ih none.2]

/-- What ends a closing mark is not behind it. -/
lemma infix_append_iff_of_slash_notMem {xs ys : List Char} (none : '/' ∉ ys) (n : Nat) :
    closingMark n <:+: xs ++ ys ↔ closingMark n <:+: xs := by
  induction ys using List.reverseRecOn with
  | nil => rw [List.append_nil]
  | append_singleton ys y ih =>
    rw [List.mem_append, List.mem_singleton, not_or] at none
    have other : ¬ closingMark n <:+ xs ++ ys ++ [y] := by
      rintro ⟨front, same⟩
      rw [closingMark, ← List.append_assoc] at same
      cases (List.append_inj' same rfl).2
      exact none.2 rfl
    rw [← List.append_assoc, List.infix_concat_iff, or_iff_right other, ih none.1]

/-- Up to the first asterisk a text is written as it is. -/
lemma prefix_commentSafe_iff {q : List Char} (none : '*' ∉ q) (cs : List Char) :
    q <+: commentSafe cs ↔ q <+: cs := by
  induction q generalizing cs with
  | nil => simp
  | cons c q ih =>
    rw [List.mem_cons, not_or] at none
    fun_cases commentSafe cs with
    | case1 cs => simp [Ne.symm none.1]
    | case2 d cs => rw [List.cons_prefix_cons, List.cons_prefix_cons, ih none.2]
    | case3 => rfl

/-- Only the closing marks on one line are parted. -/
lemma closingMark_commentSafe_iff (n : Nat) (cs : List Char) :
    closingMark n <:+: commentSafe cs ↔ 0 < n ∧ closingMark n <:+: cs := by
  rcases n with _ | n
  · exact iff_of_false (commentSafe_not_closing cs) (by simp)
  rw [and_iff_right n.succ_pos]
  have unfolded : closingMark (n + 1) =
      '*' :: ('\\' :: '\n' :: ((List.replicate n ['\\', '\n']).flatten ++ ['/'])) := by
    simp [closingMark, List.replicate_succ]
  have noStar : '*' ∉ '\\' :: '\n' :: ((List.replicate n ['\\', '\n']).flatten ++ ['/']) := by
    simp [List.mem_flatten, List.mem_replicate]
  rw [unfolded]
  fun_induction commentSafe cs with
  | case1 cs ih => simp [List.infix_cons_iff, ih]
  | case2 c cs other ih =>
    rw [List.infix_cons_iff, List.infix_cons_iff, List.cons_prefix_cons, List.cons_prefix_cons,
      prefix_commentSafe_iff noStar]
    exact or_congr_right ih
  | case3 => rfl

/-- The name of a file has an asterisk and a slash behind it with nothing but lines that end with a
backslash between the two. -/
def HidesMark (file : String) : Prop := ∃ n, closingMark (n + 1) <:+: file.toList

/-- The closing marks left in a text made safe are those that had a line feed between their
characters. -/
lemma exists_closingMark_commentSafe_iff (cs : List Char) :
    (∃ n, closingMark n <:+: commentSafe cs) ↔ ∃ n, closingMark (n + 1) <:+: cs := by
  simp only [closingMark_commentSafe_iff]
  constructor
  · rintro ⟨_ | n, positive, mark⟩
    · exact absurd positive (Nat.lt_irrefl 0)
    · exact ⟨n, mark⟩
  · rintro ⟨n, mark⟩
    exact ⟨n + 1, n.succ_pos, mark⟩

instance (file : String) : Decidable (HidesMark file) :=
  decidable_of_iff (['*', '/'] <:+: splice (commentSafe file.toList))
    (closing_splice_iff.trans (exists_closingMark_commentSafe_iff file.toList))

/-- The places of instructions are closed by what the names of their files hide. -/
lemma closingMark_tag_iff (n : Nat) (l : Location) :
    closingMark n <:+: l.tag.toList ↔ closingMark n <:+: l.file.toList := by
  have plain : isPlain (":" ++ Decimal.text l.line ++ ":" ++ Decimal.text l.column) := by
    simp only [isPlain_append, isPlain_decimal, and_true]
    decide
  have noSlash : '/' ∉ (":" ++ Decimal.text l.line ++ ":" ++ Decimal.text l.column).toList :=
    fun mem => (isPlain_iff.1 plain _ mem).1 rfl
  have tag : l.tag = l.file ++ (":" ++ Decimal.text l.line ++ ":" ++ Decimal.text l.column) := by
    simp only [Location.tag, String.append_assoc]
  rw [tag, String.toList_append, infix_append_iff_of_slash_notMem noSlash]

/-- The text of an instruction holds no star. -/
lemma star_notMem_text (i : Instruction) : '*' ∉ i.text.toList := by
  cases i with
  | op o => cases o <;> decide
  | push n =>
    have digits : '*' ∉ n.toInt.natAbs.repr.toList := by
      rw [Nat.toList_repr]
      intro mem
      simpa using Nat.isDigit_of_mem_toDigits (by decide) (by decide) mem
    change '*' ∉ (Decimal.text n.toInt).toList
    unfold Decimal.text
    split
    · simpa using digits
    · exact digits

/-- **A comment is closed by its own text** exactly if the name of the file hides a closing mark. -/
theorem closing_caseComment_iff (e : Program.Entry) :
    ['*', '/'] <:+: splice (caseComment e).toList ↔ HidesMark e.location.file := by
  have noStar : '*' ∉ (e.instruction.text ++ " @ ").toList := by
    simp [star_notMem_text e.instruction]
  rw [closing_splice_iff, caseComment, String.toList_append, String.toList_ofList, HidesMark]
  simp only [infix_append_iff_of_notMem noStar, exists_closingMark_commentSafe_iff,
    closingMark_tag_iff]

/-! ## The text of a compiled program -/

/-- The text of the case of an instruction. -/
def caseText (e : Program.Entry) : String := (entryCase e).lines 12

/-- The statements of the main function before its loop. -/
def declarations (start : Address) : Stmt :=
  .ofList .lines
    [.declare .int64 [("pc", some (.word start))],
      .declare .int64 [("a", some (.num 0)), ("b", some (.num 0)), ("t", some (.num 0))],
      .ofList .line (["a", "b", "t"].map fun x => .expr (.cast .void (.name x))),
      .gap]

/-- What stands before the cases of a program. -/
def beforeCases (start : Address) (stackSize : Nat) : String :=
  "/* Generated by tstk. */\n"
    ++ Source.text ([.define "STACK_SIZE" stackSize, .gap] ++ library ++ [.gap])
    ++ "int main(void) " ++ "\x7b\n" ++ (declarations start).lines 4
    ++ indent 4 ++ "for (;;) " ++ "\x7b\n" ++ indent 8 ++ "switch (pc) " ++ "\x7b\n"

/-- What stands behind the cases of a program. -/
def afterCases : String :=
  defaultCase.lines 12 ++ indent 8 ++ "\x7d\n" ++ (Stmt.expr (.postIncr "pc")).lines 8
    ++ indent 4 ++ "\x7d\n" ++ "\x7d\n"

/-- The cases of a program are printed one behind the other, with the default case at the end. -/
lemma lines_cases (entries : List Program.Entry) :
    (cases entries).lines 12 = String.join (entries.map caseText) ++ defaultCase.lines 12 := by
  induction entries with
  | nil => simp [cases]
  | cons e entries ih =>
    rw [List.map_cons, String.join_cons, String.append_assoc, ← ih]
    rfl

/-- The text of the main function: its cases, and nothing else that depends on its instructions. -/
lemma text_main (p : Program) : (main p).text =
    "int main(void) " ++ "\x7b\n" ++ (declarations p.start).lines 4
      ++ indent 4 ++ "for (;;) " ++ "\x7b\n" ++ indent 8 ++ "switch (pc) " ++ "\x7b\n"
      ++ (cases p.entries).lines 12 ++ indent 8 ++ "\x7d\n"
      ++ (Stmt.expr (.postIncr "pc")).lines 8 ++ indent 4 ++ "\x7d\n" ++ "\x7d\n" := by
  have noIndent : indent 0 = "" := by decide
  have head : (main p).head = "int main(void) " := by
    simp [Function.head, main, CType.declaration, CType.text]
  have loop (s : Stmt) : (Stmt.forever s).head = "for (;;) " := rfl
  have selection (s : Stmt) : (Stmt.switch (.name "pc") s).head = "switch (pc) " := by
    simp only [Stmt.head, Expr.text]
    rfl
  rw [Function.text, head, declarations]
  simp only [main, Stmt.ofList, Stmt.lines, Stmt.linesAfter, noIndent, loop, selection,
    List.map_cons, List.map_nil, String.append_assoc, String.empty_append, Nat.zero_add]

/-- The items of a source are printed one behind the other. -/
lemma text_append (xs ys : Source) :
    Source.text (xs ++ ys) = Source.text xs ++ Source.text ys := by
  rw [Source.text, Source.text, Source.text, List.map_append, String.join_append]

end Compiler

namespace Program

open C Compiler

/-- The text of a compiled program has a case for each instruction; nothing else depends on where
the instructions come from. -/
theorem cText_eq (p : Program) (stackSize : Nat) :
    p.cText stackSize =
      beforeCases p.start stackSize ++ String.join (p.entries.map caseText) ++ afterCases := by
  have split : p.toC stackSize = [.comment "Generated by tstk."]
      ++ ([.define "STACK_SIZE" stackSize, .gap] ++ library ++ [.gap]) ++ [.exported (main p)] := by
    simp [toC]
  have one (item : Item) : Source.text [item] = item.text := by
    simp [Source.text]
  have comment : (Item.comment "Generated by tstk.").text = "/* Generated by tstk. */\n" := by
    simp [Item.text]
  have program : (Item.exported (main p)).text = (main p).text := rfl
  rw [cText, split, text_append, text_append, one, one, comment, program, text_main, lines_cases]
  unfold beforeCases afterCases
  -- what the parts are does not matter to the order in which they stand
  generalize Source.text _ = source
  generalize Stmt.lines 4 _ = opening
  generalize String.join _ = cases
  generalize Stmt.lines 12 _ = default
  generalize Stmt.lines 8 _ = closing
  simp only [String.append_assoc]

end Program

namespace Compiler

open C

/-! ## Behind the preprocessor -/

/-- What is printed in front of the cases is whole. -/
lemma whole_beforeCases (start : Address) (stackSize : Nat) :
    Whole (beforeCases start stackSize) := by
  have comment : Whole "/* Generated by tstk. */\n" := by decide
  have shared : library.all Item.isClean := by decide
  have clean : List.all [.define "STACK_SIZE" stackSize, .gap] Item.isClean := by
    have name : isPlain "STACK_SIZE" := by decide
    simp [Item.isClean, name]
  have source :
      Whole (Source.text ([.define "STACK_SIZE" stackSize, .gap] ++ library ++ [.gap])) := by
    rw [text_append, text_append]
    exact ((Source.whole_text clean).append (Source.whole_text shared)).append (by decide)
  have opening : (declarations start).isClean := by
    have names : isPlain "pc" ∧ isPlain "a" ∧ isPlain "b" ∧ isPlain "t" := by decide
    simp [declarations, Stmt.ofList, Stmt.isClean, isCleanDeclarator, Expr.isClean, names]
  unfold beforeCases
  refine Whole.append (.append (.append (.append (.append (.append (.append (.append (.append
    (.append comment source) ?_) ?_) (Stmt.whole_linesAfter opening 4 .empty))
    ?_) ?_) ?_) ?_) ?_) ?_
  all_goals decide

/-- The statements of an instruction are clean. -/
lemma isClean_instructionBody (i : Instruction) : (instructionBody i).isClean := by
  cases i with
  | op o => cases o <;> decide
  | push n =>
    have name : isPlain "push" := by decide
    simp [instructionBody, Stmt.ofList, pushValue, Stmt.isClean, Expr.isClean, Expr.areClean, name]

/-- What stands in front of the comment at a case. -/
def caseLead (a : Address) : String := indent 8 ++ "case " ++ wordText a ++ ": "

/-- What stands behind the comment at a case. -/
def caseRest (i : Instruction) : String := "\n" ++ (instructionBody i).lines 12

/-- A case is printed with its comment between two parts that do not depend on it. -/
lemma caseText_eq (e : Program.Entry) :
    caseText e =
      caseLead e.address ++ ("/* " ++ caseComment e ++ " */") ++ caseRest e.instruction := by
  have marks : ": /* " = ": " ++ "/* " := by decide
  have label : (Stmt.caseLabel e.address (caseComment e)).lines 12 =
      indent 8 ++ ("case " ++ wordText e.address ++ ": /* " ++ caseComment e ++ " */") ++ "\n" :=
    rfl
  have both : caseText e = (Stmt.caseLabel e.address (caseComment e)).lines 12
      ++ (instructionBody e.instruction).lines 12 := rfl
  rw [both, label, marks, caseLead, caseRest]
  simp only [String.append_assoc]

/-- What a case starts with is whole. -/
lemma whole_caseLead (a : Address) : Whole (caseLead a) :=
  (((whole_indent 8).append (by decide)).append (whole_of_isPlain (isPlain_wordText a))).append
    (by decide)

/-- What a case has behind its comment is whole. -/
lemma whole_caseRest (i : Instruction) : Whole (caseRest i) :=
  (show Whole "\n" by decide).append
    (Stmt.whole_linesAfter (isClean_instructionBody i) 12 .empty)

section Case

variable {e : Program.Entry} (open_ : ¬ HidesMark e.location.file)
include open_

/-- A case is whole if its comment hides no closing mark. -/
lemma whole_caseText : Whole (caseText e) := by
  have comment := preprocess_comment (fun h => open_ ((closing_caseComment_iff e).1 h))
  rw [caseText_eq]
  exact ((whole_caseLead e.address).append comment.2).append (whole_caseRest e.instruction)

/-- **The comment at a case is a space behind the preprocessor**, and nothing else depends on where
the instruction comes from. -/
theorem preprocess_caseText :
    preprocess (caseText e) =
      preprocess (caseLead e.address) ++ " " ++ preprocess (caseRest e.instruction) := by
  have comment := preprocess_comment (fun h => open_ ((closing_caseComment_iff e).1 h))
  rw [caseText_eq, preprocess_append ((whole_caseLead e.address).append comment.2),
    preprocess_append (whole_caseLead e.address), comment.1]

end Case

end Compiler

namespace Program

open C Compiler

/-- What is made of the address and the instruction of each entry is made of the instructions
alone. -/
lemma entries_map_eq {α : Type} {p : Program} (tables : p.locations.size = p.instructions.size)
    (g : Address → Instruction → α) :
    p.entries.map (fun e => g e.address e.instruction) =
      p.instructions.toList.zipIdx.map fun (i, k) => g (p.start + Int64.ofNat k) i := by
  refine List.ext_getElem (by simp [entries, tables]) fun k _ _ => ?_
  simp [entries]

/-- The location of an entry of a program is one of its locations. -/
lemma location_mem_of_mem_entries {p : Program} {e : Entry} (mem : e ∈ p.entries) :
    e.location ∈ p.locations.toList := by
  obtain ⟨⟨⟨i, l⟩, k⟩, inside, rfl⟩ := List.mem_map.1 mem
  rw [Array.toList_zip] at inside
  exact (List.of_mem_zip (List.fst_mem_of_mem_zipIdx inside)).2

section Preprocessed

variable {p : Program} (tables : p.locations.size = p.instructions.size)
  (open_ : ∀ l ∈ p.locations.toList, ¬ HidesMark l.file)
include tables open_

/-- **Behind the preprocessor** the text of a compiled program has a space where the place of an
instruction was. -/
theorem preprocess_cText (stackSize : Nat) :
    preprocess (p.cText stackSize) =
      preprocess (beforeCases p.start stackSize)
        ++ String.join (p.instructions.toList.zipIdx.map fun (i, k) =>
          preprocess (caseLead (p.start + Int64.ofNat k)) ++ " " ++ preprocess (caseRest i))
        ++ preprocess afterCases := by
  have openCases : ∀ e ∈ p.entries, ¬ HidesMark e.location.file := fun e mem =>
    open_ e.location (location_mem_of_mem_entries mem)
  have whole : ∀ s ∈ p.entries.map caseText, Whole s :=
    List.forall_mem_map.2 fun e mem => whole_caseText (openCases e mem)
  have cases : (p.entries.map caseText).map preprocess =
      p.entries.map fun e => preprocess (caseLead e.address) ++ " "
        ++ preprocess (caseRest e.instruction) := by
    rw [List.map_map]
    exact List.map_congr_left fun e mem => preprocess_caseText (openCases e mem)
  rw [cText_eq, preprocess_append ((whole_beforeCases _ _).append (.join whole)),
    preprocess_append (whole_beforeCases _ _), preprocess_join whole, cases]
  rw [entries_map_eq tables fun a i => preprocess (caseLead a) ++ " " ++ preprocess (caseRest i)]

end Preprocessed

/-- **Places are not seen behind the preprocessor.** If no name of a file hides a closing mark of a
comment, then no comment at a case is closed by its own text, and programs that differ in where
their instructions come from alone have the same text once lines are spliced and comments are
spaces. -/
theorem preprocess_cText_congr (start : Address) (instructions : Array Instruction)
    (stackSize : Nat) {locations locations' : Array Location}
    (tables : locations.size = instructions.size) (tables' : locations'.size = instructions.size)
    (open_ : ∀ l ∈ locations.toList, ¬ HidesMark l.file)
    (open' : ∀ l ∈ locations'.toList, ¬ HidesMark l.file) :
    (∀ e ∈ (Program.mk start instructions locations).entries,
      ¬ ['*', '/'] <:+: splice (caseComment e).toList) ∧
    preprocess (cText ⟨start, instructions, locations⟩ stackSize) =
      preprocess (cText ⟨start, instructions, locations'⟩ stackSize) := by
  refine ⟨fun e mem closing => ?_, ?_⟩
  · exact open_ _ (location_mem_of_mem_entries mem) ((closing_caseComment_iff e).1 closing)
  · have one := preprocess_cText (p := ⟨start, instructions, locations⟩) tables open_ stackSize
    have other := preprocess_cText (p := ⟨start, instructions, locations'⟩) tables' open' stackSize
    rw [one, other]

/-- Names with a closing mark on one line, and with the characters of one on different lines in
another order, against a name without any. -/
theorem preprocess_cText_congr_marks :
    preprocess (cText ⟨5, #[.push 1, .op .print], #[⟨"evil*/name", 1, 1⟩, ⟨"/\\\n*", 2, 7⟩]⟩ 8) =
      preprocess (cText ⟨5, #[.push 1, .op .print], #[⟨"a", 1, 1⟩, ⟨"a", 1, 3⟩]⟩ 8) :=
  (preprocess_cText_congr 5 #[.push 1, .op .print] 8 rfl rfl (by decide) (by decide)).2

/-- A name that hides a closing mark shows in the text behind the preprocessor. -/
theorem preprocess_cText_ne_of_hidden_mark :
    preprocess (cText ⟨0, #[.push 1], #[⟨"*\\\n/", 1, 1⟩]⟩ 8) ≠
      preprocess (cText ⟨0, #[.push 1], #[⟨"a", 1, 1⟩]⟩ 8) := by
  -- both texts are the same but for one case, which is whole in either of them
  have parts (file : String) (whole : Whole (caseText ⟨0, 0, .push 1, ⟨file, 1, 1⟩⟩)) :
      preprocess (cText ⟨0, #[.push 1], #[⟨file, 1, 1⟩]⟩ 8) =
        preprocess (beforeCases 0 8) ++ preprocess (caseText ⟨0, 0, .push 1, ⟨file, 1, 1⟩⟩)
          ++ preprocess afterCases := by
    have single : String.join
        ((Program.mk 0 #[.push 1] #[⟨file, 1, 1⟩]).entries.map caseText) =
        caseText ⟨0, 0, .push 1, ⟨file, 1, 1⟩⟩ := by
      simp [entries]
    rw [cText_eq, single, preprocess_append ((whole_beforeCases _ _).append whole),
      preprocess_append (whole_beforeCases _ _)]
  rw [parts _ (by decide +kernel), parts _ (by decide +kernel)]
  intro same
  rw [String.append_left_inj, String.append_right_inj] at same
  revert same
  decide +kernel

end Program

end StackAsm
