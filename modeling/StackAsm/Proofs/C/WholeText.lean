import StackAsm.Proofs.C.Preprocessing

set_option autoImplicit false

/-!
# Texts of programs without comments

The text of an expression or a statement is a whole text: every constant in it ends where it should,
and a slash is a sign of division with a space on both sides. Names must be free of the characters
that begin comments or constants; what strings consist of does not matter.

## Main definitions

* `StackAsm.C.Expr.isClean`, `StackAsm.C.Stmt.isClean`, `StackAsm.C.Item.isClean` — parts of a
  program with such names, and without comments.

## Main results

* `StackAsm.C.Expr.whole_text`, `StackAsm.C.Stmt.whole_linesAfter`, `StackAsm.C.Item.whole_text` —
  their texts are whole.
-/

namespace StackAsm.C

/-! ## Numbers -/

/-- A number is printed with plain characters. -/
lemma isPlain_repr (n : Nat) : isPlain n.repr := by
  rw [isPlain_iff, Nat.toList_repr]
  intro c mem
  have digit := Nat.isDigit_of_mem_toDigits (by decide) (by decide) mem
  refine ⟨?_, ?_, ?_, ?_⟩ <;> rintro rfl <;> simp at digit

/-- Two texts together are plain exactly if both are. -/
lemma isPlain_append {s t : String} : isPlain (s ++ t) ↔ isPlain s ∧ isPlain t := by
  simp only [isPlain_iff, String.toList_append, List.forall_mem_append]

/-- A numeral is plain. -/
lemma isPlain_decimal (n : Int) : isPlain (Decimal.text n) := by
  unfold Decimal.text
  split
  · exact isPlain_append.2 ⟨by decide, isPlain_repr _⟩
  · exact isPlain_repr _

/-- The literal for a word is plain. -/
lemma isPlain_wordText (n : Word) : isPlain (wordText n) := by
  unfold wordText
  split
  · decide
  · exact isPlain_append.2 ⟨isPlain_append.2 ⟨by decide, isPlain_decimal _⟩, by decide⟩

/-! ## Expressions -/

namespace Expr

mutual

/-- Whether the names in an expression have no character that begins a comment or a constant. -/
def isClean : Expr → Bool
  | num _ | word _ | str _ => true
  | char c => c ≠ '\''
  | format _ constant => isPlain constant
  | name x | postIncr x | preDecr x => isPlain x
  | element a i => isPlain a && i.isClean
  | neg e | cast _ e => e.isClean
  | bin _ a b | assign a b => a.isClean && b.isClean
  | cond c a b => c.isClean && a.isClean && b.isClean
  | call f args => isPlain f && areClean args

/-- Whether this holds of all expressions in a list. -/
def areClean : List Expr → Bool
  | [] => true
  | e :: es => e.isClean && areClean es

end

/-- A whole text is whole in parentheses as well. -/
lemma whole_fenced (asked actual : Nat) {s : String} (whole : Whole s) :
    Whole (fenced asked actual s) := by
  unfold fenced
  split
  · exact whole
  · exact ((show Whole "(" by decide).append whole).append (by decide)

mutual

/-- **The text of an expression is whole.** -/
theorem whole_text (e : Expr) (clean : e.isClean) : Whole e.text := by
  cases e with
  | num n => exact whole_of_isPlain (isPlain_repr n)
  | word n => exact whole_of_isPlain (isPlain_wordText n)
  | char c => exact whole_char (of_decide_eq_true clean)
  | str s => exact whole_quoted s
  | format s constant =>
    rw [isClean] at clean
    exact ((whole_quoted s).append (by decide)).append (whole_of_isPlain clean)
  | name x => exact whole_of_isPlain clean
  | element a i =>
    simp only [isClean, Bool.and_eq_true] at clean
    exact (((whole_of_isPlain clean.1).append (by decide)).append (whole_text i clean.2)).append
      (by decide)
  | neg e => exact (show Whole "-" by decide).append (whole_fenced _ _ (whole_text e clean))
  | cast t e =>
    have type : Whole ("(" ++ t.text ++ ")") := by cases t <;> decide
    exact type.append (whole_fenced _ _ (whole_text e clean))
  | bin op a b =>
    simp only [isClean, Bool.and_eq_true] at clean
    -- a slash begins no comment here because a space is behind it
    have sign : Whole (" " ++ op.text ++ " ") := by cases op <;> decide
    have left := whole_fenced op.level a.level (whole_text a clean.1)
    have right := whole_fenced (op.level + 1) b.level (whole_text b clean.2)
    have whole := (left.append sign).append right
    simpa only [text, String.append_assoc] using whole
  | cond c a b =>
    simp only [isClean, Bool.and_eq_true] at clean
    exact ((((whole_fenced _ _ (whole_text c clean.1.1)).append (by decide)).append
      (whole_text a clean.1.2)).append (by decide)).append (whole_fenced _ _ (whole_text b clean.2))
  | assign x e =>
    simp only [isClean, Bool.and_eq_true] at clean
    refine Whole.append (.append ?_ (by decide)) (whole_text e clean.2)
    exact whole_fenced _ _ (whole_text x clean.1)
  | postIncr x => exact (whole_of_isPlain clean).append (by decide)
  | preDecr x => exact (show Whole "--" by decide).append (whole_of_isPlain clean)
  | call f args =>
    simp only [isClean, Bool.and_eq_true] at clean
    exact (((whole_of_isPlain clean.1).append (by decide)).append
      (.intercalate (by decide) (whole_texts args clean.2))).append (by decide)

/-- Clean arguments are printed as whole texts. -/
lemma whole_texts (es : List Expr) (clean : areClean es) : ∀ s ∈ texts es, Whole s := by
  cases es with
  | nil => simp [texts]
  | cons e es =>
    simp only [areClean, Bool.and_eq_true] at clean
    rw [texts, List.forall_mem_cons]
    exact ⟨whole_text e clean.1, whole_texts es clean.2⟩

end

end Expr

/-! ## Statements -/

/-- An indentation is whole. -/
lemma whole_indent (columns : Nat) : Whole (indent columns) := by
  refine whole_of_isPlain (isPlain_iff.2 fun c mem => ?_)
  rw [indent, String.toList_ofList] at mem
  rw [List.eq_of_mem_replicate mem]
  decide

/-- The declaration of a variable with a whole name is whole. -/
lemma whole_declaration (type : CType) {x : String} (whole : Whole x) :
    Whole (type.declaration x) := by
  unfold CType.declaration
  split
  · exact (show Whole type.text by cases type <;> decide).append whole
  · exact ((show Whole type.text by cases type <;> decide).append (by decide)).append whole

/-- Whether the name and the value of a declared variable have no character that begins a comment or
a constant. -/
def isCleanDeclarator : String × Option Expr → Bool
  | (x, none) => isPlain x
  | (x, some e) => isPlain x && e.isClean

/-- A clean declarator is printed as a whole text. -/
lemma whole_declarator {var : String × Option Expr} (clean : isCleanDeclarator var) :
    Whole (declarator var) := by
  rcases var with ⟨x, _ | e⟩
  · exact whole_of_isPlain clean
  · simp only [isCleanDeclarator, Bool.and_eq_true] at clean
    exact ((whole_of_isPlain clean.1).append (by decide)).append (e.whole_text clean.2)

namespace Stmt

/-- Whether the names in a statement have no character that begins a comment or a constant, and no
label in it has a comment. -/
def isClean : Stmt → Bool
  | gap | defaultLabel | leave | again => true
  | expr e | .return e => e.isClean
  | declare _ vars => vars.all isCleanDeclarator
  | seq _ s t => s.isClean && t.isClean
  | block _ s | forever s => s.isClean
  | ifThen e s | .while e s | switch e s => e.isClean && s.isClean
  | .for first test step s => first.isClean && test.isClean && step.isClean && s.isClean
  | caseLabel _ _ => false

variable {s : Stmt}

/-- What stands before the body of a statement is whole. -/
lemma whole_head (clean : s.isClean) : Whole s.head := by
  cases s with
  | ifThen e _ | «while» e _ | «switch» e _ =>
    simp only [isClean, Bool.and_eq_true] at clean
    exact ((show Whole _ by decide).append (e.whole_text clean.1)).append (by decide)
  | «for» first test step _ =>
    simp only [isClean, Bool.and_eq_true] at clean
    obtain ⟨⟨⟨cleanFirst, cleanTest⟩, cleanStep⟩, -⟩ := clean
    exact ((((((show Whole "for (" by decide).append (first.whole_text cleanFirst)).append
      (by decide)).append (test.whole_text cleanTest)).append (by decide)).append
      (step.whole_text cleanStep)).append (by decide)
  | forever _ => exact (by decide : Whole "for (;;) ")
  | _ => exact .empty

/-- A statement on one line is whole. -/
lemma whole_onLine (clean : s.isClean) : Whole s.onLine := by
  induction s with
  | gap => exact .empty
  | expr e => exact (e.whole_text clean).append (by decide)
  | declare type vars =>
    refine (whole_declaration type (.intercalate (by decide) ?_)).append (by decide)
    rw [List.forall_mem_map]
    exact fun var mem => whole_declarator (List.all_eq_true.1 clean var mem)
  | seq _ s t ihs iht =>
    simp only [isClean, Bool.and_eq_true] at clean
    exact ((ihs clean.1).append (by decide)).append (iht clean.2)
  | block _ s ih => exact ((show Whole "\x7b " by decide).append (ih clean)).append (by decide)
  | ifThen e s ih | «while» e s ih | «switch» e s ih =>
    have head := whole_head clean
    simp only [isClean, Bool.and_eq_true] at clean
    exact head.append (ih clean.2)
  | «for» first test step s ih =>
    have head := whole_head clean
    simp only [isClean, Bool.and_eq_true] at clean
    exact head.append (ih clean.2)
  | forever s ih => exact (whole_head clean).append (ih clean)
  | caseLabel n comment => cases clean
  | defaultLabel | leave | again => exact (by decide)
  | «return» e =>
    exact ((show Whole "return " by decide).append (e.whole_text clean)).append (by decide)

/-- Text on a line of its own is whole. -/
lemma whole_onOwnLine {text : String} (whole : Whole text) (columns : Nat) {before : String}
    (wholeBefore : Whole before) : Whole (indent columns ++ before ++ text ++ "\n") :=
  (((whole_indent columns).append wholeBefore).append whole).append (by decide)

/-- **A statement on lines of its own is whole**, with a whole text in front of it. -/
theorem whole_linesAfter (clean : s.isClean) (columns : Nat) {before : String}
    (whole : Whole before) : Whole (s.linesAfter columns before) := by
  induction s generalizing columns before with
  | gap => exact (show Whole "\n" by decide)
  | expr | declare | leave | again | «return» =>
    exact whole_onOwnLine (whole_onLine clean) columns whole
  | seq layout s t ihs iht =>
    cases layout with
    | line => exact whole_onOwnLine (whole_onLine clean) columns whole
    | lines =>
      simp only [isClean, Bool.and_eq_true] at clean
      exact (ihs clean.1 columns whole).append (iht clean.2 columns .empty)
  | block layout s ih =>
    cases layout with
    | line => exact whole_onOwnLine (whole_onLine clean) columns whole
    | lines =>
      exact (((((whole_indent columns).append whole).append (by decide)).append
        (ih clean (columns + 4) .empty)).append (whole_indent columns)).append (by decide)
  | ifThen e s ih | «while» e s ih | «switch» e s ih =>
    have head := whole_head clean
    simp only [isClean, Bool.and_eq_true] at clean
    exact ih clean.2 columns (whole.append head)
  | «for» first test step s ih =>
    have head := whole_head clean
    simp only [isClean, Bool.and_eq_true] at clean
    exact ih clean.2 columns (whole.append head)
  | forever s ih => exact ih clean columns (whole.append (whole_head clean))
  | caseLabel n comment => cases clean
  | defaultLabel =>
    exact ((whole_indent (columns - 4)).append (by decide)).append (by decide)

end Stmt

/-! ## Definitions -/

/-- Whether the names in a function have no character that begins a comment or a constant. -/
def Function.isClean (f : Function) : Bool :=
  isPlain f.name && f.params.all (fun (_, x) => isPlain x) && f.body.isClean

/-- The text of a function is whole. -/
lemma Function.whole_text {f : Function} (clean : f.isClean) : Whole f.text := by
  simp only [isClean, Bool.and_eq_true] at clean
  obtain ⟨⟨name, params⟩, body⟩ := clean
  have head : Whole f.head := by
    unfold head
    refine (((whole_declaration _ (whole_of_isPlain name)).append (by decide)).append ?_).append
      (by decide)
    split
    · exact (by decide)
    · refine .intercalate (by decide) (List.forall_mem_map.2 fun param mem => ?_)
      exact whole_declaration _ (whole_of_isPlain (List.all_eq_true.1 params param mem))
  exact Stmt.whole_linesAfter (s := .block f.layout f.body) body 0 head

namespace Item

/-- Whether the names in an item have no character that begins a comment or a constant, and it is no
comment. -/
def isClean : Item → Bool
  | gap => true
  | comment _ => false
  | define x _ | .include x => isPlain x
  | .variable _ x e | array _ x e => isPlain x && e.isClean
  | .local f | exported f => f.isClean

/-- **The text of an item is whole.** -/
theorem whole_text {item : Item} (clean : item.isClean) : Whole item.text := by
  cases item with
  | gap => exact (by decide)
  | comment s => cases clean
  | define x n =>
    exact ((((show Whole "#define " by decide).append (whole_of_isPlain clean)).append
      (by decide)).append (whole_of_isPlain (isPlain_repr n))).append (by decide)
  | «include» header =>
    exact ((show Whole "#include <" by decide).append (whole_of_isPlain clean)).append (by decide)
  | «variable» type x e =>
    simp only [isClean, Bool.and_eq_true] at clean
    exact ((((show Whole "static " by decide).append
      (whole_declaration type (whole_of_isPlain clean.1))).append (by decide)).append
      (e.whole_text clean.2)).append (by decide)
  | array type x e =>
    simp only [isClean, Bool.and_eq_true] at clean
    exact ((((show Whole "static " by decide).append
      (whole_declaration type (whole_of_isPlain clean.1))).append (by decide)).append
      (e.whole_text clean.2)).append (by decide)
  | «local» f => exact (show Whole "static " by decide).append (f.whole_text clean)
  | exported f => exact f.whole_text clean

end Item

/-- The text of a source file without comments is whole. -/
lemma Source.whole_text {source : Source} (clean : source.all Item.isClean) :
    Whole source.text :=
  .join (List.forall_mem_map.2 fun _ mem => Item.whole_text (List.all_eq_true.1 clean _ mem))

end StackAsm.C
