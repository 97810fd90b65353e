import Mathlib
import StackAsm.C.Text

set_option autoImplicit false

/-!
# Comments of C

Before a C program is read, every backslash in front of a line feed is deleted together with it, and
then every comment becomes a space; what looks like a comment within a string or a character
constant is none. A text that ends where it began, outside of comments and constants, can be put
between others, and is preprocessed on its own.

## Main definitions

* `StackAsm.C.splice` — deleting the line feeds behind a backslash.
* `StackAsm.C.Place` — where a scan for comments is; `StackAsm.C.Place.read` — reading a character.
* `StackAsm.C.preprocess` — a text without its comments.
* `StackAsm.C.Whole` — a text that is preprocessed on its own.

## Main results

* `StackAsm.C.preprocess_append` — whole texts are preprocessed one by one.
* `StackAsm.C.whole_quoted` — the text of a string is whole, whatever characters the string has.
* `StackAsm.C.preprocess_comment` — a comment becomes a space if its text does not close it.
* `StackAsm.C.closing_splice_iff` — which texts close a comment once they are spliced.
-/

namespace StackAsm.C

/-! ## The first two steps of a translation -/

/-- Deletes every line feed behind a backslash, together with the backslash. -/
def splice : List Char → List Char
  | '\\' :: '\n' :: cs => splice cs
  | c :: cs => c :: splice cs
  | [] => []

/-- Where a scan for comments is. -/
inductive Place where
  /-- Outside of comments and constants. -/
  | code
  /-- Behind a slash that may begin a comment. -/
  | slash
  /-- Within a string or a character constant that ends with the character `quote`. -/
  | literal (quote : Char)
  /-- Behind a backslash in a string or a character constant. -/
  | escape (quote : Char)
  /-- Within a comment that ends with an asterisk and a slash. -/
  | block
  /-- Behind an asterisk in such a comment. -/
  | star
  /-- Within a comment that ends with its line. -/
  | line
  deriving DecidableEq, Repr

namespace Place

/-- The place behind the character `c`, and what is left of it. The space of a comment is written
where the comment begins. -/
def read : Place → Char → Place × List Char
  | code, c =>
    if c = '/' then (slash, [])
    else if c = '"' ∨ c = '\'' then (literal c, [c])
    else (code, [c])
  | slash, c =>
    if c = '*' then (block, [' '])
    else if c = '/' then (line, [' '])
    else if c = '"' ∨ c = '\'' then (literal c, ['/', c])
    else (code, ['/', c])
  | literal quote, c =>
    if c = quote then (code, [c])
    else if c = '\\' then (escape quote, [c])
    else (literal quote, [c])
  | escape quote, c => (literal quote, [c])
  | block, c => if c = '*' then (star, []) else (block, [])
  | star, c =>
    if c = '/' then (code, [])
    else if c = '*' then (star, [])
    else (block, [])
  | line, c => if c = '\n' then (code, [c]) else (line, [])

/-- The place behind a text. -/
def after (p : Place) (cs : List Char) : Place := cs.foldl (fun p c => (p.read c).1) p

/-- What is left of a text without its comments. -/
def left : Place → List Char → List Char
  | _, [] => []
  | p, c :: cs => (p.read c).2 ++ (p.read c).1.left cs

/-- What is still to be written at the end of a text: a slash that has begun no comment. -/
def pending : Place → List Char
  | slash => ['/']
  | _ => []

end Place

/-- A text behind the first steps of a translation: spliced, and with a space for every comment. -/
def preprocess (text : String) : String :=
  let cs := splice text.toList
  String.ofList (Place.code.left cs ++ (Place.code.after cs).pending)

/-! ## Texts one behind the other -/

namespace Place

/-- No text changes no place. -/
@[simp] lemma after_nil (p : Place) : p.after [] = p := rfl

/-- The place behind a text is found character by character. -/
@[simp] lemma after_cons (p : Place) (c : Char) (cs : List Char) :
    p.after (c :: cs) = (p.read c).1.after cs := rfl

/-- The place behind two texts is the one behind the second, from the one behind the first. -/
@[simp] lemma after_append (p : Place) (cs ds : List Char) :
    p.after (cs ++ ds) = (p.after cs).after ds := List.foldl_append

/-- Nothing is left of no text. -/
@[simp] lemma left_nil (p : Place) : p.left [] = [] := by
  cases p <;> rfl

/-- What is left of a text is found character by character. -/
@[simp] lemma left_cons (p : Place) (c : Char) (cs : List Char) :
    p.left (c :: cs) = (p.read c).2 ++ (p.read c).1.left cs := by
  cases p <;> rfl

/-- What is left of two texts is what is left of each, the second from behind the first. -/
@[simp] lemma left_append (p : Place) (cs ds : List Char) :
    p.left (cs ++ ds) = p.left cs ++ (p.after cs).left ds := by
  induction cs generalizing p with
  | nil => simp
  | cons c cs ih => simp [ih]

end Place

/-- A character that does not start a splice is kept. -/
lemma splice_cons {c : Char} {cs : List Char} (other : c ≠ '\\' ∨ cs.head? ≠ some '\n') :
    splice (c :: cs) = c :: splice cs := by
  rw [splice]
  rintro rest rfl rfl
  simp at other

/-- Texts are spliced one by one unless a backslash at the end of one meets a line feed. -/
lemma splice_append {cs ds : List Char}
    (apart : cs.getLast? ≠ some '\\' ∨ ds.head? ≠ some '\n') :
    splice (cs ++ ds) = splice cs ++ splice ds := by
  fun_induction splice cs with
  | case1 cs ih =>
    refine ih (apart.imp_left fun last => ?_)
    cases cs with
    | nil => simp
    | cons d cs => simpa using last
  | case2 c cs other ih =>
    rcases cs with _ | ⟨d, cs⟩
    · exact splice_cons (by simpa using apart)
    · have other' : c ≠ '\\' ∨ (d :: cs ++ ds).head? ≠ some '\n' := by
        by_contra both
        simp only [List.cons_append, List.head?_cons, Option.some.injEq, not_or,
          Decidable.not_not] at both
        exact other cs both.1 (by rw [both.2])
      rw [List.cons_append, splice_cons other', ih (by simpa using apart), List.cons_append]
  | case3 => rfl

/-- A text without a line feed is kept as it is. -/
lemma splice_of_not_mem {cs : List Char} (none : '\n' ∉ cs) : splice cs = cs := by
  induction cs with
  | nil => rfl
  | cons c cs ih =>
    rw [List.mem_cons, not_or] at none
    rw [splice_cons, ih none.2]
    right
    rintro head
    exact none.2 (List.mem_of_head? head)

/-- A text that ends where it began, outside of comments and constants, and not with a backslash
that would delete what is behind it. -/
structure Whole (s : String) : Prop where
  /-- It does not end with a backslash. -/
  last : s.toList.getLast? ≠ some '\\'
  /-- It ends outside of comments and constants. -/
  after : Place.code.after (splice s.toList) = .code

instance (s : String) : Decidable (Whole s) :=
  decidable_of_iff (s.toList.getLast? ≠ some '\\' ∧ Place.code.after (splice s.toList) = .code)
    ⟨fun h => ⟨h.1, h.2⟩, fun h => ⟨h.1, h.2⟩⟩

section Whole

variable {s t : String}

/-- No text is whole. -/
lemma Whole.empty : Whole "" := ⟨by simp, rfl⟩

/-- Two whole texts, one behind the other, are whole. -/
lemma Whole.append (hs : Whole s) (ht : Whole t) : Whole (s ++ t) where
  last := by
    rw [String.toList_append, List.getLast?_append]
    have last := ht.last
    cases end_ : t.toList.getLast? with
    | none => exact hs.last
    | some c =>
      rw [end_] at last
      exact last
  after := by
    rw [String.toList_append, splice_append (.inl hs.last), Place.after_append, hs.after, ht.after]

/-- **A text behind a whole one is preprocessed on its own.** -/
theorem preprocess_append (hs : Whole s) (t : String) :
    preprocess (s ++ t) = preprocess s ++ preprocess t := by
  simp only [preprocess, String.toList_append, splice_append (.inl hs.last), Place.left_append,
    Place.after_append, hs.after, Place.pending, List.append_nil, ← String.ofList_append,
    List.append_assoc]

/-- Whole texts, one behind the other, are whole. -/
lemma Whole.join {ss : List String} (whole : ∀ s ∈ ss, Whole s) : Whole (String.join ss) := by
  induction ss with
  | nil => exact .empty
  | cons s ss ih =>
    rw [String.join_cons]
    rw [List.forall_mem_cons] at whole
    exact whole.1.append (ih whole.2)

/-- Whole texts, one behind the other, are preprocessed each by itself. -/
lemma preprocess_join {ss : List String} (whole : ∀ s ∈ ss, Whole s) :
    preprocess (String.join ss) = String.join (ss.map preprocess) := by
  induction ss with
  | nil => rfl
  | cons s ss ih =>
    rw [List.forall_mem_cons] at whole
    rw [String.join_cons, preprocess_append whole.1, ih whole.2, List.map_cons, String.join_cons]

/-- Whole texts with whole ones between them are whole. -/
lemma Whole.intercalate {ss : List String} (hs : Whole s) (whole : ∀ t ∈ ss, Whole t) :
    Whole (s.intercalate ss) := by
  induction ss with
  | nil => exact .empty
  | cons t ss ih =>
    rw [List.forall_mem_cons] at whole
    rcases ss with _ | ⟨u, ss⟩
    · exact whole.1
    · rw [String.intercalate_cons_cons]
      exact (whole.1.append hs).append (ih whole.2)

/-- Whether a text has no character that begins a comment or a constant, and no backslash. -/
def isPlain (s : String) : Bool :=
  s.toList.all fun c => c ≠ '/' && c ≠ '"' && c ≠ '\'' && c ≠ '\\'

/-- A plain text has none of the four characters that the preprocessor looks for. -/
lemma isPlain_iff :
    isPlain s ↔ ∀ c ∈ s.toList, c ≠ '/' ∧ c ≠ '"' ∧ c ≠ '\'' ∧ c ≠ '\\' := by
  simp [isPlain, and_assoc]

/-- A plain text is whole. -/
lemma whole_of_isPlain (plain : isPlain s) : Whole s := by
  rw [isPlain_iff] at plain
  refine ⟨fun last => (plain _ (List.mem_of_getLast? last)).2.2.2 rfl, ?_⟩
  generalize s.toList = cs at plain
  induction cs with
  | nil => rfl
  | cons c cs ih =>
    rw [List.forall_mem_cons] at plain
    obtain ⟨slash, double, single, backslash⟩ := plain.1
    rw [splice_cons (.inl backslash), Place.after_cons]
    simp only [Place.read, if_neg slash, double, single, or_self, if_false]
    exact ih plain.2

end Whole

/-! ## Strings and character constants -/

/-- A character that is written within a string or a character constant does not end it. -/
lemma after_escape {quote c : Char} (inside : quote = '"' ∨ quote = '\'' ∧ c ≠ '\'') :
    (Place.literal quote).after (escape c).toList = .literal quote := by
  unfold escape
  split_ifs with _ _ _ _ _ double backslash
  all_goals rcases inside with rfl | ⟨rfl, single⟩
  all_goals simp_all [Place.read]

/-- An escaped character is written without a line feed. -/
lemma lineFeed_notMem_escape (c : Char) : '\n' ∉ (escape c).toList := by
  unfold escape
  split_ifs <;> simp_all [eq_comm]

/-- The characters of a constant stay within it. -/
lemma after_escapes {quote : Char} {cs : List Char}
    (inside : ∀ c ∈ cs, quote = '"' ∨ quote = '\'' ∧ c ≠ '\'') :
    (Place.literal quote).after (String.join (cs.map escape)).toList = .literal quote := by
  induction cs with
  | nil => rfl
  | cons c cs ih =>
    rw [List.forall_mem_cons] at inside
    rw [List.map_cons, String.join_cons, String.toList_append, Place.after_append,
      after_escape inside.1, ih inside.2]

/-- A character constant or a string literal is whole, if no character in it closes it. -/
lemma whole_constant {quote : Char} {cs : List Char} (isQuote : quote = '"' ∨ quote = '\'')
    (inside : ∀ c ∈ cs, quote = '"' ∨ quote = '\'' ∧ c ≠ '\'') :
    Whole (String.singleton quote ++ String.join (cs.map escape) ++ String.singleton quote) := by
  have noLineFeed : '\n' ∉ (String.singleton quote ++ String.join (cs.map escape)
      ++ String.singleton quote).toList := by
    have quotes : '\n' ≠ quote := by rcases isQuote with rfl | rfl <;> simp
    simp [String.toList_join, quotes, lineFeed_notMem_escape]
  constructor
  · rw [String.toList_append, String.toList_singleton, List.getLast?_concat]
    rcases isQuote with rfl | rfl <;> simp
  · have opens : Place.code.after [quote] = .literal quote := by
      rcases isQuote with rfl | rfl <;> rfl
    rw [splice_of_not_mem noLineFeed, String.toList_append, String.toList_append,
      Place.after_append, Place.after_append, String.toList_singleton, opens, after_escapes inside]
    simp [Place.read]

/-- **The text of a string is whole**, whatever characters the string has. -/
theorem whole_quoted (s : String) : Whole (quoted s) :=
  whole_constant (.inl rfl) fun _ _ => .inl rfl

/-- The text of a character constant is whole unless the character is its quote. -/
lemma whole_char {c : Char} (other : c ≠ '\'') : Whole ("'" ++ escape c ++ "'") := by
  have whole := whole_constant (.inr rfl) (show ∀ d ∈ [c], _ from by simpa using other)
  rwa [List.map_singleton, String.join_cons, String.join_nil, String.append_empty] at whole

/-! ## Comments -/

namespace Place

/-- An asterisk matters only in front of a slash. -/
lemma read_star {c : Char} (other : c ≠ '/') : star.read c = block.read c := by
  simp only [read, if_neg other]

/-- A scan stays within a comment as long as there is no closing mark. -/
lemma stays_in_block {cs : List Char} (open_ : ¬ ['*', '/'] <:+: cs) :
    (block.left cs = [] ∧ block.after cs ∈ [block, star]) ∧
      (cs.head? ≠ some '/' → star.left cs = [] ∧ star.after cs ∈ [block, star]) := by
  induction cs with
  | nil => simp
  | cons c cs ih =>
    rw [List.infix_cons_iff, List.cons_prefix_cons, not_or, not_and] at open_
    obtain ⟨inBlock, behindStar⟩ := ih open_.2
    have next (mark : '*' = c) : cs.head? ≠ some '/' := fun head =>
      open_.1 mark (List.singleton_prefix_iff_head?_eq_some.2 head)
    have continues : (read block c).1.left cs = [] ∧ (read block c).1.after cs ∈ [block, star] := by
      by_cases mark : c = '*'
      · rw [read, if_pos mark]
        exact behindStar (next mark.symm)
      · rw [read, if_neg mark]
        exact inBlock
    have silent : (read block c).2 = [] := by
      rw [read]
      split <;> rfl
    constructor
    · rw [left_cons, after_cons, silent]
      exact continues
    · intro other
      have slash : c ≠ '/' := by simpa using other
      rw [left_cons, after_cons, read_star slash, silent]
      exact continues

end Place

/-- **A comment becomes a space** if its text does not close it. -/
theorem preprocess_comment {x : String} (open_ : ¬ ['*', '/'] <:+: splice x.toList) :
    preprocess ("/* " ++ x ++ " */") = " " ∧ Whole ("/* " ++ x ++ " */") := by
  have text : splice ("/* " ++ x ++ " */").toList =
      ['/', '*', ' '] ++ splice x.toList ++ [' ', '*', '/'] := by
    rw [String.toList_append, String.toList_append, splice_append (.inr (by simp)),
      splice_append (.inl (by simp))]
    rfl
  obtain ⟨⟨silent, stays⟩, -⟩ := Place.stays_in_block open_
  have opened : Place.code.after ['/', '*', ' '] = .block := rfl
  have closed : (Place.block.after (splice x.toList)).after [' ', '*', '/'] = .code ∧
      (Place.block.after (splice x.toList)).left [' ', '*', '/'] = [] := by
    simp only [List.mem_cons, List.not_mem_nil, or_false] at stays
    rcases stays with same | same <;> rw [same] <;> exact ⟨rfl, rfl⟩
  constructor
  · simp only [preprocess, text, Place.left_append, Place.after_append, opened, silent, closed]
    rfl
  · constructor
    · rw [String.toList_append, List.getLast?_append]
      simp
    · rw [text, Place.after_append, Place.after_append, opened, closed.1]

/-! ## Closing marks that appear when a text is spliced -/

/-- A closing mark of a comment whose two characters are `n` lines apart, each line but the last one
ending with a backslash. -/
def closingMark (n : Nat) : List Char :=
  '*' :: (List.replicate n ['\\', '\n']).flatten ++ ['/']

/-- Splices in front of a text are taken away. -/
lemma splice_lines (n : Nat) (cs : List Char) :
    splice ((List.replicate n ['\\', '\n']).flatten ++ cs) = splice cs := by
  induction n with
  | zero => rfl
  | succ n ih => rw [List.replicate_succ, List.flatten_cons, List.append_assoc]; exact ih

/-- What a spliced text begins with is behind spliced lines. -/
lemma exists_prefix_of_head?_splice {c : Char} {cs : List Char}
    (head : (splice cs).head? = some c) :
    ∃ n, (List.replicate n ['\\', '\n']).flatten ++ [c] <+: cs := by
  fun_induction splice cs with
  | case1 cs ih =>
    obtain ⟨n, rest, rfl⟩ := ih head
    exact ⟨n + 1, rest, by simp [List.replicate_succ]⟩
  | case2 d cs other ih =>
    obtain rfl : d = c := by simpa using head
    exact ⟨0, cs, rfl⟩
  | case3 => cases head

/-- **A spliced text closes a comment** exactly if it did before, or would have if its two
characters were not on different lines. -/
theorem closing_splice_iff {cs : List Char} :
    ['*', '/'] <:+: splice cs ↔ ∃ n, closingMark n <:+: cs := by
  constructor
  · intro closing
    fun_induction splice cs with
    | case1 cs ih =>
      obtain ⟨n, mark⟩ := ih closing
      exact ⟨n, List.infix_cons (List.infix_cons mark)⟩
    | case2 c cs other ih =>
      rcases List.infix_cons_iff.1 closing with first | inside
      · rw [List.cons_prefix_cons, List.singleton_prefix_iff_head?_eq_some] at first
        obtain ⟨rfl, head⟩ := first
        obtain ⟨n, isPrefix⟩ := exists_prefix_of_head?_splice head
        exact ⟨n, (List.cons_prefix_cons.2 ⟨rfl, isPrefix⟩).isInfix⟩
      · obtain ⟨n, mark⟩ := ih inside
        exact ⟨n, List.infix_cons mark⟩
    | case3 => simp at closing
  · rintro ⟨n, front, back, rfl⟩
    refine ⟨splice front, splice back, ?_⟩
    have mark : splice (closingMark n ++ back) = ['*', '/'] ++ splice back := by
      rw [closingMark, List.cons_append, List.cons_append, List.append_assoc,
        splice_cons (.inl (by simp)), splice_lines]
      rfl
    rw [List.append_assoc front, splice_append (.inr (by simp [closingMark])), mark,
      List.append_assoc]

end StackAsm.C
