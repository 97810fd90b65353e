import Mathlib
import StackAsm.Source

set_option autoImplicit false

/-!
# The grammar of source text

A text is read from its front: what separates tokens is dropped and the longest token taken, again
and again. This module says which texts are sequences of tokens without reading them, and shows that
the reader finds the tokens of exactly these texts, each at its place.

**Proof sketch.** No token begins with a character that separates tokens, so the separator in front
of a token is all that the reader drops. A token ends where the next character cannot belong to it,
so it is all that the reader takes. Both facts hold in both directions, and the main theorem follows
by induction on the length of the text that is left.

## Main definitions

* `StackAsm.Source.Separator`, `StackAsm.Source.Ending` — what may stand between two tokens, and
  behind the last one.
* `StackAsm.Source.Spells` — the texts of a token.
* `StackAsm.Source.Closed` — what may stand directly behind a token.
* `StackAsm.Source.locate` — the place behind a stretch of text, counted from scratch.
* `StackAsm.Source.Renders` — the texts of a sequence of tokens, and their locations.

## Main results

* `StackAsm.Source.inFile_after` — positions that are carried along are places counted from scratch.
* `StackAsm.Source.ending_or_starts` — what separates tokens ends with the text or with a token.
* `StackAsm.Source.splitBlank_append_of_separator`, `StackAsm.Source.splitBlank_ending` — the reader
  drops separators.
* `StackAsm.Source.lexeme_append`, `StackAsm.Source.spells_of_lexeme` — the reader takes tokens.
* `StackAsm.Source.tokens_eq_ok_iff_renders` — the tokens of a text.
-/

namespace StackAsm.Source

/-! ## Places -/

/-- The place behind a stretch of text that begins its file: the line is counted by the line feeds,
the column by the characters behind the last one. -/
def locate (file : String) (before : List Char) : Location :=
  ⟨file, 1 + before.count '\n', 1 + (before.rtakeWhile (· ≠ '\n')).length⟩

/-- The place that reading a stretch of text leads to is the one counted from the text. -/
theorem inFile_after (file : String) (before : List Char) :
    (Position.first.after before).inFile file = locate file before := by
  suffices position : Position.first.after before =
      ⟨1 + before.count '\n', 1 + (before.rtakeWhile (· ≠ '\n')).length⟩ by
    rw [position]
    rfl
  induction before using List.reverseRecOn with
  | nil => rfl
  | append_singleton before c ih =>
    rw [Position.after_append, ih, Position.after_cons, Position.after_nil, Position.next]
    by_cases feed : c = '\n'
    · subst feed
      simp [Nat.add_assoc]
    · simp [feed, Nat.add_comm]

/-! ## Separators -/

/-- What may stand between two tokens: blanks, and comments that end with their lines. -/
inductive Separator : List Char → Prop where
  /-- Nothing. -/
  | nil : Separator []
  /-- A blank. -/
  | blank {c : Char} {s : List Char} (blank : c ∈ [' ', '\t', '\r', '\n']) (more : Separator s) :
    Separator (c :: s)
  /-- A comment through its line feed. -/
  | comment {text s : List Char} (line : '\n' ∉ text) (more : Separator s) :
    Separator ('#' :: text ++ '\n' :: s)

/-- What may stand behind the last token: a separator, and perhaps a comment that ends with the
text. -/
inductive Ending : List Char → Prop where
  /-- No such comment. -/
  | separator {s : List Char} (separator : Separator s) : Ending s
  /-- A comment without a line feed. -/
  | comment {s text : List Char} (separator : Separator s) (line : '\n' ∉ text) :
    Ending (s ++ '#' :: text)

/-- There are four blank characters. -/
lemma isBlank_iff {c : Char} : isBlank c ↔ c ∈ [' ', '\t', '\r', '\n'] := by
  simp [isBlank, or_assoc]

/-- A comment reaches to its line feed, and the blank space goes on behind it. -/
lemma splitBlank_comment {text : List Char} (line : '\n' ∉ text) (cs : List Char) :
    splitBlank true (text ++ '\n' :: cs) =
      (text ++ '\n' :: (splitBlank false cs).1, (splitBlank false cs).2) := by
  induction text with
  | nil => simp [splitBlank]
  | cons c text ih =>
    rw [List.mem_cons, not_or] at line
    simp [splitBlank, Ne.symm line.1, ih line.2]

/-- A comment without a line feed reaches to the end of the text. -/
lemma splitBlank_comment_end {text : List Char} (line : '\n' ∉ text) :
    splitBlank true text = (text, []) := by
  induction text with
  | nil => rfl
  | cons c text ih =>
    rw [List.mem_cons, not_or] at line
    simp [splitBlank, Ne.symm line.1, ih line.2]

/-- A separator is dropped, whatever follows it. -/
lemma splitBlank_separator {s : List Char} (separator : Separator s) (cs : List Char) :
    splitBlank false (s ++ cs) = (s ++ (splitBlank false cs).1, (splitBlank false cs).2) := by
  induction separator with
  | nil => rfl
  | @blank c s blank more ih =>
    have other : c ≠ '#' := by
      rintro rfl
      exact absurd blank (by decide)
    simp [splitBlank, isBlank_iff.2 blank, other, ih]
  | @comment text s line more ih =>
    simp [splitBlank, splitBlank_comment line, ih]

/-- A character that begins neither a blank nor a comment. -/
def Starts (c : Char) : Prop := c ∉ [' ', '\t', '\r', '\n', '#']

instance (c : Char) : Decidable (Starts c) := inferInstanceAs (Decidable (¬ _))

/-- A character starts a token or an error if it is neither blank nor the mark of a comment. -/
lemma starts_iff {c : Char} : Starts c ↔ ¬ isBlank c ∧ c ≠ '#' := by
  simp [Starts, isBlank, and_assoc]

/-- The separator in front of a token is all that is dropped. -/
theorem splitBlank_append_of_separator {s : List Char} {c : Char} (separator : Separator s)
    (starts : Starts c) (cs : List Char) : splitBlank false (s ++ c :: cs) = (s, c :: cs) := by
  rw [starts_iff] at starts
  simp [splitBlank_separator separator, splitBlank, starts.1, starts.2]

/-- Nothing is left of what may stand behind the last token. -/
theorem splitBlank_ending {s : List Char} (ending : Ending s) : splitBlank false s = (s, []) := by
  cases ending with
  | separator separator => simpa [splitBlank] using splitBlank_separator separator []
  | comment separator line =>
    simp [splitBlank_separator separator, splitBlank, splitBlank_comment_end line]

/-- In front of the first character with which a token may begin stands a separator; a text without
such a character ends there.

**Proof sketch.** Induction on the length of the text. A blank is a separator, and so is a comment
with a line feed, up to the first one. -/
theorem ending_or_starts (cs : List Char) :
    Ending cs ∨ ∃ s c rest, cs = s ++ c :: rest ∧ Separator s ∧ Starts c := by
  induction h : cs.length using Nat.strongRecOn generalizing cs with
  | ind n ih =>
    subst h
    -- what is found behind a separator is found behind it and the one in front of it
    have behind (front : List Char) {s : List Char} (shorter : s.length < cs.length)
        (same : cs = front ++ s) (separator : ∀ {s}, Separator s → Separator (front ++ s)) :
        Ending cs ∨ ∃ s c rest, cs = s ++ c :: rest ∧ Separator s ∧ Starts c := by
      subst same
      rcases ih _ shorter s rfl with ending | ⟨s, c, rest, rfl, more, starts⟩
      · cases ending with
        | separator more => exact .inl (.separator (separator more))
        | comment more line =>
          rw [← List.append_assoc]
          exact .inl (.comment (separator more) line)
      · exact .inr ⟨front ++ s, c, rest, (List.append_assoc ..).symm, separator more, starts⟩
    cases cs with
    | nil => exact .inl (.separator .nil)
    | cons c cs =>
      by_cases blank : isBlank c
      · exact behind [c] (Nat.lt_succ_self _) rfl (.blank (isBlank_iff.1 blank))
      · by_cases mark : c = '#'
        · subst mark
          by_cases line : '\n' ∈ cs
          · obtain ⟨text, rest, rfl, first⟩ := List.eq_append_cons_of_mem line
            refine behind ('#' :: text ++ ['\n']) (s := rest) ?_ (by simp) ?_
            · simp only [List.length_cons, List.length_append]
              omega
            · intro s more
              rw [List.append_assoc]
              exact .comment first more
          · exact .inl (.comment .nil line)
        · exact .inr ⟨[], c, cs, rfl, .nil, starts_iff.2 ⟨blank, mark⟩⟩

/-! ## Tokens -/

/-- One or more letters of ASCII. -/
def IsWord (w : List Char) : Prop := w ≠ [] ∧ ∀ c ∈ w, c.isAlpha

/-- One or more digits of ASCII. -/
def IsNumeral (ds : List Char) : Prop := ds ≠ [] ∧ ∀ c ∈ ds, c.isDigit

/-- The texts of a token. Numbers have many, with zeros in front; every other token has one. -/
inductive Spells : List Char → Token → Prop where
  /-- The definition of a label. -/
  | define {name : List Char} (word : IsWord name) :
    Spells (':' :: name ++ [':']) (.define (String.ofList name))
  /-- A reference to a label. -/
  | refer {name : List Char} (word : IsWord name) :
    Spells ('@' :: name) (.refer (String.ofList name))
  /-- A number without a sign. -/
  | unsigned {digits : List Char} {n : Word} (numeral : IsNumeral digits)
      (value : n.toInt = Decimal.value false digits) : Spells digits (.instr (.push n))
  /-- A number with a minus sign. -/
  | negative {digits : List Char} {n : Word} (numeral : IsNumeral digits)
      (value : n.toInt = Decimal.value true digits) : Spells ('-' :: digits) (.instr (.push n))
  /-- An opcode. -/
  | op (o : Opcode) : Spells o.mnemonic.toList (.instr (.op o))

/-- Whether a token ends in front of a text: the text does not begin with a character that would
belong to the token. -/
def Closed : Token → List Char → Prop
  | .define _, _ => True
  | .refer _, cs | .instr (.op _), cs => ∀ c ∈ cs.head?, ¬ c.isAlpha
  | .instr (.push _), cs => ∀ c ∈ cs.head?, ¬ c.isDigit

/-- The mnemonics are words. -/
lemma isWord_mnemonic (o : Opcode) : IsWord o.mnemonic.toList := by
  cases o <;> simp [IsWord, Opcode.mnemonic]

section Classes

variable {p : Char → Bool}

/-- The longest prefix of a text whose characters belong to a class, and what stands behind it. -/
lemma exists_longest (p : Char → Bool) (cs : List Char) :
    ∃ w rest, cs = w ++ rest ∧ cs.takeWhile p = w ∧ (∀ c ∈ w, p c) ∧ ∀ c ∈ rest.head?, ¬ p c := by
  refine ⟨_, cs.dropWhile p, List.takeWhile_append_dropWhile.symm, rfl,
    fun c mem => List.mem_takeWhile_imp mem, fun c mem => ?_⟩
  have stops := List.head?_dropWhile_not p cs
  rw [Option.mem_def.1 mem] at stops
  simpa using stops

/-- It is a given one if the next character does not belong to the class. -/
lemma takeWhile_append_of_head? {w cs : List Char} (all : ∀ c ∈ w, p c)
    (stops : ∀ c ∈ cs.head?, ¬ p c) : (w ++ cs).takeWhile p = w := by
  have none : cs.takeWhile p = [] := by
    cases cs with
    | nil => rfl
    | cons c cs => exact List.takeWhile_cons_of_neg (stops c rfl)
  rw [List.takeWhile_append_of_pos all, none, List.append_nil]

end Classes

/-- A number is a token exactly if its value is a word. -/
lemma number_eq_ok_iff {negative : Bool} {digits : List Char} {t : Token} :
    number negative digits = .ok t ↔
      ∃ n : Word, n.toInt = Decimal.value negative digits ∧ t = .instr (.push n) := by
  unfold number
  split
  · rename_i n value
    rw [Word.ofInt?_eq_some_iff] at value
    constructor
    · rintro ⟨⟩
      exact ⟨n, value, rfl⟩
    · rintro ⟨m, same, rfl⟩
      rw [Int64.toInt_inj.1 (value.trans same.symm)]
  · rename_i none
    constructor
    · rintro ⟨⟩
    · rintro ⟨n, value, rfl⟩
      rw [← value, Word.ofInt?_toInt] at none
      cases none

/-- A word is a token exactly if it is a mnemonic. -/
lemma command_eq_ok_iff {word : List Char} {t : Token} :
    command word = .ok t ↔ ∃ o : Opcode, o.mnemonic.toList = word ∧ t = .instr (.op o) := by
  unfold command
  split
  · rename_i o found
    have spelled : o.mnemonic = String.ofList word := by
      simpa using List.find?_some found
    constructor
    · rintro ⟨⟩
      exact ⟨o, by rw [spelled, String.toList_ofList], rfl⟩
    · rintro ⟨o', rfl, rfl⟩
      rw [String.ofList_toList] at spelled
      rw [Opcode.mnemonic_injective spelled]
  · rename_i none
    constructor
    · rintro ⟨⟩
    · rintro ⟨o, rfl, rfl⟩
      rw [String.ofList_toList, Opcode.ofMnemonic?_mnemonic] at none
      cases none

/-- No letter is a digit. -/
lemma not_isDigit_of_isAlpha {c : Char} (letter : c.isAlpha) : ¬ c.isDigit := by
  simp only [Char.isAlpha, Char.isUpper, Char.isLower, Char.isDigit, Bool.or_eq_true,
    Bool.and_eq_true, decide_eq_true_eq, UInt32.le_iff_toNat_le] at letter ⊢
  simp at letter ⊢
  omega

/-- **A token is taken where it stands**: all of its text, if it ends there. -/
theorem lexeme_append {c : Char} {x cs : List Char} {t : Token} (spells : Spells (c :: x) t)
    (closed : Closed t cs) : lexeme c (x ++ cs) = .ok (t, x.length) := by
  generalize text : c :: x = w at spells
  cases spells with
  | @define name word =>
    obtain ⟨rfl, rfl⟩ := List.cons.inj text
    have longest : (name ++ ':' :: cs).takeWhile Char.isAlpha = name :=
      takeWhile_append_of_head? word.2 (by simp)
    simp [lexeme, longest, word.1]
  | @refer name word =>
    obtain ⟨rfl, rfl⟩ := List.cons.inj text
    simp [lexeme, takeWhile_append_of_head? word.2 closed, word.1]
  | @unsigned digits n numeral value =>
    subst text
    obtain ⟨digit, digits⟩ := List.forall_mem_cons.1 numeral.2
    have other {d : Char} (no : ¬ d.isDigit) : c ≠ d := fun same => no (same ▸ digit)
    have found := number_eq_ok_iff.2 ⟨n, value, rfl⟩
    simp [lexeme, takeWhile_append_of_head? digits closed, other, digit, found]
  | @negative digits n numeral value =>
    obtain ⟨rfl, rfl⟩ := List.cons.inj text
    have found := number_eq_ok_iff.2 ⟨n, value, rfl⟩
    simp [lexeme, takeWhile_append_of_head? numeral.2 closed, numeral.1, found]
  | op o =>
    have word := isWord_mnemonic o
    rw [← text] at word
    obtain ⟨letter, letters⟩ := List.forall_mem_cons.1 word.2
    have other {d : Char} (no : ¬ d.isAlpha) : c ≠ d := fun same => no (same ▸ letter)
    have found := command_eq_ok_iff.2 ⟨o, text.symm, rfl⟩
    simp [lexeme, takeWhile_append_of_head? letters closed, other, letter,
      not_isDigit_of_isAlpha letter, found]

/-- **What is taken is a token** that ends there. -/
theorem spells_of_lexeme {c : Char} {cs : List Char} {t : Token} {n : Nat}
    (taken : lexeme c cs = .ok (t, n)) :
    ∃ x rest, cs = x ++ rest ∧ n = x.length ∧ Spells (c :: x) t ∧ Closed t rest := by
  obtain ⟨word, behindWord, split, longest, letters, stops⟩ := exists_longest Char.isAlpha cs
  obtain ⟨digits, behindDigits, split', longest', all, stops'⟩ := exists_longest Char.isDigit cs
  simp only [lexeme, longest, longest'] at taken
  split at taken
  case isTrue mark =>
    subst mark
    split_ifs at taken with empty close
    obtain ⟨rest, rfl⟩ : ∃ rest, behindWord = ':' :: rest := by
      rw [split, List.getElem?_append_right (Nat.le_refl _), Nat.sub_self,
        ← List.head?_eq_getElem?] at close
      exact ⟨_, List.eq_cons_of_mem_head? close⟩
    cases taken
    exact ⟨word ++ [':'], rest, by simp [split], by simp, .define ⟨empty, letters⟩, trivial⟩
  split at taken
  case isTrue mark =>
    subst mark
    split_ifs at taken with empty
    cases taken
    exact ⟨word, behindWord, split, rfl, .refer ⟨empty, letters⟩, stops⟩
  split at taken
  case isTrue mark =>
    subst mark
    split_ifs at taken with empty
    split at taken <;> cases taken
    rename_i found
    obtain ⟨n, value, rfl⟩ := number_eq_ok_iff.1 found
    exact ⟨digits, behindDigits, split', rfl, .negative ⟨empty, all⟩ value, stops'⟩
  split at taken
  case isTrue digit =>
    split at taken <;> cases taken
    rename_i found
    obtain ⟨n, value, rfl⟩ := number_eq_ok_iff.1 found
    have numeral : IsNumeral (c :: digits) := ⟨by simp, List.forall_mem_cons.2 ⟨digit, all⟩⟩
    exact ⟨digits, behindDigits, split', rfl, .unsigned numeral value, stops'⟩
  split_ifs at taken
  split at taken <;> cases taken
  rename_i found
  obtain ⟨o, spelled, rfl⟩ := command_eq_ok_iff.1 found
  exact ⟨word, behindWord, split, rfl, spelled ▸ .op o, stops⟩

/-! ## Sequences of tokens -/

/-- A character of a class does not begin a separator if none that does is of the class. -/
lemma starts_of_mem {p : Char → Bool} {c : Char} (mem : p c)
    (other : ∀ d ∈ [' ', '\t', '\r', '\n', '#'], ¬ p d) : Starts c := fun h => other c h mem

/-- A token does not begin with what separates tokens. -/
lemma Spells.starts {x : List Char} {t : Token} (spells : Spells x t) :
    ∃ c more, x = c :: more ∧ Starts c := by
  cases spells with
  | define word => exact ⟨':', _, rfl, by decide⟩
  | refer word => exact ⟨'@', _, rfl, by decide⟩
  | negative numeral value => exact ⟨'-', _, rfl, by decide⟩
  | unsigned numeral value =>
    obtain ⟨c, more, rfl⟩ := List.exists_cons_of_ne_nil numeral.1
    exact ⟨c, more, rfl, starts_of_mem (numeral.2 c (List.mem_cons_self ..)) (by simp)⟩
  | op o =>
    have word := isWord_mnemonic o
    obtain ⟨c, more, same⟩ := List.exists_cons_of_ne_nil word.1
    rw [same] at word
    exact ⟨c, more, same, starts_of_mem (word.2 c (List.mem_cons_self ..)) (by simp)⟩

/-- A text, behind the part of it that is read already, is a sequence of tokens: separators and
texts of tokens take turns, the text of each token ends where what follows cannot belong to it, and
its location is counted from all that stands in front of it. -/
inductive Renders (file : String) : (before cs : List Char) → List SourceToken → Prop where
  /-- Without a token only what may end a text is left. -/
  | nil {before s : List Char} (ending : Ending s) : Renders file before s []
  /-- A token, and the separator in front of it. -/
  | cons {before s x cs : List Char} {t : Token} {tokens : List SourceToken}
      (separator : Separator s) (spells : Spells x t) (closed : Closed t cs)
      (more : Renders file (before ++ s ++ x) cs tokens) :
    Renders file before (s ++ x ++ cs) (⟨t, locate file (before ++ s)⟩ :: tokens)

/-- One token is read after the other. -/
lemma tokensFrom_eq (file : String) (p : Position) (cs : List Char) :
    tokensFrom file p cs =
      match splitBlank false cs with
      | (_, []) => .ok []
      | (blank, c :: rest) =>
        match lexeme c rest with
        | .error (fault, n) =>
          .error ⟨fault, ((p.after blank).after ((c :: rest).take n)).inFile file⟩
        | .ok (token, n) =>
          match tokensFrom file ((p.after blank).after (c :: rest.take n)) (rest.drop n) with
          | .error e => .error e
          | .ok tokens => .ok (⟨token, (p.after blank).inFile file⟩ :: tokens) := by
  rw [tokensFrom]
  split
  · rename_i same
    rw [same]
  · rename_i same
    dsimp only
    generalize splitBlank false cs = parts at same ⊢
    subst same
    rfl

/-- What renders tokens is read as them. -/
lemma tokensFrom_of_renders {file : String} {before cs : List Char} {tokens : List SourceToken}
    (renders : Renders file before cs tokens) :
    tokensFrom file (Position.first.after before) cs = .ok tokens := by
  induction renders with
  | nil ending => rw [tokensFrom_eq, splitBlank_ending ending]
  | @cons before s x cs t tokens separator spells closed more ih =>
    obtain ⟨c, x, rfl, starts⟩ := spells.starts
    rw [tokensFrom_eq, List.append_assoc, List.cons_append,
      splitBlank_append_of_separator separator starts]
    simp only [lexeme_append spells closed, List.take_left, List.drop_left]
    rw [Position.after_append, Position.after_append] at ih
    rw [ih, ← Position.after_append, inFile_after]

/-- What is read as tokens renders them. -/
lemma renders_of_tokensFrom {file : String} {before cs : List Char} {tokens : List SourceToken}
    (read : tokensFrom file (Position.first.after before) cs = .ok tokens) :
    Renders file before cs tokens := by
  induction h : cs.length using Nat.strongRecOn generalizing before cs tokens with
  | ind n ih =>
    subst h
    rw [tokensFrom_eq] at read
    rcases ending_or_starts cs with ending | ⟨s, c, rest, rfl, separator, starts⟩
    · rw [splitBlank_ending ending] at read
      cases read
      exact .nil ending
    · rw [splitBlank_append_of_separator separator starts] at read
      dsimp only at read
      split at read
      · cases read
      · rename_i t n taken
        obtain ⟨x, cs, rfl, rfl, spells, closed⟩ := spells_of_lexeme taken
        rw [List.take_left, List.drop_left, ← Position.after_append, ← Position.after_append,
          ← Position.after_append, inFile_after] at read
        split at read
        · cases read
        · rename_i more others
          cases read
          have shorter : cs.length < (s ++ c :: (x ++ cs)).length := by
            simp only [List.length_append, List.length_cons]
            omega
          rw [← List.append_assoc before] at others
          have := Renders.cons separator spells closed (ih _ shorter others rfl)
          rwa [List.append_assoc, List.cons_append] at this

/-- **The tokens of a text are those of which it is a sequence**, each at its place, and there are
none if it is no such sequence. -/
theorem tokens_eq_ok_iff_renders (file text : String) (ts : List SourceToken) :
    tokens file text = .ok ts ↔ Renders file [] text.toList ts :=
  ⟨fun read => renders_of_tokensFrom read, fun renders => tokensFrom_of_renders renders⟩

end StackAsm.Source
