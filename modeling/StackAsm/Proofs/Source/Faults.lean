import StackAsm.Proofs.Source.Grammar

set_option autoImplicit false

/-!
# The fault that reading reports

A text that is no sequence of tokens has a first place where no token begins. What stands before
this place is a sequence of tokens, and what is wrong is said by the text from there on: there are
six ways in which a text may fail to begin with a token, and each has its place, at the front of the
text, behind the mark or sign that begins it, or behind the name that should be closed.

## Main definitions

* `StackAsm.Source.Faulty` — what is wrong with a text that begins with no token, and where.
* `StackAsm.Source.RendersUpTo` — the texts of a sequence of tokens in front of another text.

## Main results

* `StackAsm.Source.lexeme_of_faulty`, `StackAsm.Source.faulty_of_lexeme` — the fault that is found
  where a token should begin.
* `StackAsm.Source.tokens_eq_error_iff_faulty` — the fault of a text.
-/

namespace StackAsm.Source

/-! ## Where a token should begin -/

/-- What is wrong with a text that does not begin with a token, and the number of characters before
the place where it is. -/
inductive Faulty : List Char → LexFault → Nat → Prop
  /-- The first character begins no token. -/
  | character {c : Char} {cs : List Char} (starts : Starts c) (mark : c ∉ [':', '@', '-'])
      (digit : ¬ c.isDigit) (letter : ¬ c.isAlpha) : Faulty (c :: cs) (.unexpectedCharacter c) 0
  /-- The word in front is no mnemonic. -/
  | command {word cs : List Char} (isWord : IsWord word) (longest : ∀ c ∈ cs.head?, ¬ c.isAlpha)
      (unknown : ∀ o : Opcode, o.mnemonic ≠ String.ofList word) :
    Faulty (word ++ cs) (.unexpectedCommand (String.ofList word)) 0
  /-- No digit follows a minus sign. -/
  | sign {cs : List Char} (none : ∀ c ∈ cs.head?, ¬ c.isDigit) : Faulty ('-' :: cs) .expectedDigit 1
  /-- The number in front is no word. -/
  | integer {negative : Bool} {digits cs : List Char} (numeral : IsNumeral digits)
      (longest : ∀ c ∈ cs.head?, ¬ c.isDigit)
      (outside : ¬ Word.InRange (Decimal.value negative digits)) :
    Faulty ((if negative then '-' :: digits else digits) ++ cs)
      (.integerOutOfRange (String.ofList (if negative then '-' :: digits else digits))) 0
  /-- No letter follows the mark of a label. -/
  | name {mark : Char} {cs : List Char} (isMark : mark ∈ [':', '@'])
      (none : ∀ c ∈ cs.head?, ¬ c.isAlpha) : Faulty (mark :: cs) .expectedLabelName 1
  /-- The name in a definition is not closed. -/
  | colon {name cs : List Char} (isWord : IsWord name) (longest : ∀ c ∈ cs.head?, ¬ c.isAlpha)
      (unclosed : cs.head? ≠ some ':') : Faulty (':' :: name ++ cs) .expectedColon (name.length + 1)

/-- A number is refused exactly if its value is out of range, and it is quoted with its sign. -/
lemma number_eq_error_iff {negative : Bool} {digits : List Char} {fault : LexFault} :
    number negative digits = .error fault ↔ ¬ Word.InRange (Decimal.value negative digits) ∧
      fault = .integerOutOfRange (String.ofList (if negative then '-' :: digits else digits)) := by
  rw [← Word.ofInt?_eq_none_iff, number]
  cases Word.ofInt? (Decimal.value negative digits) with
  | some n => simp
  | none => simp [eq_comm]

/-- A word is refused exactly if it is no mnemonic, and it is quoted. -/
lemma command_eq_error_iff {word : List Char} {fault : LexFault} :
    command word = .error fault ↔ (∀ o : Opcode, o.mnemonic ≠ String.ofList word) ∧
      fault = .unexpectedCommand (String.ofList word) := by
  have none_iff : Opcode.ofMnemonic? (String.ofList word) = none ↔
      ∀ o : Opcode, o.mnemonic ≠ String.ofList word := by
    simp [Opcode.ofMnemonic?, Opcode.mem_all]
  rw [← none_iff, command]
  cases Opcode.ofMnemonic? (String.ofList word) with
  | some o => simp
  | none => simp [eq_comm]

/-- Nothing is taken off a text whose first character is not to be taken. -/
lemma takeWhile_eq_nil_of_head? {p : Char → Bool} {cs : List Char}
    (none : ∀ c ∈ cs.head?, ¬ p c) : cs.takeWhile p = [] := by
  simpa using takeWhile_append_of_head? (List.forall_mem_nil _) none

/-- The character behind the front of a text is the first one of what follows. -/
lemma getElem?_append_length (front cs : List Char) :
    (front ++ cs)[front.length]? = cs.head? := by
  rw [List.getElem?_append_right (Nat.le_refl _), Nat.sub_self, List.head?_eq_getElem?]

/-- A text with a fault at its front does not begin with what separates tokens. -/
lemma Faulty.starts {cs : List Char} {fault : LexFault} {n : Nat} (faulty : Faulty cs fault n) :
    ∃ c rest, cs = c :: rest ∧ Starts c := by
  cases faulty with
  | @character c rest starts => exact ⟨c, rest, rfl, starts⟩
  | @command word rest isWord =>
    obtain ⟨c, more, rfl⟩ := List.exists_cons_of_ne_nil isWord.1
    exact ⟨c, more ++ rest, rfl, starts_of_mem (isWord.2 c (List.mem_cons_self ..)) (by simp)⟩
  | @sign rest => exact ⟨'-', rest, rfl, by decide⟩
  | @integer negative digits rest numeral =>
    cases negative with
    | true => exact ⟨'-', digits ++ rest, rfl, by decide⟩
    | false =>
      obtain ⟨c, more, rfl⟩ := List.exists_cons_of_ne_nil numeral.1
      exact ⟨c, more ++ rest, rfl, starts_of_mem (numeral.2 c (List.mem_cons_self ..)) (by simp)⟩
  | @name mark rest isMark =>
    rcases List.mem_pair.1 isMark with rfl | rfl
    · exact ⟨':', rest, rfl, by decide⟩
    · exact ⟨'@', rest, rfl, by decide⟩
  | @colon name rest => exact ⟨':', name ++ rest, rfl, by decide⟩

/-- **A fault is found where it stands.** -/
theorem lexeme_of_faulty {c : Char} {cs : List Char} {fault : LexFault} {n : Nat}
    (faulty : Faulty (c :: cs) fault n) : lexeme c cs = .error (fault, n) := by
  generalize text : c :: cs = whole at faulty
  cases faulty with
  | character starts mark digit letter =>
    obtain ⟨rfl, rfl⟩ := List.cons.inj text
    simp only [List.mem_cons, List.not_mem_nil, or_false, not_or] at mark
    simp [lexeme, mark, digit, letter]
  | @command word rest isWord longest unknown =>
    obtain ⟨d, letters, rfl⟩ := List.exists_cons_of_ne_nil isWord.1
    obtain ⟨rfl, rfl⟩ := List.cons.inj text
    obtain ⟨letter, all⟩ := List.forall_mem_cons.1 isWord.2
    have other {d : Char} (no : ¬ d.isAlpha) : c ≠ d := fun same => no (same ▸ letter)
    have wrong := command_eq_error_iff.2 ⟨unknown, rfl⟩
    simp [lexeme, takeWhile_append_of_head? all longest, other, letter,
      not_isDigit_of_isAlpha letter, wrong]
  | sign none =>
    obtain ⟨rfl, rfl⟩ := List.cons.inj text
    simp [lexeme, takeWhile_eq_nil_of_head? none]
  | @integer negative digits rest numeral longest outside =>
    have wrong := number_eq_error_iff.2 ⟨outside, rfl⟩
    cases negative with
    | true =>
      obtain ⟨rfl, rfl⟩ := List.cons.inj text
      simp [lexeme, takeWhile_append_of_head? numeral.2 longest, numeral.1, wrong]
    | false =>
      obtain ⟨d, digits, rfl⟩ := List.exists_cons_of_ne_nil numeral.1
      obtain ⟨rfl, rfl⟩ := List.cons.inj text
      obtain ⟨digit, all⟩ := List.forall_mem_cons.1 numeral.2
      have other {d : Char} (no : ¬ d.isDigit) : c ≠ d := fun same => no (same ▸ digit)
      simp [lexeme, takeWhile_append_of_head? all longest, other, digit, wrong]
  | name isMark none =>
    obtain ⟨rfl, rfl⟩ := List.cons.inj text
    have empty := takeWhile_eq_nil_of_head? none
    rcases List.mem_pair.1 isMark with rfl | rfl <;> simp [lexeme, empty]
  | @colon name rest isWord longest unclosed =>
    obtain ⟨rfl, rfl⟩ := List.cons.inj text
    simp [lexeme, takeWhile_append_of_head? isWord.2 longest, isWord.1, getElem?_append_length,
      unclosed]

/-- **What is found is a fault**, unless the text begins with what separates tokens. -/
theorem faulty_of_lexeme {c : Char} {cs : List Char} {fault : LexFault} {n : Nat}
    (starts : Starts c) (found : lexeme c cs = .error (fault, n)) : Faulty (c :: cs) fault n := by
  obtain ⟨word, behindWord, split, longest, letters, stops⟩ := exists_longest Char.isAlpha cs
  obtain ⟨digits, behindDigits, split', longest', all, stops'⟩ := exists_longest Char.isDigit cs
  simp only [lexeme, longest, longest'] at found
  split at found
  case isTrue mark =>
    subst mark
    split_ifs at found with empty close
    · cases found
      subst empty split
      exact .name (by simp) stops
    · cases found
      subst split
      rw [getElem?_append_length] at close
      exact .colon ⟨empty, letters⟩ stops close
  split at found
  case isTrue mark =>
    subst mark
    split_ifs at found with empty
    cases found
    subst empty split
    exact .name (by simp) stops
  split at found
  case isTrue mark =>
    subst mark
    split_ifs at found with empty
    · cases found
      subst empty split'
      exact .sign stops'
    · split at found <;> cases found
      rename_i wrong
      obtain ⟨outside, rfl⟩ := number_eq_error_iff.1 wrong
      subst split'
      exact @Faulty.integer true digits behindDigits ⟨empty, all⟩ stops' outside
  split at found
  case isTrue digit =>
    split at found <;> cases found
    rename_i wrong
    obtain ⟨outside, rfl⟩ := number_eq_error_iff.1 wrong
    subst split'
    have numeral : IsNumeral (c :: digits) := ⟨by simp, List.forall_mem_cons.2 ⟨digit, all⟩⟩
    exact @Faulty.integer false (c :: digits) behindDigits numeral stops' outside
  split_ifs at found with letter
  · split at found <;> cases found
    rename_i wrong
    obtain ⟨unknown, rfl⟩ := command_eq_error_iff.1 wrong
    subst split
    have isWord : IsWord (c :: word) := ⟨by simp, List.forall_mem_cons.2 ⟨letter, letters⟩⟩
    exact .command isWord stops unknown
  · cases found
    rename_i colon reference sign digit
    exact .character starts (by simp [*]) digit letter

/-- One thing is wrong with a text, at one place. -/
lemma Faulty.unique {cs : List Char} {fault fault' : LexFault} {n n' : Nat}
    (one : Faulty cs fault n) (other : Faulty cs fault' n') : fault = fault' ∧ n = n' := by
  obtain ⟨c, rest, rfl, -⟩ := one.starts
  have same := (lexeme_of_faulty one).symm.trans (lexeme_of_faulty other)
  simpa using same

/-! ## What stands before a fault -/

/-- A text in front of another one, `rest`, is a sequence of tokens: separators and texts of tokens
take turns, the text of each token ends where what follows, up to `rest` and in it, cannot belong to
it, and its location is counted from all that stands in front of it. -/
inductive RendersUpTo (file : String) (rest : List Char) :
    (before cs : List Char) → List SourceToken → Prop where
  /-- Without a token only a separator is left. -/
  | nil {before s : List Char} (separator : Separator s) : RendersUpTo file rest before s []
  /-- A token, and the separator in front of it. -/
  | cons {before s x cs : List Char} {t : Token} {tokens : List SourceToken}
      (separator : Separator s) (spells : Spells x t) (closed : Closed t (cs ++ rest))
      (more : RendersUpTo file rest (before ++ s ++ x) cs tokens) :
    RendersUpTo file rest before (s ++ x ++ cs) (⟨t, locate file (before ++ s)⟩ :: tokens)

/-- A token that ends in front of a text ends in front of the beginning of it. -/
lemma Closed.of_append {t : Token} {cs rest : List Char} (closed : Closed t (cs ++ rest)) :
    Closed t cs := by
  cases cs with
  | nil => rcases t with _ | _ | _ | _ <;> simp [Closed]
  | cons c cs => rcases t with _ | _ | _ | _ <;> exact closed

section Reading

variable {file : String} {before cs front rest : List Char} {ts : List SourceToken}
  {fault : LexFault} {n : Nat}

/-- On its own, too, what stands in front of a text is a sequence of tokens. -/
lemma RendersUpTo.renders (renders : RendersUpTo file rest before front ts) :
    Renders file before front ts := by
  induction renders with
  | nil separator => exact .nil (.separator separator)
  | cons separator spells closed _ ih => exact .cons separator spells closed.of_append ih

/-- Behind tokens the reader meets a fault. -/
lemma tokensFrom_of_faulty (renders : RendersUpTo file rest before front ts)
    (faulty : Faulty rest fault n) :
    tokensFrom file (Position.first.after before) (front ++ rest) =
      .error ⟨fault, locate file (before ++ front ++ rest.take n)⟩ := by
  induction renders with
  | @nil before s separator =>
    obtain ⟨c, rest, rfl, starts⟩ := faulty.starts
    rw [tokensFrom_eq, splitBlank_append_of_separator separator starts]
    simp only [lexeme_of_faulty faulty]
    rw [← Position.after_append, ← Position.after_append, inFile_after, List.append_assoc]
  | @cons before s x cs t tokens separator spells closed more ih =>
    obtain ⟨c, x, rfl, starts⟩ := spells.starts
    rw [tokensFrom_eq, List.append_assoc, List.append_assoc, List.cons_append,
      splitBlank_append_of_separator separator starts]
    simp only [lexeme_append spells closed, List.take_left, List.drop_left]
    rw [Position.after_append, Position.after_append] at ih
    rw [ih]
    simp only [List.append_assoc]

/-- **The reader meets a fault behind tokens.**

**Proof sketch.** Induction on the length of the text. Behind the separator in front begins a token,
and the fault is that of the text behind it, or none begins there, and this is the fault. -/
theorem exists_faulty_of_tokensFrom {e : LexError}
    (read : tokensFrom file (Position.first.after before) cs = .error e) :
    ∃ front rest ts fault n, cs = front ++ rest ∧ RendersUpTo file rest before front ts ∧
      Faulty rest fault n ∧ e = ⟨fault, locate file (before ++ front ++ rest.take n)⟩ := by
  induction h : cs.length using Nat.strongRecOn generalizing before cs e with
  | ind n ih =>
    subst h
    rw [tokensFrom_eq] at read
    rcases ending_or_starts cs with ending | ⟨s, c, rest, rfl, separator, starts⟩
    · rw [splitBlank_ending ending] at read
      cases read
    · rw [splitBlank_append_of_separator separator starts] at read
      dsimp only at read
      split at read
      · rename_i fault n wrong
        cases read
        refine ⟨s, c :: rest, [], fault, n, rfl, .nil separator, faulty_of_lexeme starts wrong, ?_⟩
        rw [← Position.after_append, ← Position.after_append, inFile_after, List.append_assoc]
      · rename_i t n taken
        obtain ⟨x, cs, rfl, rfl, spells, closed⟩ := spells_of_lexeme taken
        rw [List.take_left, List.drop_left, ← Position.after_append, ← Position.after_append]
          at read
        split at read
        · rename_i e' others
          cases read
          have shorter : cs.length < (s ++ c :: (x ++ cs)).length := by
            simp only [List.length_append, List.length_cons]
            omega
          rw [← List.append_assoc before] at others
          obtain ⟨front, rest, ts, fault, n, rfl, renders, faulty, rfl⟩ := ih _ shorter others rfl
          refine ⟨s ++ c :: x ++ front, rest, _, fault, n, ?_,
            .cons separator spells closed renders, faulty, ?_⟩
          · simp only [List.append_assoc, List.cons_append]
          · simp only [List.append_assoc]
        · cases read

end Reading

/-- **The fault of a text is where no token begins.** Reading fails exactly if the text has two
parts, a first one that is a sequence of tokens, and of which the last token ends where the second
part begins, and a second one that begins neither with a blank nor with a comment nor with a token.
What is wrong is said by the second part alone: a character that begins no token, a word that is no
mnemonic or a number that is no word, at its front; a missing digit or a missing name behind the
sign or the mark in front; a missing colon behind the name. The location of the fault counts the
lines and columns up to this place, be it at the end of the text or of a line.

**Proof sketch.** In both directions along the tokens of the first part (`tokensFrom_of_faulty`,
`exists_faulty_of_tokensFrom`); at the second part reading stops with its fault
(`lexeme_of_faulty`, `faulty_of_lexeme`). -/
theorem tokens_eq_error_iff_faulty (file text : String) (e : LexError) :
    tokens file text = .error e ↔
      ∃ front rest ts fault n, text.toList = front ++ rest ∧
        tokens file (String.ofList front) = .ok ts ∧ RendersUpTo file rest [] front ts ∧
        (∃ c ∈ rest.head?, Starts c) ∧ Faulty rest fault n ∧
        (∀ fault' n', Faulty rest fault' n' → fault' = fault ∧ n' = n) ∧
        e = ⟨fault, locate file (front ++ rest.take n)⟩ := by
  constructor
  · intro read
    have read' : tokensFrom file (Position.first.after []) text.toList = .error e := read
    obtain ⟨front, rest, ts, fault, n, split, renders, faulty, place⟩ :=
      exists_faulty_of_tokensFrom read'
    refine ⟨front, rest, ts, fault, n, split, ?_, renders, ?_, faulty, ?_, place⟩
    · rw [tokens, String.toList_ofList]
      exact tokensFrom_of_renders renders.renders
    · obtain ⟨c, more, rfl, starts⟩ := faulty.starts
      exact ⟨c, rfl, starts⟩
    · exact fun fault' n' other => other.unique faulty
  · rintro ⟨front, rest, ts, fault, n, split, -, renders, -, faulty, -, rfl⟩
    rw [tokens, split]
    exact tokensFrom_of_faulty renders faulty

end StackAsm.Source
