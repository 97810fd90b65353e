import StackAsm.Proofs.Source.Grammar

set_option autoImplicit false

/-!
# Texts that do not end within a line

A line feed ends every blank, every comment and every token, and a fault is found before it or at
it. So what is read of a text up to the end of a line does not depend on what follows: neither the
tokens nor the first fault.

## Main definitions

* `StackAsm.Source.EndsLine` — a text that is empty or ends with a line feed.

## Main results

* `StackAsm.Source.Renders.separator_append` — a separator in front of a sequence of tokens.
* `StackAsm.Source.lexeme_append_of_endsLine` — the first token, or the fault there, is found before
  the end of the line.
* `StackAsm.Source.tokensFrom_append` — two texts are read one behind the other.
-/

namespace StackAsm.Source

/-- The text does not end within a line. -/
def EndsLine (cs : List Char) : Prop := ∀ c ∈ cs.getLast?, c = '\n'

/-- The last part of a text that does not end within a line does not, either. -/
lemma EndsLine.behind {front cs : List Char} (ends : EndsLine (front ++ cs)) : EndsLine cs := by
  cases cs with
  | nil => simp [EndsLine]
  | cons c cs => rwa [EndsLine, List.getLast?_append_of_ne_nil _ (List.cons_ne_nil c cs)] at ends

/-- A text with a line feed behind it does not end within a line. -/
lemma endsLine_concat (cs : List Char) : EndsLine (cs ++ ['\n']) := by
  simp [EndsLine]

/-- A text that is not empty and does not end within a line has a line feed. -/
lemma lineFeed_mem_of_endsLine {cs : List Char} (ends : EndsLine cs) (nonempty : cs ≠ []) :
    '\n' ∈ cs := by
  rw [← ends _ (List.getLast?_eq_some_getLast nonempty)]
  exact List.getLast_mem nonempty

/-- Two separators, one behind the other, are one. -/
lemma Separator.append {s r : List Char} (separator : Separator s) (more : Separator r) :
    Separator (s ++ r) := by
  induction separator with
  | nil => exact more
  | blank blank _ ih => exact .blank blank ih
  | comment line _ ih =>
    rw [List.append_assoc, List.cons_append]
    exact .comment line ih

/-- A comment that is not ended by a line feed ends within a line. -/
lemma Ending.separator_of_endsLine {s : List Char} (ending : Ending s) (ends : EndsLine s) :
    Separator s := by
  cases ending with
  | separator separator => exact separator
  | comment separator line =>
    have mem := lineFeed_mem_of_endsLine ends.behind (List.cons_ne_nil _ _)
    rw [List.mem_cons] at mem
    exact absurd mem (by simp [line])

/-- A separator may be put in front of a text. -/
theorem Renders.separator_append {file : String} {before s cs : List Char}
    {tokens : List SourceToken} (separator : Separator s)
    (renders : Renders file (before ++ s) cs tokens) : Renders file before (s ++ cs) tokens := by
  cases renders with
  | nil ending =>
    cases ending with
    | separator more => exact .nil (.separator (separator.append more))
    | comment more line =>
      rw [← List.append_assoc]
      exact .nil (.comment (separator.append more) line)
  | @cons _ r x cs t tokens more spells closed behind =>
    rw [List.append_assoc before] at behind ⊢
    have := Renders.cons (separator.append more) spells closed behind
    simpa using this

/-! ## Texts that do not end within a line -/

section Line

variable {cs : List Char} (ends : EndsLine cs) (nonempty : cs ≠ [])
include ends nonempty

/-- The characters of a class at the front of such a text end within it. -/
lemma takeWhile_append_of_endsLine {p : Char → Bool} (feed : ¬ p '\n') (ds : List Char) :
    (cs ++ ds).takeWhile p = cs.takeWhile p ∧ (cs.takeWhile p).length < cs.length := by
  have short : (cs.takeWhile p).length ≠ cs.length := by
    intro same
    have all := (List.takeWhile_prefix p).eq_of_length same
    exact feed (List.takeWhile_eq_self_iff.1 all _ (lineFeed_mem_of_endsLine ends nonempty))
  rw [List.takeWhile_append, if_neg short]
  exact ⟨rfl, Nat.lt_of_le_of_ne (List.takeWhile_prefix p).length_le short⟩

/-- **A token, or what is wrong with it, is found before the end of the line.** -/
theorem lexeme_append_of_endsLine (c : Char) (ds : List Char) :
    lexeme c (cs ++ ds) = lexeme c cs := by
  obtain ⟨letters, inside⟩ :=
    takeWhile_append_of_endsLine (p := Char.isAlpha) ends nonempty (by decide) ds
  obtain ⟨digits, -⟩ :=
    takeWhile_append_of_endsLine (p := Char.isDigit) ends nonempty (by decide) ds
  simp only [lexeme, letters, digits, List.getElem?_append_left inside]

end Line

/-- The place of a fault is within the text or behind it. -/
lemma le_length_of_lexeme {c : Char} {cs : List Char} {fault : LexFault} {n : Nat}
    (wrong : lexeme c cs = .error (fault, n)) : n ≤ (c :: cs).length := by
  have inside := (List.takeWhile_prefix Char.isAlpha (l := cs)).length_le
  rw [List.length_cons]
  simp only [lexeme] at wrong
  split at wrong
  case isTrue definition =>
    split_ifs at wrong
    all_goals
      cases wrong
      omega
  split at wrong
  case isTrue reference =>
    split_ifs at wrong
    cases wrong
    omega
  split at wrong
  case isTrue sign =>
    split_ifs at wrong
    · cases wrong
      omega
    · split at wrong <;> cases wrong
      omega
  split at wrong
  case isTrue digit =>
    split at wrong <;> cases wrong
    omega
  split at wrong
  case isTrue letter =>
    split at wrong <;> cases wrong
    omega
  cases wrong
  omega

/-! ## One text behind the other -/

/-- A separator in front of a text moves it, and nothing else. -/
lemma tokensFrom_separator_append (file : String) (p : Position) {s : List Char}
    (separator : Separator s) (cs : List Char) :
    tokensFrom file p (s ++ cs) = tokensFrom file (p.after s) cs := by
  rw [tokensFrom_eq, tokensFrom_eq file (p.after s), splitBlank_separator separator]
  obtain ⟨blank, rest⟩ := splitBlank false cs
  cases rest with
  | nil => rfl
  | cons c rest => simp only [Position.after_append]

/-- **A text behind one that does not end within a line** is read from where it stands, once the one
in front of it is read: the first fault of the text in front counts, and otherwise its tokens are
the first ones.

**Proof sketch.** Induction on the length of the text in front. If it has no token, it is a
separator. Otherwise its first token, or the fault there, is also the first one of both texts
together, and what is left of it behind this token does not end within a line either. -/
theorem tokensFrom_append (file : String) (p : Position) {cs : List Char} (ends : EndsLine cs)
    (ds : List Char) :
    tokensFrom file p (cs ++ ds) =
      (tokensFrom file p cs).bind fun ts =>
        (tokensFrom file (p.after cs) ds).map fun us => ts ++ us := by
  induction h : cs.length using Nat.strongRecOn generalizing p cs with
  | ind n ih =>
    subst h
    rcases ending_or_starts cs with ending | ⟨s, c, rest, rfl, separator, starts⟩
    · rw [tokensFrom_separator_append file p (ending.separator_of_endsLine ends),
        tokensFrom_eq file p cs, splitBlank_ending ending]
      cases tokensFrom file (p.after cs) ds <;> rfl
    · have behind : EndsLine (c :: rest) := ends.behind
      have nonempty : rest ≠ [] := by
        rintro rfl
        obtain rfl := behind c rfl
        exact absurd starts (by decide)
      have lineEnds : EndsLine rest := by
        rw [← List.singleton_append] at behind
        exact behind.behind
      rw [List.append_assoc, List.cons_append, tokensFrom_eq file p,
        tokensFrom_eq file p (s ++ c :: rest), splitBlank_append_of_separator separator starts,
        splitBlank_append_of_separator separator starts]
      dsimp only
      rw [lexeme_append_of_endsLine lineEnds nonempty]
      cases taken : lexeme c rest with
      | error fault =>
        obtain ⟨fault, n⟩ := fault
        dsimp only
        rw [← List.cons_append, List.take_append_of_le_length (le_length_of_lexeme taken)]
        rfl
      | ok r =>
        obtain ⟨token, n⟩ := r
        obtain ⟨x, cs, rfl, rfl, -⟩ := spells_of_lexeme taken
        have shorter : cs.length < (s ++ c :: (x ++ cs)).length := by
          simp only [List.length_append, List.length_cons]
          omega
        have arrives : ((p.after s).after (c :: x)).after cs = p.after (s ++ c :: (x ++ cs)) := by
          simp
        dsimp only
        rw [List.append_assoc, List.take_left, List.drop_left, List.take_left, List.drop_left,
          ih _ shorter _ lineEnds.behind rfl, arrives]
        cases tokensFrom file ((p.after s).after (c :: x)) cs with
        | error e => rfl
        | ok ts => cases tokensFrom file (p.after (s ++ c :: (x ++ cs))) ds <;> rfl

end StackAsm.Source
