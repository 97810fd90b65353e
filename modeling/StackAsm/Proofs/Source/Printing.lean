import StackAsm.Proofs.Diagnosis
import StackAsm.Proofs.Resolution.Parts
import StackAsm.Proofs.Source.Lines

set_option autoImplicit false

/-!
# Printing tokens and reading them again

Every token is printed as one of its texts: a number in its shortest form, every other token in its
only one. Where separators stand between the texts of tokens, a text is never taken further than the
token that it was printed from, so the tokens are found again whatever the separators are.

## Main definitions

* `StackAsm.Source.Parts` — what parts tokens, whichever they are: a separator that is not empty.
* `StackAsm.Token.WellNamed` — a token whose label, if it has one, can be read.
* `StackAsm.joinWith` — texts with separators of any kind between them.

## Main results

* `StackAsm.Token.WellNamed.spells` — a token is printed as one of its texts.
* `StackAsm.Source.exists_renders_joinWith` — printed tokens are a sequence of these tokens.
* `StackAsm.tokens_and_assemble_joinWith` — printed tokens are read, and printed instructions
  assembled, as they were.
-/

namespace StackAsm

/-! ## The text of a token -/

namespace Source

/-- A number is printed with one or more digits. -/
lemma isNumeral_repr (n : Nat) : IsNumeral n.repr.toList := by
  rw [Nat.toList_repr]
  exact ⟨Nat.toDigits_ne_nil, fun c mem => Nat.isDigit_of_mem_toDigits (by decide) (by decide) mem⟩

/-- A number is printed as one of its texts, in particular the least word, whose absolute value is
no word. -/
lemma spells_text (n : Word) : Spells n.text.toList (.instr (.push n)) := by
  have magnitude := Decimal.value_text n.toInt.natAbs
  unfold Word.text Decimal.text
  split
  · have text : ("-" ++ n.toInt.natAbs.repr).toList = '-' :: n.toInt.natAbs.repr.toList := by simp
    rw [text]
    refine .negative (isNumeral_repr _) ?_
    have value : Decimal.value true n.toInt.natAbs.repr.toList = -Decimal.value false _ := rfl
    rw [value, magnitude]
    omega
  · refine .unsigned (isNumeral_repr _) ?_
    rw [magnitude]
    omega

end Source

namespace Token

/-- The label of a token, if it has one, is one or more letters. -/
def WellNamed : Token → Prop
  | define name | refer name => Source.IsWord name.toList
  | instr _ => True

/-- **A token is printed as one of its texts.** -/
theorem WellNamed.spells {t : Token} (wellNamed : t.WellNamed) : Source.Spells t.text.toList t := by
  match t with
  | define name =>
    have := Source.Spells.define wellNamed
    rw [String.ofList_toList] at this
    simpa [text] using this
  | refer name =>
    have := Source.Spells.refer wellNamed
    rw [String.ofList_toList] at this
    simpa [text] using this
  | instr (.push n) => exact Source.spells_text n
  | instr (.op o) => exact .op o

end Token

/-! ## Texts with separators between them -/

/-- Texts one behind the other, with `separator k` behind the one at the place `k`, unless it is the
last one. -/
def joinWith (separator : Nat → String) : List String → String
  | [] => ""
  | [text] => text
  | text :: next :: more =>
    text ++ (separator 0 ++ joinWith (fun k => separator (k + 1)) (next :: more))

namespace Source

/-- One or more blanks and comments, each of which ends with its line. -/
def Parts (s : List Char) : Prop := Separator s ∧ s ≠ []

/-- No token goes on into what parts tokens. -/
lemma Parts.closed {s : List Char} (parts : Parts s) (t : Token) (cs : List Char) :
    Closed t (s ++ cs) := by
  obtain ⟨c, s, rfl⟩ := List.exists_cons_of_ne_nil parts.2
  have begins : c ∈ [' ', '\t', '\r', '\n', '#'] := by
    cases parts.1 with
    | blank blank more => exact List.mem_append_left ['#'] blank
    | comment line more => simp
  have others : ∀ c ∈ [' ', '\t', '\r', '\n', '#'], ¬ c.isAlpha ∧ ¬ c.isDigit := by simp
  obtain ⟨letter, digit⟩ := others c begins
  rcases t with _ | _ | _ | _ <;> simp [Closed, letter, digit]

variable {separator : Nat → String}

/-- **Printed tokens are a sequence of these tokens**, wherever they stand and whatever parts
them. -/
theorem exists_renders_joinWith (file : String) {tokens : List Token}
    (wellNamed : ∀ t ∈ tokens, t.WellNamed) (parts : ∀ k, Parts (separator k).toList)
    (before : List Char) :
    ∃ ts, Renders file before (joinWith separator (tokens.map Token.text)).toList ts ∧
      ts.map (·.token) = tokens := by
  induction tokens generalizing separator before with
  | nil => exact ⟨[], .nil (.separator .nil), rfl⟩
  | cons t tokens ih =>
    rw [List.forall_mem_cons] at wellNamed
    have spells := wellNamed.1.spells
    cases tokens with
    | nil =>
      have last : Renders file (before ++ [] ++ t.text.toList) [] [] := .nil (.separator .nil)
      have closed : Closed t [] := by rcases t with _ | _ | _ | _ <;> simp [Closed]
      refine ⟨[⟨t, locate file (before ++ [])⟩], ?_, rfl⟩
      have := Renders.cons .nil spells closed last
      rwa [List.append_nil] at this
    | cons next more =>
      obtain ⟨ts, renders, same⟩ := ih wellNamed.2 (fun k => parts (k + 1))
        (before ++ [] ++ t.text.toList ++ (separator 0).toList)
      refine ⟨⟨t, locate file (before ++ [])⟩ :: ts, ?_, congrArg (t :: ·) same⟩
      have behind := renders.separator_append (parts 0).1
      have := Renders.cons .nil spells ((parts 0).closed t _) behind
      rw [List.map_cons, List.map_cons, joinWith, String.toList_append, String.toList_append]
      exact this

end Source

/-! ## Instructions -/

/-- Instructions resolve to themselves if there are addresses for all of them. -/
lemma Resolution.exists_resolve_instructions {ts : List SourceToken} {is : List Instruction}
    (tokens : ts.map (·.token) = is.map Token.instr) (fits : is.length ≤ Int64.maxValue.toInt) :
    ∃ p, resolve ts 0 = .ok p ∧ p.start = 0 ∧ p.instructions.toList = is := by
  have all : ∀ t ∈ ts, ∃ i, t.token = .instr i := by
    intro t mem
    have mem' : t.token ∈ is.map Token.instr := tokens ▸ List.mem_map_of_mem mem
    obtain ⟨i, -, same⟩ := List.mem_map.1 mem'
    exact ⟨i, same.symm⟩
  have nothing (name? : Token → Option String) (none : ∀ i, name? (.instr i) = none) :
      ts.filterMap (fun t => name? t.token) = [] := by
    refine List.filterMap_eq_nil_iff.2 fun t mem => ?_
    obtain ⟨i, same⟩ := all t mem
    rw [same, none]
  have defines : defined ts = [] := nothing Token.defines? fun _ => rfl
  have refers : referenced ts = [] := nothing Token.refers? fun _ => rfl
  have occupies : occupying ts = ts := by
    refine List.filter_eq_self.2 fun t mem => ?_
    obtain ⟨i, same⟩ := all t mem
    rw [same]
    rfl
  have length : ts.length = is.length := by simpa using congrArg List.length tokens
  obtain ⟨p, resolved⟩ : ∃ p, resolve ts 0 = .ok p := by
    refine (exists_resolve_iff ts 0).2 ⟨?_, ?_, ?_⟩
    · simp [defines]
    · simp [refers]
    · rw [occupies, length]
      simpa using fits
  refine ⟨p, resolved, start_of_resolve resolved, instructions_of_becomes resolved ?_⟩
  rw [occupies]
  have same : List.Forall₂ (· = ·) (ts.map (·.token)) (is.map Token.instr) := by
    rw [tokens, List.forall₂_eq_eq_eq]
  rw [List.forall₂_map_left_iff, List.forall₂_map_right_iff] at same
  refine same.imp fun t i token => ?_
  rw [token]
  exact rfl

/-- **Printing tokens and reading them again is the identity.** Take tokens whose labels are words
of letters and any separators that are not empty, made of blanks and of comments with a line feed at
the end. The texts of the tokens with these separators between them are read as the same tokens.

So the instructions of any program, printed so, are assembled to the same instructions, from the
address 0 on. There must be addresses for all of them, as there are for those of any program in
memory. -/
theorem tokens_and_assemble_joinWith (file : String) (separator : Nat → String)
    (parts : ∀ k, Source.Parts (separator k).toList) :
    (∀ tokens : List Token, (∀ t ∈ tokens, t.WellNamed) →
      ∃ ts, Source.tokens file (joinWith separator (tokens.map Token.text)) = .ok ts ∧
        ts.map (·.token) = tokens) ∧
    ∀ p : Program, p.length ≤ Int64.maxValue.toInt →
      ∃ q, assemble file (joinWith separator (p.instructions.toList.map Instruction.text)) = .ok q ∧
        q.start = 0 ∧ q.instructions = p.instructions := by
  have reads (tokens : List Token) (wellNamed : ∀ t ∈ tokens, t.WellNamed) :
      ∃ ts, Source.tokens file (joinWith separator (tokens.map Token.text)) = .ok ts ∧
        ts.map (·.token) = tokens := by
    obtain ⟨ts, renders, same⟩ := Source.exists_renders_joinWith file wellNamed parts []
    exact ⟨ts, Source.tokensFrom_of_renders renders, same⟩
  refine ⟨reads, fun p fits => ?_⟩
  obtain ⟨ts, read, same⟩ :=
    reads (p.instructions.toList.map Token.instr) (by simp [Token.WellNamed])
  obtain ⟨q, resolved, start, instructions⟩ :=
    Resolution.exists_resolve_instructions same (by simpa [Program.length] using fits)
  rw [List.map_map] at read
  exact ⟨q, assemble_eq_ok_iff.2 ⟨ts, read, resolved⟩, start, Array.toList_inj.1 instructions⟩

/-- A definition, a reference and numbers next to each other, one of them the least word, with
comments between some of them. -/
theorem tokens_and_assemble_joinWith_comments :
    ∃ separator : Nat → String,
      joinWith separator
          ([.define "a", .instr (.push 7), .refer "a", .instr (.op .jmp)].map Token.text) =
        ":a: 7# é\n\t@a jmp" ∧
      (∃ ts, Source.tokens "f" ":a: 7# é\n\t@a jmp" = .ok ts ∧ ts.map (·.token) =
        [.define "a", .instr (.push 7), .refer "a", .instr (.op .jmp)]) ∧
      ∃ q, assemble "f" "-9223372036854775808 1# é\n\tsub" = .ok q ∧ q.start = 0 ∧
        q.instructions = #[.push Int64.minValue, .push 1, .op .sub] := by
  let separator (k : Nat) : String := if k % 2 = 0 then " " else "# é\n\t"
  have parts (k : Nat) : Source.Parts (separator k).toList := by
    have space : Source.Parts [' '] := ⟨.blank (by simp) .nil, by simp⟩
    have comment : Source.Parts ('#' :: [' ', 'é'] ++ '\n' :: ['\t']) :=
      ⟨.comment (by simp) (.blank (by simp) .nil), by simp⟩
    by_cases even : k % 2 = 0
    · rw [show separator k = " " from if_pos even]
      simpa using space
    · rw [show separator k = "# é\n\t" from if_neg even]
      simpa using comment
  obtain ⟨reads, assembles⟩ := tokens_and_assemble_joinWith "f" separator parts
  let p : Program := ⟨7, #[.push Int64.minValue, .push 1, .op .sub], #[]⟩
  refine ⟨separator, by decide, ?_, ?_⟩
  · exact reads [.define "a", .instr (.push 7), .refer "a", .instr (.op .jmp)]
      (by simp [Token.WellNamed, Source.IsWord])
  · exact assembles p (by decide)

end StackAsm
