import StackAsm.Proofs.Program

set_option autoImplicit false

/-!
# What resolution computes

Resolution walks over the tokens twice, once to collect the labels and once to replace the
references. Both walks count the same addresses, so a reference becomes the push of the address
that the first walk was at when it met the definition. This module says what each walk computes
and joins the two.

## Main definitions

* `StackAsm.Resolution.defined`, `StackAsm.Resolution.referenced` — the names that tokens define
  and refer to.
* `StackAsm.Resolution.occupying` — the tokens that take an address.
* `StackAsm.Resolution.Becomes` — the instruction that a token becomes, said without a table of
  labels.

## Main results

* `StackAsm.Resolution.collect_eq_ok_iff` — when the first walk succeeds.
* `StackAsm.Resolution.address_of_collect` — the address that it gives to a label.
* `StackAsm.Resolution.code_eq_ok_iff` — what the second walk yields.
* `StackAsm.Resolution.resolve_ok_iff_and_becomes` — when tokens resolve, and to what.
-/

namespace StackAsm

/-- The name that a token defines, if it is a definition. -/
def Token.defines? : Token → Option String
  | .define name => some name
  | .refer _ | .instr _ => none

/-- The name that a token refers to, if it is a reference. -/
def Token.refers? : Token → Option String
  | .refer name => some name
  | .define _ | .instr _ => none

namespace Resolution

/-! ## Reading tokens without resolving them -/

/-- The names that tokens define, in the order of the definitions. -/
def defined (tokens : List SourceToken) : List String := tokens.filterMap (·.token.defines?)

/-- The names that tokens refer to, in the order of the references. -/
def referenced (tokens : List SourceToken) : List String := tokens.filterMap (·.token.refers?)

/-- The tokens that take an address, in order. -/
def occupying (tokens : List SourceToken) : List SourceToken := tokens.filter (·.token.occupies)

section Equations

variable (name : String) (i : Instruction) (location : Location) (tokens : List SourceToken)

/-- No tokens define no names. -/
@[simp] lemma defined_nil : defined [] = [] := rfl

/-- A definition defines its name. -/
@[simp] lemma defined_define :
    defined (⟨.define name, location⟩ :: tokens) = name :: defined tokens := rfl

/-- No tokens refer to no names. -/
@[simp] lemma referenced_nil : referenced [] = [] := rfl

/-- A definition refers to no name. -/
@[simp] lemma referenced_define :
    referenced (⟨.define name, location⟩ :: tokens) = referenced tokens := rfl

/-- A reference refers to its name. -/
@[simp] lemma referenced_refer :
    referenced (⟨.refer name, location⟩ :: tokens) = name :: referenced tokens := rfl

/-- An instruction refers to no name. -/
@[simp] lemma referenced_instr :
    referenced (⟨.instr i, location⟩ :: tokens) = referenced tokens := rfl

/-- No tokens take no addresses. -/
@[simp] lemma occupying_nil : occupying [] = [] := rfl

/-- A definition takes no address. -/
@[simp] lemma occupying_define :
    occupying (⟨.define name, location⟩ :: tokens) = occupying tokens := rfl

end Equations

section Occupying

variable {t : SourceToken} (h : t.token.occupies)
include h

/-- A token that takes an address defines no name. -/
lemma defined_cons_of_occupies (tokens : List SourceToken) :
    defined (t :: tokens) = defined tokens := by
  rcases t with ⟨_ | _ | _, location⟩
  · cases h
  · rfl
  · rfl

/-- A token that takes an address is one of those that do. -/
lemma occupying_cons_of_occupies (tokens : List SourceToken) :
    occupying (t :: tokens) = t :: occupying tokens := List.filter_cons_of_pos h

/-- The first walk moves on by one address at every token that takes one. -/
lemma collect_cons_of_occupies (labels : List Label) (address : Address)
    (tokens : List SourceToken) :
    collect labels address (t :: tokens) =
      match Word.ofInt? (address.toInt + 1) with
      | some next => collect labels next tokens
      | none => .error (.addressOverflow t.location) := by
  rcases t with ⟨_ | _ | _, location⟩
  · cases h
  · rfl
  · rfl

end Occupying

/-- A token is a definition or takes an address. -/
lemma define_or_occupies (t : SourceToken) :
    (∃ name location, t = ⟨.define name, location⟩) ∨ t.token.occupies := by
  rcases t with ⟨name | name | i, location⟩
  · exact .inl ⟨name, location, rfl⟩
  · exact .inr rfl
  · exact .inr rfl

/-- A name is defined exactly if some token is its definition. -/
lemma mem_defined_iff {tokens : List SourceToken} {name : String} :
    name ∈ defined tokens ↔
      ∃ before location after, tokens = before ++ ⟨.define name, location⟩ :: after := by
  constructor
  · intro h
    obtain ⟨⟨token, location⟩, ht, hn⟩ := List.mem_filterMap.1 h
    obtain ⟨before, after, rfl⟩ := List.append_of_mem ht
    cases token with
    | define other =>
      obtain rfl : other = name := Option.some.inj hn
      exact ⟨before, location, after, rfl⟩
    | refer other => cases hn
    | instr i => cases hn
  · rintro ⟨before, location, after, rfl⟩
    exact List.mem_filterMap.2 ⟨⟨.define name, location⟩, by simp, rfl⟩

/-! ## Tables of labels -/

/-- No name is in an empty table. -/
@[simp] lemma lookup?_nil (name : String) : lookup? [] name = none := rfl

/-- The first label of a name is the one that is found. -/
lemma lookup?_cons (label : Label) (labels : List Label) (name : String) :
    lookup? (label :: labels) name =
      if label.name = name then some label else lookup? labels name := by
  by_cases h : label.name = name <;> simp [lookup?, h]

/-! ## The first walk -/

/-- The next address, as long as there is one. -/
lemma next_address_cases (address : Address) :
    (∃ next, Word.ofInt? (address.toInt + 1) = some next ∧ next.toInt = address.toInt + 1) ∨
      (Word.ofInt? (address.toInt + 1) = none ∧ (2 : Int) ^ 63 ≤ address.toInt + 1) := by
  cases h : Word.ofInt? (address.toInt + 1) with
  | some next => exact .inl ⟨next, rfl, Word.ofInt?_eq_some_iff.1 h⟩
  | none =>
    refine .inr ⟨rfl, ?_⟩
    have outside := Word.ofInt?_eq_none_iff.1 h
    have inside := Word.inRange_toInt address
    rw [Word.inRange_iff] at outside inside
    omega

/-- The first walk succeeds exactly if no name is defined twice, be it before the walk or in it,
and the addresses suffice.

**Proof sketch.** Induction on the tokens. A definition adds its name to the table, which is the
condition that the rest must not define it again; any other token moves the address on by one,
which fails exactly at the last address. -/
theorem collect_eq_ok_iff (labels : List Label) (address : Address) (tokens : List SourceToken) :
    (∃ table, collect labels address tokens = .ok table) ↔
      (defined tokens).Nodup ∧ (∀ name ∈ defined tokens, lookup? labels name = none) ∧
        address.toInt + (occupying tokens).length < 2 ^ 63 := by
  induction tokens generalizing labels address with
  | nil =>
    have inside := (Word.inRange_iff.1 (Word.inRange_toInt address)).2
    simpa [collect] using inside
  | cons t tokens ih =>
    rcases define_or_occupies t with ⟨name, location, rfl⟩ | occupies
    · simp only [collect, defined_define, occupying_define, List.nodup_cons, List.forall_mem_cons]
      cases known : lookup? labels name with
      | some first => simp
      | none =>
        simp only [ih, lookup?_cons, true_and]
        constructor
        · rintro ⟨nodup, new, fits⟩
          have notMem : name ∉ defined tokens := fun h => by simpa using new name h
          refine ⟨⟨notMem, nodup⟩, fun other h => ?_, fits⟩
          have ne : name ≠ other := fun e => notMem (e ▸ h)
          simpa [ne] using new other h
        · rintro ⟨⟨notMem, nodup⟩, new, fits⟩
          refine ⟨nodup, fun other h => ?_, fits⟩
          have ne : name ≠ other := fun e => notMem (e ▸ h)
          simpa [ne] using new other h
    · rw [collect_cons_of_occupies occupies, defined_cons_of_occupies occupies,
        occupying_cons_of_occupies occupies, List.length_cons, Int.natCast_succ]
      rcases next_address_cases address with ⟨next, step, value⟩ | ⟨step, full⟩
      · simp only [step, ih, value, Int.add_assoc, Int.add_comm 1]
      · simp only [step]
        refine ⟨by simp, fun h => absurd h.2.2 (by omega)⟩

/-- A label that is known before the first walk keeps its meaning. -/
lemma lookup?_of_collect_of_known {labels table : List Label} {address : Address}
    {tokens : List SourceToken} (h : collect labels address tokens = .ok table) {name : String}
    {label : Label} (known : lookup? labels name = some label) :
    lookup? table name = some label := by
  induction tokens generalizing labels address with
  | nil =>
    obtain rfl : labels = table := by simpa [collect] using h
    exact known
  | cons t tokens ih =>
    rcases define_or_occupies t with ⟨other, location, rfl⟩ | occupies
    · rw [collect] at h
      split at h
      · cases h
      · rename_i new
        refine ih h ?_
        have ne : other ≠ name := by
          rintro rfl
          rw [known] at new
          cases new
        rw [lookup?_cons, if_neg ne, known]
    · rw [collect_cons_of_occupies occupies] at h
      split at h
      · exact ih h known
      · cases h

/-- **The first walk gives each label its address**: the address at which the walk began, moved on
by the tokens before the definition that take an address.

**Proof sketch.** Induction on the tokens before the definition. At the definition itself the label
enters the table with the address reached, and the rest of the walk keeps it. -/
theorem address_of_collect {labels table : List Label} {address : Address} {name : String}
    {location : Location} {before after : List SourceToken}
    (h : collect labels address (before ++ ⟨.define name, location⟩ :: after) = .ok table) :
    ∃ label, lookup? table name = some label ∧
      label.address.toInt = address.toInt + (occupying before).length := by
  induction before generalizing labels address with
  | nil =>
    rw [List.nil_append, collect] at h
    split at h
    · cases h
    · refine ⟨⟨name, address, location⟩, lookup?_of_collect_of_known h ?_, by simp⟩
      rw [lookup?_cons, if_pos rfl]
  | cons t before ih =>
    rw [List.cons_append] at h
    rcases define_or_occupies t with ⟨other, place, rfl⟩ | occupies
    · rw [collect] at h
      split at h
      · cases h
      · exact ih h
    · rw [collect_cons_of_occupies occupies] at h
      split at h
      · rename_i next step
        obtain ⟨label, found, value⟩ := ih h
        have moved := Word.ofInt?_eq_some_iff.1 step
        refine ⟨label, found, ?_⟩
        rw [value, occupying_cons_of_occupies occupies, List.length_cons]
        omega
      · cases h

/-- A name that no token defines, and that was not known before, is no label after the walk. -/
lemma lookup?_eq_none_of_collect {labels table : List Label} {address : Address}
    {tokens : List SourceToken} (h : collect labels address tokens = .ok table) {name : String}
    (unknown : lookup? labels name = none) (undefined : name ∉ defined tokens) :
    lookup? table name = none := by
  induction tokens generalizing labels address with
  | nil =>
    obtain rfl : labels = table := by simpa [collect] using h
    exact unknown
  | cons t tokens ih =>
    rcases define_or_occupies t with ⟨other, location, rfl⟩ | occupies
    · rw [defined_define, List.mem_cons, not_or] at undefined
      rw [collect] at h
      split at h
      · cases h
      · refine ih h ?_ undefined.2
        rw [lookup?_cons, if_neg (Ne.symm undefined.1), unknown]
    · rw [defined_cons_of_occupies occupies] at undefined
      rw [collect_cons_of_occupies occupies] at h
      split at h
      · exact ih h unknown undefined
      · cases h

/-- After the first walk exactly the names defined are labels. -/
lemma isSome_lookup?_of_labels {table : List Label} {start : Address}
    {tokens : List SourceToken} (h : labels tokens start = .ok table) (name : String) :
    (lookup? table name).isSome ↔ name ∈ defined tokens := by
  constructor
  · intro found
    by_contra undefined
    rw [lookup?_eq_none_of_collect h (lookup?_nil name) undefined] at found
    cases found
  · intro mem
    obtain ⟨before, location, after, rfl⟩ := mem_defined_iff.1 mem
    obtain ⟨label, found, -⟩ := address_of_collect h
    rw [found]
    rfl

/-! ## The second walk -/

/-- The instruction that a token becomes by a table of labels. -/
def Translates (labels : List Label) : Token → Instruction → Prop
  | .define _, _ => False
  | .refer name, i => ∃ label, lookup? labels name = some label ∧ i = .push label.address
  | .instr j, i => i = j

/-- The second walk succeeds exactly if the table has all the names referred to. -/
theorem code_eq_ok_iff (labels : List Label) (tokens : List SourceToken) :
    (∃ entries, code labels tokens = .ok entries) ↔
      ∀ name ∈ referenced tokens, (lookup? labels name).isSome := by
  induction tokens with
  | nil => simp [code]
  | cons t tokens ih =>
    rcases t with ⟨name | name | i, location⟩
    · rw [code, ih, referenced_define]
    · rw [referenced_refer, List.forall_mem_cons, ← ih, code]
      cases lookup? labels name with
      | none => simp
      | some label => cases code labels tokens <;> simp [bind, Except.bind, pure, Except.pure]
    · rw [referenced_instr, ← ih, code]
      cases code labels tokens <;> simp [bind, Except.bind, pure, Except.pure]

/-- The second walk yields an instruction for each token that takes an address, in order, each with
the location of its token. -/
lemma forall₂_of_code {labels : List Label} {tokens : List SourceToken}
    {entries : List (Instruction × Location)} (h : code labels tokens = .ok entries) :
    List.Forall₂ (fun t e => Translates labels t.token e.1 ∧ e.2 = t.location) (occupying tokens)
      entries := by
  induction tokens generalizing entries with
  | nil =>
    obtain rfl : [] = entries := by simpa [code] using h
    exact .nil
  | cons t tokens ih =>
    rcases t with ⟨name | name | i, location⟩
    · exact ih h
    · rw [code] at h
      cases found : lookup? labels name with
      | none => simp [found] at h
      | some label =>
        cases rest : code labels tokens with
        | error e => simp [found, rest, bind, Except.bind] at h
        | ok more =>
          obtain rfl : (.push label.address, location) :: more = entries := by
            simpa [found, rest, bind, Except.bind, pure, Except.pure] using h
          exact .cons ⟨⟨label, found, rfl⟩, rfl⟩ (ih rest)
    · rw [code] at h
      cases rest : code labels tokens with
      | error e => simp [rest, bind, Except.bind] at h
      | ok more =>
        obtain rfl : (i, location) :: more = entries := by
          simpa [rest, bind, Except.bind, pure, Except.pure] using h
        exact .cons ⟨rfl, rfl⟩ (ih rest)

/-! ## Both walks together -/

/-- Tokens resolve to a program exactly if both walks succeed and the program has what the second
one yields. -/
lemma resolve_eq_ok_iff {tokens : List SourceToken} {start : Address} {p : Program} :
    resolve tokens start = .ok p ↔ ∃ table entries, labels tokens start = .ok table ∧
      code table tokens = .ok entries ∧ p = Program.ofList start entries := by
  unfold resolve
  cases first : labels tokens start with
  | error e => simp [bind, Except.bind]
  | ok table =>
    cases second : code table tokens with
    | error e => simp [bind, Except.bind, second]
    | ok entries => simp [bind, Except.bind, pure, Except.pure, second, eq_comm]

/-- The walks succeed under the conditions that can be read off the tokens. -/
lemma exists_resolve_iff (tokens : List SourceToken) (start : Address) :
    (∃ p, resolve tokens start = .ok p) ↔
      (defined tokens).Nodup ∧ (∀ name ∈ referenced tokens, name ∈ defined tokens) ∧
        start.toInt + (occupying tokens).length ≤ Int64.maxValue.toInt := by
  have first_iff : (∃ table, labels tokens start = .ok table) ↔ (defined tokens).Nodup ∧
      start.toInt + (occupying tokens).length ≤ Int64.maxValue.toInt := by
    have := collect_eq_ok_iff [] start tokens
    simp only [lookup?_nil, implies_true, true_and] at this
    rw [labels, this, Int64.toInt_maxValue, and_congr_right_iff]
    intro
    omega
  constructor
  · rintro ⟨p, h⟩
    obtain ⟨table, entries, first, second, -⟩ := resolve_eq_ok_iff.1 h
    obtain ⟨nodup, fits⟩ := first_iff.1 ⟨table, first⟩
    refine ⟨nodup, fun name mem => ?_, fits⟩
    exact (isSome_lookup?_of_labels first name).1
      ((code_eq_ok_iff table tokens).1 ⟨entries, second⟩ name mem)
  · rintro ⟨nodup, known, fits⟩
    obtain ⟨table, first⟩ := first_iff.2 ⟨nodup, fits⟩
    obtain ⟨entries, second⟩ := (code_eq_ok_iff table tokens).2 fun name mem =>
      (isSome_lookup?_of_labels first name).2 (known name mem)
    exact ⟨_, resolve_eq_ok_iff.2 ⟨table, entries, first, second, rfl⟩⟩

section Resolved

variable {tokens : List SourceToken} {start : Address} {p : Program}
  (h : resolve tokens start = .ok p)
include h

/-- The program starts where it is told to. -/
lemma start_of_resolve : p.start = start := by
  obtain ⟨table, entries, -, -, rfl⟩ := resolve_eq_ok_iff.1 h
  rfl

/-- The program has an instruction for each token that takes an address. -/
lemma length_of_resolve : p.length = (occupying tokens).length := by
  obtain ⟨table, entries, -, second, rfl⟩ := resolve_eq_ok_iff.1 h
  simp [Program.length, Program.ofList, (forall₂_of_code second).length_eq]

/-- What tokens resolve to has equally long tables and ends at a word. -/
lemma wellFormed_of_resolve : p.WellFormed where
  tables := by
    obtain ⟨table, entries, -, -, rfl⟩ := resolve_eq_ok_iff.1 h
    simp [Program.ofList]
  fits := by
    rw [start_of_resolve h, length_of_resolve h]
    exact ((exists_resolve_iff tokens start).1 ⟨p, h⟩).2.2

/-- The instructions come from the locations of the tokens that take an address. -/
lemma locations_of_resolve : p.locations.toList = (occupying tokens).map (·.location) := by
  obtain ⟨table, entries, -, second, rfl⟩ := resolve_eq_ok_iff.1 h
  have same : List.Forall₂ (· = ·) (entries.map Prod.snd)
      ((occupying tokens).map (·.location)) := by
    rw [List.forall₂_map_left_iff, List.forall₂_map_right_iff]
    exact ((forall₂_of_code second).imp fun t e both => both.2).flip
  rw [List.forall₂_eq_eq_eq] at same
  simpa [Program.ofList] using same

end Resolved

/-- The instruction that a token among `tokens` becomes when the first instruction is at `start`:
an instruction becomes itself, and a reference the push of the address that the tokens before the
definition of its label lead to. -/
def Becomes (tokens : List SourceToken) (start : Address) : Token → Instruction → Prop
  | .define _, _ => False
  | .refer name, i =>
    ∃ before location after target, tokens = before ++ ⟨.define name, location⟩ :: after ∧
      target.toInt = start.toInt + (occupying before).length ∧ i = .push target
  | .instr j, i => i = j

/-- What a token becomes by the table of the first walk is what it becomes by its place. -/
lemma becomes_of_translates {tokens : List SourceToken} {start : Address} {table : List Label}
    (h : labels tokens start = .ok table) {token : Token} {i : Instruction}
    (translates : Translates table token i) : Becomes tokens start token i := by
  cases token with
  | define name => exact translates
  | instr j => exact translates
  | refer name =>
    obtain ⟨label, found, rfl⟩ := translates
    have mem : name ∈ defined tokens := (isSome_lookup?_of_labels h name).1 (by rw [found]; rfl)
    obtain ⟨before, location, after, split⟩ := mem_defined_iff.1 mem
    rw [labels, split] at h
    obtain ⟨same, found', value⟩ := address_of_collect h
    obtain rfl : same = label := Option.some.inj (found' ▸ found)
    exact ⟨before, location, after, same.address, split, value, rfl⟩

/-- **Resolution is correct.** Tokens resolve exactly if no name is defined twice, every name
referred to is defined, before the reference or behind it, and the address behind the last
instruction is a word. Then the program starts where it is asked to and ends behind its last token,
and each token that takes an address becomes the instruction it stands for, at its own location.

**Proof sketch.** The first walk succeeds exactly under the first and the last condition
(`collect_eq_ok_iff`) and makes labels of exactly the names defined (`isSome_lookup?_of_labels`),
so the second walk succeeds exactly under the second one (`exists_resolve_iff`). What the second
walk yields for a reference is the address that the first one gave to the label
(`becomes_of_translates`). -/
theorem resolve_ok_iff_and_becomes (tokens : List SourceToken) (start : Address) :
    ((∃ p, resolve tokens start = .ok p) ↔
      (defined tokens).Nodup ∧ (∀ name ∈ referenced tokens, name ∈ defined tokens) ∧
        start.toInt + (occupying tokens).length ≤ Int64.maxValue.toInt) ∧
    ∀ p, resolve tokens start = .ok p →
      p.start = start ∧
      (∃ last, p.endAddress? = some last ∧
        last.toInt = start.toInt + (occupying tokens).length) ∧
      List.Forall₂ (fun t i => Becomes tokens start t.token i) (occupying tokens)
        p.instructions.toList ∧
      p.locations.toList = (occupying tokens).map (·.location) := by
  refine ⟨exists_resolve_iff tokens start, fun p h => ?_⟩
  refine ⟨start_of_resolve h, ?_, ?_, locations_of_resolve h⟩
  · have representable := Program.endAddress?_ne_none_iff.2 (wellFormed_of_resolve h).fits
    obtain ⟨last, ends⟩ := Option.ne_none_iff_exists'.1 representable
    refine ⟨last, ends, ?_⟩
    rw [Word.ofInt?_eq_some_iff.1 ends, start_of_resolve h, length_of_resolve h]
  · obtain ⟨table, entries, first, second, rfl⟩ := resolve_eq_ok_iff.1 h
    simp only [Program.ofList, List.forall₂_map_right_iff]
    exact (forall₂_of_code second).imp fun t e both => becomes_of_translates first both.1

/-- A forward and a backward reference to one label, resolved for the last addresses there are. -/
theorem resolve_ok_iff_and_becomes_last_addresses :
    ∃ p, resolve [⟨.refer "x", ⟨"f", 1, 1⟩⟩, ⟨.define "x", ⟨"f", 1, 4⟩⟩,
        ⟨.refer "x", ⟨"f", 2, 1⟩⟩] (Int64.maxValue - 2) = .ok p ∧
      p.start = Int64.maxValue - 2 ∧ p.locations.toList = [⟨"f", 1, 1⟩, ⟨"f", 2, 1⟩] := by
  obtain ⟨iff, meaning⟩ := resolve_ok_iff_and_becomes
    [⟨.refer "x", ⟨"f", 1, 1⟩⟩, ⟨.define "x", ⟨"f", 1, 4⟩⟩, ⟨.refer "x", ⟨"f", 2, 1⟩⟩]
    (Int64.maxValue - 2)
  obtain ⟨p, ok⟩ := iff.2 ⟨by decide, by decide, by decide⟩
  obtain ⟨start, -, -, locations⟩ := meaning p ok
  exact ⟨p, ok, start, locations⟩

end Resolution

end StackAsm
