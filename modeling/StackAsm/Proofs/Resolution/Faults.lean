import StackAsm.Proofs.Resolution.Parts

set_option autoImplicit false

/-!
# The error that resolution reports

Tokens that do not resolve may have many faults. The first walk stops at the first token that
defines a label again or for which there is no address left, so its error is reported even behind
unknown references. The second walk, which meets the unknown references, begins only when there is
no such token, and stops at the first of them.

## Main definitions

* `StackAsm.Resolution.FirstDefinition` — where tokens define a label first.
* `StackAsm.Resolution.Fault` — what is wrong with a token in view of the tokens before it.
* `StackAsm.Resolution.FirstFault`, `StackAsm.Resolution.Sound` — the first token with a fault, and
  that there is none.
* `StackAsm.Resolution.FirstUnknown` — the first reference to a label that is defined nowhere.
* `StackAsm.Resolution.Walk` — how far the first walk is behind some tokens.

## Main results

* `StackAsm.Resolution.labels_eq_error_iff` — the error of the first walk.
* `StackAsm.Resolution.code_eq_error_iff` — the error of the second walk.
* `StackAsm.Resolution.resolve_eq_error_iff` — the error of a resolution.
-/

namespace StackAsm.Resolution

variable {tokens before after : List SourceToken} {t : SourceToken} {start address : Address}
  {table : List Label} {e : ResolveError} {name : String} {l : Location}

/-! ## Faults -/

/-- Tokens define a label for the first time at the location `l`. -/
def FirstDefinition (tokens : List SourceToken) (name : String) (l : Location) : Prop :=
  ∃ early late, tokens = early ++ ⟨.define name, l⟩ :: late ∧ name ∉ defined early

/-- What is wrong with a token in view of the tokens before it. -/
inductive Fault (start : Address) (before : List SourceToken) : SourceToken → ResolveError → Prop
  /-- It defines a label that one of them defines already; the first one that does is at `first`. -/
  | again {name : String} {l first : Location} (known : FirstDefinition before name first) :
    Fault start before ⟨.define name, l⟩ (.duplicateLabel name l first)
  /-- It takes an address, and they and it are too many for the addresses from the start on. -/
  | beyond {t : SourceToken} (occupies : t.token.occupies)
    (many : Int64.maxValue.toInt < start.toInt + (occupying (before ++ [t])).length) :
    Fault start before t (.addressOverflow t.location)

/-- No token has a fault. -/
def Sound (start : Address) (tokens : List SourceToken) : Prop :=
  ∀ before t after e, tokens = before ++ t :: after → ¬ Fault start before t e

/-- The first token that has a fault has the fault `e`. -/
def FirstFault (start : Address) (tokens : List SourceToken) (e : ResolveError) : Prop :=
  ∃ before t after, tokens = before ++ t :: after ∧ Sound start before ∧ Fault start before t e

/-- The first reference to a label that the tokens define nowhere leads to the error `e`. -/
def FirstUnknown (tokens : List SourceToken) (e : ResolveError) : Prop :=
  ∃ before name l after, tokens = before ++ ⟨.refer name, l⟩ :: after ∧
    (∀ other ∈ referenced before, other ∈ defined tokens) ∧ name ∉ defined tokens ∧
      e = .unknownLabel name l

/-! ### One token more -/

/-- A token among some tokens and one behind them is one of them or the last one. -/
lemma concat_eq_append_cons {before early late : List SourceToken} {t s : SourceToken}
    (split : before ++ [t] = early ++ s :: late) :
    early = before ∧ s = t ∨ ∃ rest, before = early ++ s :: rest := by
  rcases List.eq_nil_or_concat' late with rfl | ⟨rest, last, rfl⟩
  · obtain ⟨rfl, same⟩ := List.append_inj' split rfl
    exact .inl ⟨rfl, (List.singleton_inj.1 same).symm⟩
  · rw [← List.cons_append, ← List.append_assoc] at split
    exact .inr ⟨rest, (List.append_inj' split rfl).1⟩

/-- A token behind others is the first definition of a label if none of them is. -/
lemma firstDefinition_concat_iff : FirstDefinition (before ++ [t]) name l ↔
    FirstDefinition before name l ∨ name ∉ defined before ∧ t = ⟨.define name, l⟩ := by
  constructor
  · rintro ⟨early, late, split, isFirst⟩
    rcases concat_eq_append_cons split with ⟨rfl, rfl⟩ | ⟨rest, rfl⟩
    · exact .inr ⟨isFirst, rfl⟩
    · exact .inl ⟨early, rest, rfl, isFirst⟩
  · rintro (⟨early, late, rfl, isFirst⟩ | ⟨isFirst, rfl⟩)
    · exact ⟨early, late ++ [t], by simp, isFirst⟩
    · exact ⟨before, [], rfl, isFirst⟩

/-- A label that is defined is defined a first time. -/
lemma mem_defined_iff_firstDefinition :
    name ∈ defined tokens ↔ ∃ l, FirstDefinition tokens name l := by
  constructor
  · intro mem
    induction tokens using List.reverseRecOn with
    | nil => cases mem
    | append_singleton before t ih =>
      by_cases known : name ∈ defined before
      · obtain ⟨l, first⟩ := ih known
        exact ⟨l, firstDefinition_concat_iff.2 (.inl first)⟩
      · rw [defined_append, List.mem_append] at mem
        rcases define_or_occupies t with ⟨other, l, rfl⟩ | occupies
        · obtain rfl : name = other := by simpa using mem.resolve_left known
          exact ⟨l, firstDefinition_concat_iff.2 (.inr ⟨known, rfl⟩)⟩
        · rw [defined_cons_of_occupies occupies] at mem
          simp [known] at mem
  · rintro ⟨l, early, late, rfl, -⟩
    exact mem_defined_iff.2 ⟨early, l, late, rfl⟩

/-- Among no tokens none has a fault. -/
@[simp] lemma sound_nil : Sound start [] := by
  intro before t after e split
  simp at split

/-- Tokens have no fault exactly if the last one has none and those before it have none. -/
lemma sound_concat_iff :
    Sound start (before ++ [t]) ↔ Sound start before ∧ ∀ e, ¬ Fault start before t e := by
  constructor
  · intro sound
    refine ⟨fun early s late e split => ?_, fun e => sound before t [] e rfl⟩
    exact sound early s (late ++ [t]) e (by simp [split])
  · rintro ⟨sound, last⟩ early s late e split
    rcases concat_eq_append_cons split with ⟨rfl, rfl⟩ | ⟨rest, rfl⟩
    · exact last e
    · exact sound early s rest e rfl

/-- Among tokens with faults there is a first one. -/
lemma exists_firstFault (unsound : ¬ Sound start tokens) : ∃ e, FirstFault start tokens e := by
  induction tokens using List.reverseRecOn with
  | nil => exact absurd sound_nil unsound
  | append_singleton before t ih =>
    by_cases sound : Sound start before
    · rw [sound_concat_iff] at unsound
      push Not at unsound
      obtain ⟨e, fault⟩ := unsound sound
      exact ⟨e, before, t, [], rfl, sound, fault⟩
    · obtain ⟨e, early, s, late, rfl, sound, fault⟩ := ih sound
      exact ⟨e, early, s, late ++ [t], by simp, sound, fault⟩

/-! ## The first walk -/

/-- One more token that takes an address makes one more of them. -/
lemma length_occupying_concat (occupies : t.token.occupies) :
    (occupying (before ++ [t])).length = (occupying before).length + 1 := by
  rw [occupying_append, occupying_cons_of_occupies occupies, List.length_append]
  rfl

/-- The first walk has passed some tokens. It knows where their labels are defined first and which
address is next, and goes on with the tokens behind them. -/
structure Walk (start : Address) (passed : List SourceToken) (table : List Label)
    (address : Address) : Prop where
  /-- It goes on with the table and the address. -/
  goesOn (rest : List SourceToken) : labels (passed ++ rest) start = collect table address rest
  /-- The table has the labels defined, each with the place of its first definition. -/
  located (name : String) (l : Location) :
    (lookup? table name).map (·.location) = some l ↔ FirstDefinition passed name l
  /-- The address is behind the tokens that take one. -/
  reached : address.toInt = start.toInt + (occupying passed).length

namespace Walk

/-- At first no token is passed, the table is empty and the next address is the start. -/
protected lemma nil (start : Address) : Walk start [] [] start where
  goesOn rest := rfl
  located name l := by simp [FirstDefinition]
  reached := by simp

variable (walk : Walk start before table address)
include walk

/-- A name that the table does not have is defined by none of the tokens that are passed. -/
lemma not_mem_defined (new : lookup? table name = none) : name ∉ defined before := by
  rw [mem_defined_iff_firstDefinition]
  rintro ⟨l, first⟩
  have known := (walk.located name l).2 first
  rw [new] at known
  cases known

/-- The next address is no word exactly if the token there is one too many. -/
lemma next_eq_none_iff (occupies : t.token.occupies) :
    Word.ofInt? (address.toInt + 1) = none ↔
      Int64.maxValue.toInt < start.toInt + (occupying (before ++ [t])).length := by
  have reached := walk.reached
  rw [length_occupying_concat occupies, Int64.toInt_maxValue]
  rcases next_address_cases address with ⟨next, step, value⟩ | ⟨step, full⟩
  · have bound := (Word.inRange_iff.1 (Word.inRange_toInt next)).2
    refine iff_of_false (by simp [step]) ?_
    omega
  · refine iff_of_true step ?_
    omega

/-- At a token with a fault the walk ends. -/
lemma collect_of_fault (fault : Fault start before t e) (rest : List SourceToken) :
    collect table address (t :: rest) = .error e := by
  cases fault with
  | @again name l first known =>
    obtain ⟨label, found, rfl⟩ := Option.map_eq_some_iff.1 ((walk.located name first).2 known)
    simp only [collect, found]
  | beyond occupies many =>
    rw [collect_cons_of_occupies occupies, (walk.next_eq_none_iff occupies).2 many]

/-- It puts a label in the table that is not there yet. -/
lemma define (new : lookup? table name = none) (l : Location) :
    Walk start (before ++ [⟨.define name, l⟩]) (⟨name, address, l⟩ :: table) address where
  goesOn rest := by
    rw [List.append_assoc, walk.goesOn]
    simp only [List.cons_append, List.nil_append, collect, new]
  located other place := by
    rw [firstDefinition_concat_iff, ← walk.located, lookup?_cons]
    by_cases same : name = other
    · subst same
      simp [new, walk.not_mem_defined new]
    · simp [same]
  reached := by
    rw [walk.reached, occupying_append, occupying_define, occupying_nil, List.append_nil]

/-- It moves on to the next address. -/
lemma occupy (occupies : t.token.occupies) {next : Address}
    (step : Word.ofInt? (address.toInt + 1) = some next) :
    Walk start (before ++ [t]) table next where
  goesOn rest := by
    rw [List.append_assoc, walk.goesOn, List.cons_append, List.nil_append,
      collect_cons_of_occupies occupies, step]
  located name place := by
    have other : t ≠ ⟨.define name, place⟩ := by
      rintro rfl
      cases occupies
    rw [firstDefinition_concat_iff, walk.located, or_iff_left fun last => other last.2]
  reached := by
    have reached := walk.reached
    rw [Word.ofInt?_eq_some_iff.1 step, length_occupying_concat occupies]
    omega

/-- It passes a token without a fault. -/
lemma pass (sound : ∀ e, ¬ Fault start before t e) :
    ∃ table' address', Walk start (before ++ [t]) table' address' := by
  rcases define_or_occupies t with ⟨name, l, rfl⟩ | occupies
  · cases known : lookup? table name with
    | none => exact ⟨_, _, walk.define known l⟩
    | some label =>
      have first := (walk.located name label.location).1 (by rw [known]; rfl)
      exact absurd (.again first) (sound _)
  · cases step : Word.ofInt? (address.toInt + 1) with
    | some next => exact ⟨_, _, walk.occupy occupies step⟩
    | none =>
      have many := (walk.next_eq_none_iff occupies).1 step
      exact absurd (.beyond occupies many) (sound _)

end Walk

/-- The first walk passes tokens without faults. -/
lemma exists_walk (sound : Sound start tokens) :
    ∃ table address, Walk start tokens table address := by
  induction tokens using List.reverseRecOn with
  | nil => exact ⟨[], start, .nil start⟩
  | append_singleton before t ih =>
    obtain ⟨sound, last⟩ := sound_concat_iff.1 sound
    obtain ⟨table, address, walk⟩ := ih sound
    exact walk.pass last

/-- **The first walk reports the first fault.** -/
theorem labels_eq_error_iff : labels tokens start = .error e ↔ FirstFault start tokens e := by
  have reports {e : ResolveError} (fault : FirstFault start tokens e) :
      labels tokens start = .error e := by
    obtain ⟨before, t, after, rfl, sound, fault⟩ := fault
    obtain ⟨table, address, walk⟩ := exists_walk sound
    rw [walk.goesOn, walk.collect_of_fault fault]
  constructor
  · intro failed
    by_cases sound : Sound start tokens
    · obtain ⟨table, address, walk⟩ := exists_walk sound
      have passed := walk.goesOn []
      rw [List.append_nil, failed] at passed
      cases passed
    · obtain ⟨e', first⟩ := exists_firstFault sound
      cases failed.symm.trans (reports first)
      exact first
  · exact reports

/-- The first walk succeeds exactly if there is no fault. -/
lemma exists_labels_iff : (∃ table, labels tokens start = .ok table) ↔ Sound start tokens := by
  constructor
  · rintro ⟨table, passed⟩
    by_contra unsound
    obtain ⟨e, first⟩ := exists_firstFault unsound
    cases passed.symm.trans (labels_eq_error_iff.2 first)
  · intro sound
    obtain ⟨table, address, walk⟩ := exists_walk sound
    exact ⟨table, by simpa [collect] using walk.goesOn []⟩

/-! ## The second walk -/

/-- Among references of which not all have a property there is a first one that has it not. -/
lemma exists_first_refer {P : String → Prop} (some_not : ¬ ∀ name ∈ referenced tokens, P name) :
    ∃ before name l after, tokens = before ++ ⟨.refer name, l⟩ :: after ∧
      (∀ other ∈ referenced before, P other) ∧ ¬ P name := by
  induction tokens with
  | nil => exact absurd (by simp) some_not
  | cons t tokens ih =>
    rcases t with ⟨name | name | i, place⟩
    · obtain ⟨before, other, l, after, rfl, known, unknown⟩ := ih some_not
      exact ⟨⟨.define name, place⟩ :: before, other, l, after, rfl, known, unknown⟩
    · rw [referenced_refer, List.forall_mem_cons] at some_not
      by_cases here : P name
      · obtain ⟨before, other, l, after, rfl, known, unknown⟩ := ih fun all => some_not ⟨here, all⟩
        refine ⟨⟨.refer name, place⟩ :: before, other, l, after, rfl, ?_, unknown⟩
        exact List.forall_mem_cons.2 ⟨here, known⟩
      · exact ⟨[], name, place, tokens, rfl, by simp, here⟩
    · obtain ⟨before, other, l, after, rfl, known, unknown⟩ := ih some_not
      exact ⟨⟨.instr i, place⟩ :: before, other, l, after, rfl, known, unknown⟩

/-- The second walk comes past references to names in its table. -/
lemma code_append_of_known (known : ∀ name ∈ referenced before, (lookup? table name).isSome)
    (failed : code table after = .error e) : code table (before ++ after) = .error e := by
  induction before with
  | nil => exact failed
  | cons t before ih =>
    rcases t with ⟨name | name | i, l⟩
    · exact ih known
    · rw [referenced_refer, List.forall_mem_cons] at known
      obtain ⟨label, found⟩ := Option.isSome_iff_exists.1 known.1
      simp only [List.cons_append, code, found, ih known.2, bind, Except.bind]
    · simp only [List.cons_append, code, ih known, bind, Except.bind]

/-- **The second walk reports the first reference to a name that is not in its table.** -/
theorem code_eq_error_iff : code table tokens = .error e ↔
    ∃ before name l after, tokens = before ++ ⟨.refer name, l⟩ :: after ∧
      (∀ other ∈ referenced before, (lookup? table other).isSome) ∧
      ¬ (lookup? table name).isSome ∧ e = .unknownLabel name l := by
  have reports {before after : List SourceToken} {name : String} {l : Location}
      (split : tokens = before ++ ⟨.refer name, l⟩ :: after)
      (known : ∀ other ∈ referenced before, (lookup? table other).isSome)
      (unknown : ¬ (lookup? table name).isSome) :
      code table tokens = .error (.unknownLabel name l) := by
    rw [split]
    refine code_append_of_known known ?_
    simp only [code, Option.not_isSome_iff_eq_none.1 unknown]
  constructor
  · intro failed
    have some_not : ¬ ∀ name ∈ referenced tokens, (lookup? table name).isSome := by
      intro all
      obtain ⟨entries, passed⟩ := (code_eq_ok_iff table tokens).2 all
      cases failed.symm.trans passed
    obtain ⟨before, name, l, after, split, known, unknown⟩ := exists_first_refer some_not
    cases failed.symm.trans (reports split known unknown)
    exact ⟨before, name, l, after, split, known, unknown, rfl⟩
  · rintro ⟨before, name, l, after, split, known, unknown, rfl⟩
    exact reports split known unknown

/-! ## Both walks -/

/-- Resolution fails with the error of the first walk, or with that of the second one if the first
one succeeds. -/
lemma resolve_eq_error_iff_walks : resolve tokens start = .error e ↔
    labels tokens start = .error e ∨
      ∃ table, labels tokens start = .ok table ∧ code table tokens = .error e := by
  unfold resolve
  cases first : labels tokens start with
  | error e' => simp [bind, Except.bind]
  | ok table =>
    cases second : code table tokens with
    | error e' => simp [bind, Except.bind, second]
    | ok entries => simp [bind, Except.bind, pure, Except.pure, second]

/-- **Resolution reports the right error.** It fails exactly if a token has a fault or a reference
is unknown. If tokens have faults, the error is that of the first such token, whatever is referred
to before it: its name and location, and where this name is defined first, if it defines it again;
or its location, if no address is left for it. If no token has a fault, the error is the name and
the location of the first reference to a name that is defined nowhere.

**Proof sketch.** Without a fault among them the first walk passes all tokens before a token
(`exists_walk`), and at one with a fault it ends (`Walk.collect_of_fault`). If it passes all, its
table has the names that the tokens define, and the second walk reports the first reference to
another name. -/
theorem resolve_eq_error_iff (tokens : List SourceToken) (start : Address) (e : ResolveError) :
    resolve tokens start = .error e ↔
      FirstFault start tokens e ∨ Sound start tokens ∧ FirstUnknown tokens e := by
  rw [resolve_eq_error_iff_walks, labels_eq_error_iff, ← exists_labels_iff]
  refine or_congr_right ?_
  -- the table that the first walk leaves has exactly the names that the tokens define
  have second {table : List Label} (first : labels tokens start = .ok table) :
      code table tokens = .error e ↔ FirstUnknown tokens e := by
    simp only [code_eq_error_iff, FirstUnknown, isSome_lookup?_of_labels first]
  constructor
  · rintro ⟨table, first, failed⟩
    exact ⟨⟨table, first⟩, (second first).1 failed⟩
  · rintro ⟨⟨table, first⟩, unknown⟩
    exact ⟨table, first, (second first).2 unknown⟩

/-- An unknown reference in front of a label that is defined three times: the second definition is
reported, with the place of the first one. -/
example : resolve [⟨.refer "y", ⟨"f", 1, 1⟩⟩, ⟨.define "x", ⟨"f", 1, 4⟩⟩,
    ⟨.define "x", ⟨"f", 2, 1⟩⟩, ⟨.define "x", ⟨"f", 3, 1⟩⟩] 0 =
      .error (.duplicateLabel "x" ⟨"f", 2, 1⟩ ⟨"f", 1, 4⟩) := by
  decide

end StackAsm.Resolution
