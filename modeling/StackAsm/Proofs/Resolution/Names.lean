import StackAsm.Proofs.Locations
import StackAsm.Proofs.Resolution.Parts

set_option autoImplicit false

/-!
# What label names matter for

A name ties references to the address of a definition and does nothing else. So names may be
exchanged for others as long as different ones stay different: the program is the same, and an error
quotes the new name. And definitions matter through the addresses they give to the names that are
referred to, so unused ones may go and neighbours may change places.

**Proof sketch.** Looking up names is all that resolution does with them, and an injective renaming
commutes with that (`lookup?_rename`), so it commutes with both walks. For the second part the
definitions are read as a list of bindings, each a name with the number of addresses before it. What
a reference becomes can be said by membership in this list (`becomes_refer_iff`), so it is the same
for every list of tokens with the same occupying tokens and a part of the bindings, in any order.

## Main definitions

* `StackAsm.SourceToken.rename`, `StackAsm.ResolveError.rename` — other names for the labels.
* `StackAsm.Resolution.names` — the names that tokens define or refer to.
* `StackAsm.Resolution.bindings` — the names defined, each with the number of addresses before it.
* `StackAsm.Resolution.withoutUnused` — tokens without definitions that no reference uses.
* `StackAsm.Resolution.Rearranged` — definitions removed or put in another order.

## Main results

* `StackAsm.Resolution.resolve_rename` — resolution under other names.
* `StackAsm.Resolution.resolve_of_bindings` — resolution depends on the bindings that are used.
* `StackAsm.Resolution.resolve_rename_and_rearranged` — both together.
-/

namespace StackAsm

/-! ## Other names -/

/-- A token with other names for labels. -/
def Token.rename (f : String → String) : Token → Token
  | define name => define (f name)
  | refer name => refer (f name)
  | instr i => instr i

/-- A token of a source with other names for labels, where it was. -/
def SourceToken.rename (f : String → String) (t : SourceToken) : SourceToken :=
  { t with token := t.token.rename f }

/-- A label with another name, for the same address and defined at the same place. -/
def Label.rename (f : String → String) (label : Label) : Label :=
  { label with name := f label.name }

/-- The same error about a label with another name, at the same locations. -/
def ResolveError.rename (f : String → String) : ResolveError → ResolveError
  | unknownLabel name l => unknownLabel (f name) l
  | duplicateLabel name l first => duplicateLabel (f name) l first
  | addressOverflow l => addressOverflow l

namespace Resolution

variable {f : String → String} {scope : Set String}

/-- The names that tokens define or refer to. -/
def names (tokens : List SourceToken) : Set String :=
  {name | name ∈ defined tokens ∨ name ∈ referenced tokens}

section Rename

variable (injective : scope.InjOn f)
include injective

/-- A renamed label is found under its new name. -/
lemma lookup?_rename {labels : List Label} (known : ∀ label ∈ labels, label.name ∈ scope)
    {name : String} (mem : name ∈ scope) :
    lookup? (labels.map (Label.rename f)) (f name) =
      (lookup? labels name).map (Label.rename f) := by
  induction labels with
  | nil => rfl
  | cons label labels ih =>
    obtain ⟨here, others⟩ := List.forall_mem_cons.1 known
    have same : (label.rename f).name = f name ↔ label.name = name := injective.eq_iff here mem
    rw [List.map_cons, lookup?_cons, lookup?_cons, ih others]
    simp only [same]
    split <;> rfl

/-- Labels are collected alike under other names. -/
lemma collect_rename {labels : List Label} (known : ∀ label ∈ labels, label.name ∈ scope)
    {tokens : List SourceToken} (defines : ∀ name ∈ defined tokens, name ∈ scope)
    (address : Address) :
    collect (labels.map (Label.rename f)) address (tokens.map (SourceToken.rename f)) =
      ((collect labels address tokens).mapError (ResolveError.rename f)).map
        (List.map (Label.rename f)) := by
  induction tokens generalizing labels address with
  | nil => rfl
  | cons t tokens ih =>
    rcases t with ⟨name | name | i, l⟩
    · obtain ⟨here, others⟩ := List.forall_mem_cons.1 defines
      simp only [List.map_cons, SourceToken.rename, Token.rename, collect,
        lookup?_rename injective known here]
      cases lookup? labels name with
      | some first => rfl
      | none =>
        have known' : ∀ label ∈ ⟨name, address, l⟩ :: labels, label.name ∈ scope :=
          List.forall_mem_cons.2 ⟨here, known⟩
        exact ih known' others address
    all_goals
      simp only [List.map_cons, SourceToken.rename, Token.rename, collect]
      cases Word.ofInt? (address.toInt + 1) with
      | some next => exact ih known defines next
      | none => rfl

/-- Instructions are formed alike under other names. -/
lemma code_rename {table : List Label} (known : ∀ label ∈ table, label.name ∈ scope)
    {tokens : List SourceToken} (refers : ∀ name ∈ referenced tokens, name ∈ scope) :
    code (table.map (Label.rename f)) (tokens.map (SourceToken.rename f)) =
      (code table tokens).mapError (ResolveError.rename f) := by
  induction tokens with
  | nil => rfl
  | cons t tokens ih =>
    rcases t with ⟨name | name | i, l⟩
    · exact ih refers
    · obtain ⟨here, others⟩ := List.forall_mem_cons.1 refers
      simp only [List.map_cons, SourceToken.rename, Token.rename, code,
        lookup?_rename injective known here]
      cases lookup? table name with
      | none => rfl
      | some label =>
        simp only [Option.map_some, ih others]
        cases code table tokens <;> rfl
    · simp only [List.map_cons, SourceToken.rename, Token.rename, code, ih refers]
      cases code table tokens <;> rfl

end Rename

/-- The labels behind the first walk are the ones before it and those that the tokens define. -/
lemma name_mem_of_collect {labels table : List Label} {address : Address}
    {tokens : List SourceToken} (known : ∀ label ∈ labels, label.name ∈ scope)
    (defines : ∀ name ∈ defined tokens, name ∈ scope)
    (h : collect labels address tokens = .ok table) : ∀ label ∈ table, label.name ∈ scope := by
  induction tokens generalizing labels address with
  | nil =>
    obtain rfl : labels = table := by simpa [collect] using h
    exact known
  | cons t tokens ih =>
    rcases define_or_occupies t with ⟨name, l, rfl⟩ | occupies
    · rw [defined_define, List.forall_mem_cons] at defines
      rw [collect] at h
      split at h
      · cases h
      · exact ih (List.forall_mem_cons.2 ⟨defines.1, known⟩) defines.2 h
    · rw [defined_cons_of_occupies occupies] at defines
      rw [collect_cons_of_occupies occupies] at h
      split at h
      · exact ih known defines h
      · cases h

/-- **Tokens with other names resolve alike**: to the same program, or with the same error about the
new name. -/
theorem resolve_rename {tokens : List SourceToken} (injective : (names tokens).InjOn f)
    (start : Address) :
    resolve (tokens.map (SourceToken.rename f)) start =
      (resolve tokens start).mapError (ResolveError.rename f) := by
  have none : ∀ label ∈ ([] : List Label), label.name ∈ names tokens := by simp
  have defines : ∀ name ∈ defined tokens, name ∈ names tokens := fun name mem => .inl mem
  have walk := collect_rename injective none defines start
  rw [List.map_nil] at walk
  rw [resolve_eq_bind, resolve_eq_bind, labels, labels, walk]
  cases first : collect [] start tokens with
  | error e => rfl
  | ok table =>
    have known := name_mem_of_collect none defines first
    change (code (table.map _) _).map _ = ((code table tokens).map _).mapError _
    rw [code_rename injective known fun name mem => .inr mem]
    cases code table tokens <;> rfl

/-! ## Bindings -/

/-- The names that tokens define, each with the number of tokens before its definition that take an
address, counted on from `n`. -/
def bindingsFrom (n : Nat) : List SourceToken → List (String × Nat)
  | [] => []
  | ⟨.define name, _⟩ :: tokens => (name, n) :: bindingsFrom n tokens
  | ⟨.refer _, _⟩ :: tokens | ⟨.instr _, _⟩ :: tokens => bindingsFrom (n + 1) tokens

/-- The names that tokens define, each with the number of tokens before its definition that take an
address. -/
def bindings (tokens : List SourceToken) : List (String × Nat) := bindingsFrom 0 tokens

/-- A token that takes an address moves the bindings behind it on by one. -/
lemma bindingsFrom_cons_of_occupies {t : SourceToken} (occupies : t.token.occupies) (n : Nat)
    (tokens : List SourceToken) : bindingsFrom n (t :: tokens) = bindingsFrom (n + 1) tokens := by
  rcases t with ⟨_ | _ | _, l⟩
  · cases occupies
  · rfl
  · rfl

/-- The bindings of tokens behind others are moved on by the addresses that these take. -/
lemma bindingsFrom_append (n : Nat) (ts us : List SourceToken) :
    bindingsFrom n (ts ++ us) =
      bindingsFrom n ts ++ bindingsFrom (n + (occupying ts).length) us := by
  induction ts generalizing n with
  | nil => rfl
  | cons t ts ih =>
    rcases define_or_occupies t with ⟨name, l, rfl⟩ | occupies
    · simp only [List.cons_append, bindingsFrom, ih, occupying_define]
    · rw [List.cons_append, bindingsFrom_cons_of_occupies occupies,
        bindingsFrom_cons_of_occupies occupies, ih, occupying_cons_of_occupies occupies,
        List.length_cons, Nat.add_right_comm, Nat.add_assoc n]

/-- The names of the bindings are those that the tokens define. -/
lemma map_fst_bindingsFrom (n : Nat) (tokens : List SourceToken) :
    (bindingsFrom n tokens).map Prod.fst = defined tokens := by
  induction tokens generalizing n with
  | nil => rfl
  | cons t tokens ih =>
    rcases define_or_occupies t with ⟨name, l, rfl⟩ | occupies
    · simp only [bindingsFrom, List.map_cons, ih, defined_define]
    · rw [bindingsFrom_cons_of_occupies occupies, defined_cons_of_occupies occupies, ih]

/-- Definitions that stand next to each other bind their names to the same place. -/
lemma bindingsFrom_of_definitions {ds : List SourceToken}
    (definitions : ∀ d ∈ ds, ¬ d.token.occupies) (n : Nat) :
    bindingsFrom n ds = (defined ds).map fun name => (name, n) := by
  induction ds with
  | nil => rfl
  | cons d ds ih =>
    obtain ⟨here, others⟩ := List.forall_mem_cons.1 definitions
    obtain ⟨name, l, rfl⟩ := (define_or_occupies d).resolve_right here
    rw [bindingsFrom, ih others, defined_define, List.map_cons]

/-- A binding says where a definition of its name stands. -/
lemma mem_bindingsFrom_iff {n m : Nat} {name : String} {tokens : List SourceToken} :
    (name, m) ∈ bindingsFrom n tokens ↔ ∃ before l after,
      tokens = before ++ ⟨.define name, l⟩ :: after ∧ m = n + (occupying before).length := by
  constructor
  · intro mem
    induction tokens generalizing n with
    | nil => cases mem
    | cons t tokens ih =>
      rcases define_or_occupies t with ⟨other, l, rfl⟩ | occupies
      · rw [bindingsFrom, List.mem_cons] at mem
        rcases mem with here | later
        · obtain ⟨rfl, rfl⟩ := Prod.mk.inj here
          exact ⟨[], l, tokens, rfl, rfl⟩
        · obtain ⟨before, l', after, rfl, place⟩ := ih later
          exact ⟨⟨.define other, l⟩ :: before, l', after, rfl, place⟩
      · rw [bindingsFrom_cons_of_occupies occupies] at mem
        obtain ⟨before, l, after, rfl, place⟩ := ih mem
        refine ⟨t :: before, l, after, rfl, ?_⟩
        rw [occupying_cons_of_occupies occupies, List.length_cons]
        omega
  · rintro ⟨before, l, after, rfl, rfl⟩
    rw [bindingsFrom_append, List.mem_append, bindingsFrom]
    exact .inr (List.mem_cons_self ..)

/-- **What a reference becomes is said by the bindings.** -/
theorem becomes_refer_iff {tokens : List SourceToken} {start : Address} {name : String}
    {i : Instruction} : Becomes tokens start (.refer name) i ↔
      ∃ n target, (name, n) ∈ bindings tokens ∧ target.toInt = start.toInt + n ∧
        i = .push target := by
  simp only [bindings, mem_bindingsFrom_iff, Nat.zero_add]
  constructor
  · rintro ⟨before, l, after, target, split, value, rfl⟩
    exact ⟨_, target, ⟨before, l, after, split, rfl⟩, value, rfl⟩
  · rintro ⟨n, target, ⟨before, l, after, split, rfl⟩, value, rfl⟩
    exact ⟨before, l, after, target, split, value, rfl⟩

/-- What a token becomes by some bindings it becomes by more of them. -/
lemma Becomes.of_bindings {ts us : List SourceToken} (some_of : bindings us ⊆ bindings ts)
    {start : Address} {t : Token} {i : Instruction} (becomes : Becomes us start t i) :
    Becomes ts start t i := by
  cases t with
  | define name => exact becomes
  | instr j => exact becomes
  | refer name =>
    obtain ⟨n, target, mem, value, push⟩ := becomes_refer_iff.1 becomes
    exact becomes_refer_iff.2 ⟨n, target, some_of mem, value, push⟩

section Bindings

variable {tokens us : List SourceToken} {start : Address} {p : Program}

/-- **Resolution depends on the bindings that are used.** If tokens resolve, so do others with the
same tokens that take an address and some of the bindings, in any order, among them those of the
names referred to, and the program is the same. -/
theorem resolve_of_bindings (h : resolve tokens start = .ok p)
    (same : occupying us = occupying tokens) (part : (bindings us).Subperm (bindings tokens))
    (used : ∀ name ∈ referenced us, name ∈ defined us) : resolve us start = .ok p := by
  obtain ⟨nodup, known, fits⟩ := (exists_resolve_iff tokens start).1 ⟨p, h⟩
  have nodup' : (defined us).Nodup := by
    obtain ⟨kept, order, sublist⟩ := part
    rw [← map_fst_bindingsFrom 0] at nodup ⊢
    exact (order.map Prod.fst).nodup_iff.1 (nodup.sublist (sublist.map Prod.fst))
  obtain ⟨q, other⟩ := (exists_resolve_iff us start).2 ⟨nodup', used, by rwa [same]⟩
  have instructions : p.instructions = q.instructions := by
    apply Array.toList_inj.1
    refine instructions_of_becomes h (same ▸ ?_)
    exact (forall₂_becomes_of_resolve other).imp fun t i becomes =>
      becomes.of_bindings part.subset
  have locations : p.locations = q.locations := by
    apply Array.toList_inj.1
    rw [locations_of_resolve h, locations_of_resolve other, same]
  have begins : p.start = q.start := by rw [start_of_resolve h, start_of_resolve other]
  rw [other]
  show Except.ok (Program.mk q.start q.instructions q.locations) = .ok p
  rw [← begins, ← instructions, ← locations]

end Bindings

/-! ## Fewer definitions, in another order -/

section Definitions

variable {tokens us : List SourceToken} {start : Address} {p : Program}

/-- The tokens that are left when every definition of a name that is never referred to is
removed. -/
def withoutUnused (tokens : List SourceToken) : List SourceToken :=
  tokens.filter fun t => t.token.defines?.all fun name => name ∈ referenced tokens

/-- One change of the definitions among tokens. -/
inductive Rearranged : List SourceToken → List SourceToken → Prop
  /-- Some definitions of names that are never referred to are removed. -/
  | removed {tokens : List SourceToken} {keep : SourceToken → Bool}
      (unused : ∀ t ∈ tokens, ¬ keep t →
        ∃ name l, t = ⟨.define name, l⟩ ∧ name ∉ referenced tokens) :
    Rearranged tokens (tokens.filter keep)
  /-- Definitions that stand directly next to each other are put in another order. -/
  | reordered {before ds es after : List SourceToken}
      (definitions : ∀ d ∈ ds, ¬ d.token.occupies) (order : ds.Perm es) :
    Rearranged (before ++ ds ++ after) (before ++ es ++ after)

/-- To remove all definitions of names that are not referred to is one change. -/
lemma rearranged_withoutUnused (tokens : List SourceToken) :
    Rearranged tokens (withoutUnused tokens) := by
  refine .removed fun t _ dropped => ?_
  rcases t with ⟨name | name | i, l⟩
  · exact ⟨name, l, rfl, by simpa [Token.defines?] using dropped⟩
  · exact absurd rfl dropped
  · exact absurd rfl dropped

/-- Without some definitions a part of the bindings is left. -/
lemma bindingsFrom_filter_sublist {keep : SourceToken → Bool}
    (keeps : ∀ t ∈ tokens, t.token.occupies → keep t) (n : Nat) :
    (bindingsFrom n (tokens.filter keep)).Sublist (bindingsFrom n tokens) := by
  induction tokens generalizing n with
  | nil => exact .slnil
  | cons t tokens ih =>
    obtain ⟨here, others⟩ := List.forall_mem_cons.1 keeps
    rcases define_or_occupies t with ⟨name, l, rfl⟩ | occupies
    · rw [List.filter_cons]
      split
      · exact (ih others n).cons_cons (name, n)
      · exact (ih others n).cons (name, n)
    · rw [List.filter_cons_of_pos (here occupies), bindingsFrom_cons_of_occupies occupies,
        bindingsFrom_cons_of_occupies occupies]
      exact ih others (n + 1)

/-- Definitions that stand next to each other take no address and refer to nothing. -/
lemma occupying_of_definitions {ds : List SourceToken}
    (definitions : ∀ d ∈ ds, ¬ d.token.occupies) : occupying ds = [] ∧ referenced ds = [] := by
  refine ⟨List.filter_eq_nil_iff.2 definitions, List.filterMap_eq_nil_iff.2 fun d mem => ?_⟩
  obtain ⟨name, l, rfl⟩ := (define_or_occupies d).resolve_right (definitions d mem)
  rfl

/-- **One change of the definitions** leaves the program as it was. -/
theorem resolve_of_rearranged (change : Rearranged tokens us) (h : resolve tokens start = .ok p) :
    resolve us start = .ok p := by
  have known := ((exists_resolve_iff tokens start).1 ⟨p, h⟩).2.1
  cases change with
  | @removed _ keep unused =>
    have keeps (t : SourceToken) (mem : t ∈ tokens) (other : t.token.occupies) : keep t := by
      by_contra dropped
      obtain ⟨name, l, rfl, -⟩ := unused t mem dropped
      cases other
    have same : occupying (tokens.filter keep) = occupying tokens := by
      rw [occupying, occupying, List.filter_filter]
      refine List.filter_congr fun t mem => ?_
      rw [Bool.and_eq_left_iff_imp]
      exact keeps t mem
    have part := (bindingsFrom_filter_sublist keeps 0).subperm
    refine resolve_of_bindings h same part fun name mem => ?_
    -- a reference that is left was there before, and so is the definition of its name
    have refers : name ∈ referenced tokens := (List.filter_sublist.filterMap _).subset mem
    obtain ⟨before, l, after, split⟩ := mem_defined_iff.1 (known name refers)
    have kept : keep ⟨.define name, l⟩ := by
      by_contra dropped
      obtain ⟨other, l', eq, no⟩ := unused _ (by simp [split]) dropped
      cases eq
      exact no refers
    rw [split, List.filter_append, List.filter_cons_of_pos kept]
    exact mem_defined_iff.2 ⟨_, l, _, rfl⟩
  | @reordered before ds es after definitions order =>
    have definitions' : ∀ d ∈ es, ¬ d.token.occupies := fun d mem =>
      definitions d (order.mem_iff.2 mem)
    obtain ⟨none, nothing⟩ := occupying_of_definitions definitions
    obtain ⟨none', nothing'⟩ := occupying_of_definitions definitions'
    have same : (defined es).Perm (defined ds) := (order.filterMap _).symm
    refine resolve_of_bindings h ?_ ?_ fun name mem => ?_
    · simp only [occupying_append, none, none']
    · simp only [bindings, bindingsFrom_append, occupying_append, none, none',
        bindingsFrom_of_definitions definitions, bindingsFrom_of_definitions definitions']
      exact (((same.map _).append_left _).append_right _).subperm
    · have refers : name ∈ referenced (before ++ ds ++ after) := by
        simpa only [referenced_append, nothing, nothing'] using mem
      have defines := known name refers
      simp only [defined_append, List.mem_append, same.mem_iff] at defines ⊢
      exact defines

/-- **Label names matter only through what they are bound to.** Under other names, different ones
for different ones, tokens resolve to the same program, or fail with the same error about the new
name, at the same locations. And if they resolve, the program stays the same when the definitions of
names that are never referred to are removed, all of them or some, and when definitions that stand
directly next to each other are put in another order, as often as one likes. -/
theorem resolve_rename_and_rearranged (tokens : List SourceToken) (start : Address) :
    (∀ f : String → String, Set.InjOn f (names tokens) →
      (∀ p, resolve (tokens.map (SourceToken.rename f)) start = .ok p ↔
        resolve tokens start = .ok p) ∧
      ∀ e, resolve tokens start = .error e →
        resolve (tokens.map (SourceToken.rename f)) start = .error (e.rename f)) ∧
    ∀ p, resolve tokens start = .ok p →
      resolve (withoutUnused tokens) start = .ok p ∧
      ∀ us, Relation.ReflTransGen Rearranged tokens us → resolve us start = .ok p := by
  constructor
  · intro f injective
    rw [resolve_rename injective start]
    refine ⟨fun p => ?_, fun e failed => ?_⟩
    · cases resolve tokens start with
      | error e => exact iff_of_false nofun nofun
      | ok q => exact Iff.rfl
    · rw [failed]
      rfl
  · intro p h
    refine ⟨resolve_of_rearranged (rearranged_withoutUnused tokens) h, fun us changes => ?_⟩
    induction changes with
    | refl => exact h
    | tail _ change ih => exact resolve_of_rearranged change ih

/-- Two labels for the first address and one without a reference: with the names of the two labels
exchanged, and with their definitions exchanged and the other one removed. Where a label is unknown,
so is the one that takes its name. -/
theorem resolve_rename_and_rearranged_exchanged :
    (∃ p, resolve [⟨.define "x", ⟨"f", 1, 1⟩⟩, ⟨.define "y", ⟨"f", 1, 4⟩⟩,
        ⟨.refer "y", ⟨"f", 1, 7⟩⟩, ⟨.define "z", ⟨"f", 2, 1⟩⟩,
        ⟨.refer "x", ⟨"f", 2, 4⟩⟩] 5 = .ok p ∧
      resolve [⟨.define "y", ⟨"f", 1, 1⟩⟩, ⟨.define "x", ⟨"f", 1, 4⟩⟩, ⟨.refer "x", ⟨"f", 1, 7⟩⟩,
        ⟨.define "z", ⟨"f", 2, 1⟩⟩, ⟨.refer "y", ⟨"f", 2, 4⟩⟩] 5 = .ok p ∧
      resolve [⟨.define "y", ⟨"f", 1, 4⟩⟩, ⟨.define "x", ⟨"f", 1, 1⟩⟩, ⟨.refer "y", ⟨"f", 1, 7⟩⟩,
        ⟨.refer "x", ⟨"f", 2, 4⟩⟩] 5 = .ok p) ∧
    resolve [⟨.refer "y", ⟨"f", 1, 1⟩⟩, ⟨.define "x", ⟨"f", 1, 3⟩⟩] 5 =
      .error (.unknownLabel "y" ⟨"f", 1, 1⟩) := by
  have exchange {scope : Set String} : scope.InjOn (Equiv.swap "x" "y") :=
    (Equiv.swap "x" "y").injective.injOn
  constructor
  · obtain ⟨others, changes⟩ := resolve_rename_and_rearranged
      [⟨.define "x", ⟨"f", 1, 1⟩⟩, ⟨.define "y", ⟨"f", 1, 4⟩⟩, ⟨.refer "y", ⟨"f", 1, 7⟩⟩,
        ⟨.define "z", ⟨"f", 2, 1⟩⟩, ⟨.refer "x", ⟨"f", 2, 4⟩⟩] 5
    have resolves : resolve [⟨.define "x", ⟨"f", 1, 1⟩⟩, ⟨.define "y", ⟨"f", 1, 4⟩⟩,
        ⟨.refer "y", ⟨"f", 1, 7⟩⟩, ⟨.define "z", ⟨"f", 2, 1⟩⟩, ⟨.refer "x", ⟨"f", 2, 4⟩⟩] 5 =
          .ok ⟨5, #[.push 5, .push 5], #[⟨"f", 1, 7⟩, ⟨"f", 2, 4⟩]⟩ := by decide
    refine ⟨_, resolves, ((others (Equiv.swap "x" "y") exchange).1 _).2 resolves, ?_⟩
    refine (changes _ resolves).2 _ (.tail (.tail .refl (rearranged_withoutUnused _)) ?_)
    exact @Rearranged.reordered [] [⟨.define "x", ⟨"f", 1, 1⟩⟩, ⟨.define "y", ⟨"f", 1, 4⟩⟩] _ _
      (by decide) (.swap ..)
  · exact ((resolve_rename_and_rearranged [⟨.refer "x", ⟨"f", 1, 1⟩⟩, ⟨.define "y", ⟨"f", 1, 3⟩⟩]
      5).1 (Equiv.swap "x" "y") exchange).2 (.unknownLabel "x" ⟨"f", 1, 1⟩) (by decide)

end Definitions

end Resolution

end StackAsm
