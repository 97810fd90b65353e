import StackAsm.Proofs.Resolution

set_option autoImplicit false

/-!
# Resolution of parts

What a token becomes depends on the words before the definition of its label, and neither on where
these words stand in the source nor on what is behind them. So tokens can be resolved in parts, each
for the address behind the one before it, as long as no part refers to the labels of another one.

## Main results

* `StackAsm.Resolution.Becomes.unique` — a token becomes one instruction.
* `StackAsm.Resolution.forall₂_becomes_of_resolve`, `StackAsm.Resolution.exists_entry_of_resolve` —
  the instructions of a program, all of them and one of them.
* `StackAsm.Resolution.exists_resolve_congr` — locations decide nothing.
* `StackAsm.Resolution.resolve_append` — parts that share no label resolve one behind the other.
-/

namespace StackAsm.Resolution

variable {tokens ts us : List SourceToken} {start : Address} {p q : Program}

/-! ## Parts of a list of tokens -/

/-- The names that tokens define are those of their first part and those of their second. -/
lemma defined_append (ts us : List SourceToken) :
    defined (ts ++ us) = defined ts ++ defined us := List.filterMap_append

/-- The names that tokens refer to are those of their first part and those of their second. -/
lemma referenced_append (ts us : List SourceToken) :
    referenced (ts ++ us) = referenced ts ++ referenced us := List.filterMap_append

/-- The tokens that take an address are those of the first part and those of the second. -/
lemma occupying_append (ts us : List SourceToken) :
    occupying (ts ++ us) = occupying ts ++ occupying us := List.filter_append ..

/-- A label is defined at one place. -/
lemma before_unique (nodup : (defined tokens).Nodup) {name : String} {l l' : Location}
    {before after before' after' : List SourceToken}
    (split : tokens = before ++ ⟨.define name, l⟩ :: after)
    (split' : tokens = before' ++ ⟨.define name, l'⟩ :: after') : before = before' := by
  have absent {before after : List SourceToken} {l : Location}
      (split : tokens = before ++ ⟨.define name, l⟩ :: after) : name ∉ defined before := by
    intro mem
    rw [split, defined_append, defined_define] at nodup
    exact List.disjoint_of_nodup_append nodup mem (List.mem_cons_self ..)
  -- the first definition of the name ends both of the parts before it
  have isFirst {before after : List SourceToken} {l : Location}
      (split : tokens = before ++ ⟨.define name, l⟩ :: after) :
      before = tokens.takeWhile (fun t => t.token ≠ .define name) := by
    have others : ∀ t ∈ before, decide (t.token ≠ .define name) = true := by
      intro t mem
      refine decide_eq_true fun same => absent split ?_
      exact List.mem_filterMap.2 ⟨t, mem, by rw [same]; rfl⟩
    rw [split, List.takeWhile_append_of_pos others, List.takeWhile_cons_of_neg (by simp),
      List.append_nil]
  exact (isFirst split).trans (isFirst split').symm

/-! ## What a token becomes -/

/-- **A token becomes one instruction** if no name is defined twice. -/
theorem Becomes.unique (nodup : (defined tokens).Nodup) {t : Token} {i j : Instruction}
    (one : Becomes tokens start t i) (other : Becomes tokens start t j) : i = j := by
  cases t with
  | define name => cases one
  | instr k => exact Eq.trans one (Eq.symm other)
  | refer name =>
    obtain ⟨before, l, after, target, split, value, rfl⟩ := one
    obtain ⟨before', l', after', target', split', value', rfl⟩ := other
    obtain rfl := before_unique nodup split split'
    rw [Int64.toInt_inj.1 (value.trans value'.symm)]

/-- More tokens behind the others change nothing. -/
lemma Becomes.append_right {t : Token} {i : Instruction} (becomes : Becomes ts start t i)
    (us : List SourceToken) : Becomes (ts ++ us) start t i := by
  cases t with
  | define name => exact becomes
  | instr k => exact becomes
  | refer name =>
    obtain ⟨before, l, after, target, rfl, value, same⟩ := becomes
    exact ⟨before, l, after ++ us, target, by simp, value, same⟩

/-- With other tokens in front, the start is where these begin. -/
lemma Becomes.append_left {next : Address} {t : Token} {i : Instruction}
    (becomes : Becomes us next t i) (follows : next.toInt = start.toInt + (occupying ts).length) :
    Becomes (ts ++ us) start t i := by
  cases t with
  | define name => exact becomes
  | instr k => exact becomes
  | refer name =>
    obtain ⟨before, l, after, target, rfl, value, same⟩ := becomes
    refine ⟨ts ++ before, l, after, target, by simp, ?_, same⟩
    rw [value, follows, occupying_append, List.length_append]
    omega

/-- Where tokens come from does not matter to what one of them becomes. -/
lemma Becomes.congr (same : ts.map (·.token) = us.map (·.token)) {t : Token} {i : Instruction}
    (becomes : Becomes ts start t i) : Becomes us start t i := by
  cases t with
  | define name => exact becomes
  | instr k => exact becomes
  | refer name =>
    obtain ⟨before, l, after, target, rfl, value, push⟩ := becomes
    rw [List.map_append, List.map_cons, eq_comm, List.map_eq_append_iff] at same
    obtain ⟨before', others, rfl, front, back⟩ := same
    obtain ⟨⟨token, l'⟩, after', rfl, rfl, -⟩ := List.map_eq_cons_iff.1 back
    refine ⟨before', l', after', target, rfl, ?_, push⟩
    have count (ts : List SourceToken) :
        (occupying ts).length = (ts.map (·.token)).countP Token.occupies := by
      rw [List.countP_map, List.countP_eq_length_filter]
      rfl
    rw [value, count before, count before', front]

/-! ## What tokens become -/

/-- The instructions of a program are what its tokens become. -/
theorem forall₂_becomes_of_resolve (h : resolve tokens start = .ok p) :
    List.Forall₂ (fun t i => Becomes tokens start t.token i) (occupying tokens)
      p.instructions.toList := by
  obtain ⟨table, entries, first, second, rfl⟩ := resolve_eq_ok_iff.1 h
  simp only [Program.ofList, List.forall₂_map_right_iff]
  exact (forall₂_of_code second).imp fun t e both => becomes_of_translates first both.1

/-- They are the only instructions that its tokens become. -/
lemma instructions_of_becomes (h : resolve tokens start = .ok p) {is : List Instruction}
    (becomes : List.Forall₂ (fun t i => Becomes tokens start t.token i) (occupying tokens) is) :
    p.instructions.toList = is := by
  have nodup := ((exists_resolve_iff tokens start).1 ⟨p, h⟩).1
  have unique : Relator.RightUnique fun (t : SourceToken) i => Becomes tokens start t.token i :=
    fun _ _ _ one other => Becomes.unique nodup one other
  exact List.right_unique_forall₂' unique (forall₂_becomes_of_resolve h) becomes

/-- The instruction and the location at a place of a program come from the token there. -/
theorem exists_entry_of_resolve (h : resolve tokens start = .ok p) {front back : List SourceToken}
    {t : SourceToken} (split : occupying tokens = front ++ t :: back) :
    ∃ i, Becomes tokens start t.token i ∧ p.instructions[front.length]? = some i ∧
      p.locations[front.length]? = some t.location := by
  have related := forall₂_becomes_of_resolve h
  have bound : front.length < (occupying tokens).length := by simp [split]
  have bound' : front.length < p.instructions.toList.length := related.length_eq ▸ bound
  have here : (occupying tokens)[front.length] = t := by simp [split]
  refine ⟨p.instructions.toList[front.length], ?_, ?_, ?_⟩
  · rw [← here]
    exact related.get bound bound'
  · rw [← Array.getElem?_toList, List.getElem?_eq_getElem bound']
  · rw [← Array.getElem?_toList, locations_of_resolve h, split]
    simp

/-- What tokens define, what they refer to and what takes an address among them is the same wherever
they stand. -/
lemma names_congr (same : ts.map (·.token) = us.map (·.token)) :
    defined ts = defined us ∧ referenced ts = referenced us ∧
      (occupying ts).map (·.token) = (occupying us).map (·.token) := by
  have defines (ts : List SourceToken) :
      defined ts = (ts.map (·.token)).filterMap Token.defines? := by
    rw [List.filterMap_map]
    rfl
  have refers (ts : List SourceToken) :
      referenced ts = (ts.map (·.token)).filterMap Token.refers? := by
    rw [List.filterMap_map]
    rfl
  have occupies (ts : List SourceToken) :
      (occupying ts).map (·.token) = (ts.map (·.token)).filter Token.occupies := by
    rw [List.filter_map]
    rfl
  rw [defines ts, defines us, refers ts, refers us, occupies ts, occupies us, same]
  exact ⟨rfl, rfl, rfl⟩

/-- Tokens that differ from others in their locations alone resolve to the same instructions. -/
theorem exists_resolve_congr (same : ts.map (·.token) = us.map (·.token))
    (one : resolve ts start = .ok p) :
    ∃ q, resolve us start = .ok q ∧ q.instructions = p.instructions := by
  obtain ⟨defines, refers, occupies⟩ := names_congr same
  obtain ⟨nodup, known, fits⟩ := (exists_resolve_iff ts start).1 ⟨p, one⟩
  obtain ⟨q, other⟩ : ∃ q, resolve us start = .ok q := by
    refine (exists_resolve_iff us start).2 ⟨defines ▸ nodup, refers ▸ defines ▸ known, ?_⟩
    rwa [← List.length_map (f := (·.token)), ← occupies, List.length_map]
  refine ⟨q, other, ?_⟩
  apply Array.toList_inj.1
  refine instructions_of_becomes other ?_
  have related : List.Forall₂ (Becomes ts start) ((occupying ts).map (·.token))
      p.instructions.toList := List.forall₂_map_left_iff.2 (forall₂_becomes_of_resolve one)
  rw [occupies] at related
  exact (List.forall₂_map_left_iff.1 related).imp fun t i becomes => becomes.congr same

/-- **Tokens resolve in parts**, one behind the other, if the parts share no label. -/
theorem resolve_append {next : Address} (first : resolve ts start = .ok p)
    (second : resolve us next = .ok q)
    (follows : next.toInt = start.toInt + (occupying ts).length)
    (disjoint : (defined ts).Disjoint (defined us)) :
    resolve (ts ++ us) start = .ok (p.append q) := by
  obtain ⟨nodup, known, fits⟩ := (exists_resolve_iff ts start).1 ⟨p, first⟩
  obtain ⟨nodup', known', fits'⟩ := (exists_resolve_iff us next).1 ⟨q, second⟩
  obtain ⟨whole, resolved⟩ : ∃ whole, resolve (ts ++ us) start = .ok whole := by
    refine (exists_resolve_iff _ _).2 ⟨?_, ?_, ?_⟩
    · rw [defined_append]
      exact nodup.append nodup' disjoint
    · intro name mem
      rw [referenced_append, List.mem_append] at mem
      rw [defined_append, List.mem_append]
      exact mem.imp (known name) (known' name)
    · rw [occupying_append, List.length_append]
      omega
  have instructions : whole.instructions = p.instructions ++ q.instructions := by
    apply Array.toList_inj.1
    refine instructions_of_becomes resolved ?_
    rw [occupying_append, Array.toList_append]
    refine List.rel_append ?_ ?_
    · exact (forall₂_becomes_of_resolve first).imp fun t i becomes => becomes.append_right us
    · exact (forall₂_becomes_of_resolve second).imp fun t i becomes => becomes.append_left follows
  have locations : whole.locations = p.locations ++ q.locations := by
    apply Array.toList_inj.1
    rw [locations_of_resolve resolved, occupying_append, List.map_append, Array.toList_append,
      locations_of_resolve first, locations_of_resolve second]
  have begins : whole.start = p.start := by
    rw [start_of_resolve resolved, start_of_resolve first]
  rw [resolved, Program.append, ← begins, ← instructions, ← locations]

end StackAsm.Resolution
