import StackAsm.Proofs.Effect
import StackAsm.Proofs.Resolution.Parts
import StackAsm.Source

set_option autoImplicit false

/-!
# Code that does not depend on its address

A label that is referred to only as the target of the jump behind the reference is on the stack for
one instruction, and the jump takes it off again. So wherever such tokens are resolved for, their
programs run alike: at every other instruction the stacks are the same, and the program counters are
at the same place of the two programs.

**Proof sketch.** Two machines are in step at the boundary of two tokens, with equal stacks, or in
front of a jump, with the addresses of one label on top (`InStep`). A boundary has a place in both
programs (`Boundary`), and no step leads elsewhere than to a boundary or from a reference to its
jump: labels are defined at boundaries. A step keeps two machines in step (`InStep.step`), so runs
come out alike by induction.

## Main definitions

* `StackAsm.Resolution.JumpsPaired` — references and jumps stand in pairs.
* `StackAsm.Machine.streams` — what a machine reads from and writes to.
* `StackAsm.Machine.EndAlike` — two runs that come out alike.
* `StackAsm.Machine.InStep` — two machines with programs of the same tokens, at the same place.

## Main results

* `StackAsm.Machine.execute_placed` — where a machine stands matters only to jumps.
* `StackAsm.Machine.InStep.step`, `StackAsm.Machine.InStep.runFrom` — what one step keeps, and what
  a run does.
* `StackAsm.Machine.run_relocated` — tokens run alike wherever they are resolved for.
-/

namespace StackAsm

/-! ## References and jumps -/

namespace Resolution

/-- Every reference to a label stands directly in front of a jump, and every jump directly behind a
reference. -/
structure JumpsPaired (tokens : List SourceToken) : Prop where
  /-- The token behind a reference is a jump. -/
  followed : ∀ before name l after, tokens = before ++ ⟨.refer name, l⟩ :: after →
    ∃ j l' rest, after = ⟨.instr j, l'⟩ :: rest ∧ j.isJump
  /-- The token in front of a jump is a reference. -/
  preceded : ∀ before j l after, tokens = before ++ ⟨.instr j, l⟩ :: after → j.isJump →
    ∃ front name l', before = front ++ [⟨.refer name, l'⟩]

/-- The tokens whose references and jumps stand in pairs, put together from the front. -/
inductive Paired : List SourceToken → Prop where
  /-- No token. -/
  | nil : Paired []
  /-- The definition of a label. -/
  | define {name : String} {l : Location} {ts : List SourceToken} (more : Paired ts) :
    Paired (⟨.define name, l⟩ :: ts)
  /-- An instruction that is no jump. -/
  | plain {i : Instruction} {l : Location} {ts : List SourceToken} (other : ¬ i.isJump)
      (more : Paired ts) : Paired (⟨.instr i, l⟩ :: ts)
  /-- A reference and its jump. -/
  | jump {name : String} {j : Instruction} {l l' : Location} {ts : List SourceToken}
      (jump : j.isJump) (more : Paired ts) :
    Paired (⟨.refer name, l⟩ :: ⟨.instr j, l'⟩ :: ts)

/-- What is behind a token that is no reference is paired if all is. -/
lemma JumpsPaired.behind (front : List SourceToken) {ts : List SourceToken} {t : SourceToken}
    (paired : JumpsPaired (front ++ t :: ts)) (other : t.token.refers? = none) :
    JumpsPaired ts where
  followed before name l after split :=
    paired.followed (front ++ t :: before) name l after (by simp [split])
  preceded before j l after split jump := by
    obtain ⟨others, name, l', same⟩ :=
      paired.preceded (front ++ t :: before) j l after (by simp [split]) jump
    rcases List.eq_nil_or_concat' before with rfl | ⟨rest, u, rfl⟩
    · cases (List.append_inj' same rfl).2
      cases other
    · have moved : (front ++ t :: rest) ++ [u] = others ++ [⟨.refer name, l'⟩] := by
        simpa using same
      cases (List.append_inj' moved rfl).2
      exact ⟨rest, name, l', rfl⟩

/-- A token that is neither a reference nor a jump may stand in front. -/
lemma JumpsPaired.cons {t : SourceToken} {ts : List SourceToken} (paired : JumpsPaired ts)
    (noReference : t.token.refers? = none)
    (noJump : ∀ j : Instruction, t.token = .instr j → ¬ j.isJump) : JumpsPaired (t :: ts) where
  followed before name l after split := by
    rcases List.cons_eq_append_iff.1 split with ⟨rfl, same⟩ | ⟨before, rfl, rfl⟩
    · cases same
      cases noReference
    · exact paired.followed before name l after rfl
  preceded before j l after split jump := by
    rcases List.cons_eq_append_iff.1 split with ⟨rfl, same⟩ | ⟨before, rfl, rfl⟩
    · cases same
      exact absurd jump (noJump j rfl)
    · obtain ⟨front, name, l', rfl⟩ := paired.preceded before j l after rfl jump
      exact ⟨t :: front, name, l', rfl⟩

/-- A reference and its jump may stand in front. -/
lemma JumpsPaired.cons_jump {name : String} {j : Instruction} {l l' : Location}
    {ts : List SourceToken} (paired : JumpsPaired ts) (jump : j.isJump) :
    JumpsPaired (⟨.refer name, l⟩ :: ⟨.instr j, l'⟩ :: ts) where
  followed before other l after split := by
    rcases before with _ | ⟨t, _ | ⟨u, before⟩⟩
    · cases split
      exact ⟨j, l', ts, rfl, jump⟩
    · cases split
    · cases split
      exact paired.followed before other l after rfl
  preceded before i l after split _ := by
    rcases before with _ | ⟨t, _ | ⟨u, before⟩⟩
    · cases split
    · cases split
      exact ⟨[], name, _, rfl⟩
    · cases split
      obtain ⟨front, other, l', rfl⟩ := paired.preceded before i l after rfl ‹_›
      exact ⟨_ :: _ :: front, other, l', rfl⟩

/-- Both ways of saying that references and jumps stand in pairs agree. -/
lemma jumpsPaired_iff_paired {tokens : List SourceToken} :
    JumpsPaired tokens ↔ Paired tokens := by
  constructor
  · intro paired
    induction h : tokens.length using Nat.strongRecOn generalizing tokens with
    | ind n ih =>
      subst h
      rcases tokens with _ | ⟨⟨name | name | i, l⟩, ts⟩
      · exact .nil
      · exact .define (ih _ (Nat.lt_succ_self _) (paired.behind [] rfl) rfl)
      · obtain ⟨j, l', rest, rfl, jump⟩ := paired.followed [] name l ts rfl
        have behind : JumpsPaired rest := paired.behind [⟨.refer name, l⟩] rfl
        exact .jump jump (ih _ (by simp) behind rfl)
      · have other : ¬ i.isJump := fun jump => by
          obtain ⟨front, name, l', same⟩ := paired.preceded [] i l ts rfl jump
          cases front <;> cases same
        exact .plain other (ih _ (Nat.lt_succ_self _) (paired.behind [] rfl) rfl)
  · intro paired
    induction paired with
    | nil => exact ⟨by simp, by simp⟩
    | define more ih => exact ih.cons rfl nofun
    | plain other more ih => exact ih.cons rfl fun j same => by cases same; exact other
    | jump jump more ih => exact ih.cons_jump jump

/-- The place of a program at which some of its tokens begin that are paired among themselves. -/
def Boundary (tokens : List SourceToken) (k : Nat) : Prop :=
  ∃ before after, tokens = before ++ after ∧ Paired after ∧ (occupying before).length = k

section Boundary

variable {tokens : List SourceToken} (paired : Paired tokens)
include paired

/-- Paired tokens begin at a boundary. -/
lemma Paired.boundary_zero : Boundary tokens 0 := ⟨[], tokens, rfl, paired, rfl⟩

/-- Labels are defined at boundaries. -/
lemma Paired.boundary_of_define {before after : List SourceToken} {name : String} {l : Location}
    (split : tokens = before ++ ⟨.define name, l⟩ :: after) :
    Boundary tokens (occupying before).length := by
  refine ⟨before, _, split, ?_, rfl⟩
  induction paired generalizing before with
  | nil => cases before <;> cases split
  | define more ih =>
    rcases List.cons_eq_append_iff.1 split with ⟨rfl, same⟩ | ⟨before, rfl, rfl⟩
    · rw [same]
      exact .define more
    · exact ih rfl
  | plain other more ih =>
    rcases List.cons_eq_append_iff.1 split with ⟨rfl, same⟩ | ⟨before, rfl, rfl⟩
    · cases same
    · exact ih rfl
  | jump jump more ih =>
    rcases before with _ | ⟨t, _ | ⟨u, before⟩⟩
    · cases split
    · cases split
    · exact ih (List.cons.inj (List.cons.inj split).2).2

end Boundary

/-- What is at a boundary: the end of the program, an instruction that is no jump, or a reference
and its jump. Behind it is a boundary again. -/
lemma Boundary.cases {tokens : List SourceToken} {k : Nat} (boundary : Boundary tokens k) :
    (occupying tokens).length = k ∨
    (∃ front i l back, occupying tokens = front ++ ⟨.instr i, l⟩ :: back ∧ front.length = k ∧
      ¬ i.isJump ∧ Boundary tokens (k + 1)) ∨
    ∃ front name l j l' back,
      occupying tokens = front ++ ⟨.refer name, l⟩ :: ⟨.instr j, l'⟩ :: back ∧ front.length = k ∧
        j.isJump ∧ Boundary tokens (k + 2) := by
  obtain ⟨before, after, rfl, paired, rfl⟩ := boundary
  induction paired generalizing before with
  | nil => exact .inl (by rw [List.append_nil])
  | @define name l ts more ih =>
    have := ih (before ++ [⟨.define name, l⟩])
    rw [List.append_assoc, occupying_append before [_]] at this
    simpa using this
  | @plain i l ts other more ih =>
    refine .inr (.inl ⟨occupying before, i, l, occupying ts, ?_, rfl, other, ?_⟩)
    · rw [occupying_append, occupying_cons_of_occupies rfl]
    · refine ⟨before ++ [⟨.instr i, l⟩], ts, by simp, more, ?_⟩
      rw [occupying_append, List.length_append]
      rfl
  | @jump name j l l' ts jump more ih =>
    refine .inr (.inr ⟨occupying before, name, l, j, l', occupying ts, ?_, rfl, jump, ?_⟩)
    · rw [occupying_append, occupying_cons_of_occupies rfl, occupying_cons_of_occupies rfl]
    · refine ⟨before ++ [⟨.refer name, l⟩, ⟨.instr j, l'⟩], ts, by simp, more, ?_⟩
      rw [occupying_append, List.length_append]
      rfl

end Resolution

/-! ## Places of a program -/

namespace Program

variable {p : Program} {k : Nat} {a : Address}

/-- `a` is the address of place `k` of a program, which may be its end. -/
def AddressOf (p : Program) (k : Nat) (a : Address) : Prop := a.toInt = p.start.toInt + k

/-- The start is the address of the first place. -/
lemma AddressOf.start (p : Program) : p.AddressOf 0 p.start := by simp [AddressOf]

/-- The address of a place is in the program exactly if the place is. -/
lemma AddressOf.isSome_indexOf?_iff (place : p.AddressOf k a) :
    (p.indexOf? a).isSome ↔ k < p.length := by
  rw [AddressOf] at place
  rw [Program.isSome_indexOf?_iff]
  omega

/-- The place at the address of a place is that place. -/
lemma AddressOf.indexOf?_eq (place : p.AddressOf k a) (inside : k < p.length) :
    p.indexOf? a = some k := indexOf?_eq_some_iff.2 ⟨place, inside⟩

/-- The next address is that of the next place. -/
lemma AddressOf.next (place : p.AddressOf k a) (wf : p.WellFormed) (inside : k < p.length) :
    p.AddressOf (k + 1) (a + 1) := by
  rw [AddressOf] at place ⊢
  have fits := wf.fits
  rw [Word.toInt_add_one (by omega)]
  omega

/-- The instruction and the location at a place of a program. -/
def Holds (p : Program) (k : Nat) (i : Instruction) (l : Location) : Prop :=
  p.instructions[k]? = some i ∧ p.locations[k]? = some l

/-- A place with an instruction is in the program. -/
lemma Holds.lt_length {i : Instruction} {l : Location} (holds : p.Holds k i l) : k < p.length :=
  (Array.getElem?_eq_some_iff.1 holds.1).1

end Program

namespace Machine

variable {m n : Machine} {p q : Program} {k : Nat} {a b : Address} {i : Instruction} {l : Location}

/-- A machine at a place of its program executes the instruction there. -/
lemma step_of_holds (code : m.code = p) (place : p.AddressOf k m.pc) (holds : p.Holds k i l) :
    m.isRunning ∧ m.step = m.execute i l := by
  have index : m.code.indexOf? m.pc = some k := by
    rw [code]
    exact place.indexOf?_eq holds.lt_length
  have instruction : m.instruction? = some i := by
    rw [instruction?, Program.instructionAt?_of_indexOf? index, code, holds.1]
  have location : m.location? = some l := by
    rw [location?, Program.locationAt?_of_indexOf? index, code, holds.2]
  exact ⟨by rw [isRunning, index]; rfl, step_eq_execute instruction location⟩

/-- A machine at the address of a place runs exactly if the place is in the program. -/
lemma isRunning_iff (code : m.code = p) (place : p.AddressOf k m.pc) :
    m.isRunning ↔ k < p.length := by
  rw [isRunning, code]
  exact place.isSome_indexOf?_iff

/-! ## One machine at two places -/

/-- A machine, put at an address of another program. -/
def placed (m : Machine) (q : Program) (b : Address) : Machine := { m with code := q, pc := b }

/-- **Where a machine stands matters only to jumps**: any other instruction does the same at another
place, and leads from there to the next one. -/
theorem execute_placed (other : ¬ i.isJump) (m : Machine) (q : Program) (b : Address)
    (l : Location) :
    (∃ n : Machine, m.execute i l = .done n ∧ n.pc = m.pc + 1 ∧
      (m.placed q b).execute i l = .done (n.placed q (b + 1))) ∨
    ∃ (e : RuntimeError) (n : Machine), m.execute i l = .failed e n ∧
      (m.placed q b).execute i l = .failed e (n.placed q b) := by
  by_cases silent : i.reads
  · rcases i with n | o
    · cases silent
    cases o
    case read =>
      cases value : (Numeral.split m.input).value with
      | error fault => exact .inr (by simp [execute, readInteger, placed, value])
      | ok n => exact .inl (by simp [execute, readInteger, placed, value, advance])
    case cread =>
      cases input : m.input with
      | nil => exact .inl (by simp [execute, readByte, placed, input, advance])
      | cons c rest => exact .inl (by simp [execute, readByte, placed, input, advance])
    all_goals cases silent
  · rw [execute_eq_carryOut silent, execute_eq_carryOut silent]
    change (∃ n : Machine, _ ∧ _ ∧ (m.placed q b).carryOut i l (i.compute m.stack) = _) ∨
      ∃ e n, _ ∧ (m.placed q b).carryOut i l (i.compute m.stack) = _
    cases computes : i.compute m.stack with
    | error e => exact .inr ⟨e l, m, rfl, rfl⟩
    | ok effect =>
      have target := Instruction.target?_of_not_isJump other computes
      by_cases fits : m.output.fits (i.printed m.stack)
      · by_cases fits' : m.diagnostics.fits (i.shown m.stack)
        · left
          simp [carryOut, write, report, placed, fits, fits', target]
        · right
          simp [carryOut, write, report, placed, fits, fits']
      · right
        simp [carryOut, write, report, placed, fits]

/-! ## Two machines in step -/

/-- What a machine reads from and writes to. -/
def streams (m : Machine) : Bytes × Sink × Sink := (m.input, m.output, m.diagnostics)

/-- Two runs of which the second one is `distance` addresses further on come out alike: neither of
them ends, or both end with the same stack and streams and at addresses that far apart, or both fail
with the same error and streams. -/
inductive EndAlike (distance : Int) : Option Outcome → Option Outcome → Prop where
  /-- Neither run is over. -/
  | unfinished : EndAlike distance none none
  /-- Both runs end. -/
  | done {m n : Machine} (streams : m.streams = n.streams) (stack : m.stack = n.stack)
      (pc : n.pc.toInt - m.pc.toInt = distance) :
    EndAlike distance (some (.done m)) (some (.done n))
  /-- Both runs fail. -/
  | failed {e : RuntimeError} {m n : Machine} (streams : m.streams = n.streams) :
    EndAlike distance (some (.failed e m)) (some (.failed e n))

/-- Two machines, with programs that the same tokens are resolved to, are at the same place: at the
boundary of two tokens and with the same stack, or in front of a jump and with the addresses of one
label on top. -/
inductive InStep (tokens : List SourceToken) (p q : Program) : Machine → Machine → Prop where
  /-- At a boundary. -/
  | boundary {m : Machine} {k : Nat} {b : Address} (boundary : Resolution.Boundary tokens k)
      (code : m.code = p) (here : p.AddressOf k m.pc) (there : q.AddressOf k b) :
    InStep tokens p q m (m.placed q b)
  /-- In front of a jump. -/
  | target {m : Machine} {k d : Nat} {a a' b : Address} {s : List Word} {j : Instruction}
      {l : Location} (code : m.code = p) (here : p.AddressOf k m.pc) (there : q.AddressOf k b)
      (jump : j.isJump) (holds : p.Holds k j l) (holds' : q.Holds k j l)
      (top : m.stack = a :: s) (target : p.AddressOf d a) (target' : q.AddressOf d a')
      (boundary : Resolution.Boundary tokens d) (behind : Resolution.Boundary tokens (k + 1)) :
    InStep tokens p q m { m.placed q b with stack := a' :: s }

section InStep

variable {tokens : List SourceToken} {s t : Address} (paired : Resolution.Paired tokens)
  (first : Resolution.resolve tokens s = .ok p) (second : Resolution.resolve tokens t = .ok q)

/-- Machines that are in step have the same streams. -/
lemma InStep.streams_eq (inStep : InStep tokens p q m n) : m.streams = n.streams := by
  cases inStep <;> rfl

/-- Machines that are in step have the same budget. -/
lemma InStep.budget_eq (inStep : InStep tokens p q m n) : m.budget = n.budget := by
  cases inStep <;> rfl

include first in
/-- An instruction among tokens is at its place in the program. -/
lemma holds_of_resolve {front back : List SourceToken} {i : Instruction} {l : Location}
    (split : Resolution.occupying tokens = front ++ ⟨.instr i, l⟩ :: back) :
    p.Holds front.length i l := by
  obtain ⟨j, becomes, instruction, location⟩ := Resolution.exists_entry_of_resolve first split
  obtain rfl : j = i := becomes
  exact ⟨instruction, location⟩

include paired first second in
/-- A reference becomes the push of the address of one place, which is a boundary. -/
lemma exists_pushes_of_resolve {front back : List SourceToken} {name : String} {l : Location}
    (split : Resolution.occupying tokens = front ++ ⟨.refer name, l⟩ :: back) :
    ∃ d a a', Resolution.Boundary tokens d ∧ p.AddressOf d a ∧ q.AddressOf d a' ∧
      p.Holds front.length (.push a) l ∧ q.Holds front.length (.push a') l := by
  have nodup := ((Resolution.exists_resolve_iff tokens s).1 ⟨p, first⟩).1
  obtain ⟨_, ⟨before, l₁, after, a, here, value, rfl⟩, holds⟩ :=
    Resolution.exists_entry_of_resolve first split
  obtain ⟨_, ⟨before', l₂, after', a', here', value', rfl⟩, holds'⟩ :=
    Resolution.exists_entry_of_resolve second split
  obtain rfl := Resolution.before_unique nodup here here'
  rw [← Resolution.start_of_resolve first] at value
  rw [← Resolution.start_of_resolve second] at value'
  exact ⟨_, a, a', paired.boundary_of_define here, value, value', holds, holds'⟩

include paired first second in
/-- **A step keeps two machines in step**, or it fails in the same way at both of them; and if one
of them is at no instruction, neither is the other, and their stacks are the same. -/
theorem InStep.step (inStep : InStep tokens p q m n) :
    (¬ m.isRunning ∧ ¬ n.isRunning ∧ m.stack = n.stack ∧
      n.pc.toInt - m.pc.toInt = t.toInt - s.toInt) ∨
    (m.isRunning ∧ n.isRunning ∧
      ((∃ m' n', m.step = .done m' ∧ n.step = .done n' ∧ InStep tokens p q m' n') ∨
        ∃ e m' n', m.step = .failed e m' ∧ n.step = .failed e n' ∧ m'.streams = n'.streams)) := by
  have wf := Resolution.wellFormed_of_resolve first
  have wf' := Resolution.wellFormed_of_resolve second
  cases inStep with
  | @boundary k b boundary code here there =>
    rcases boundary.cases with ends | ⟨front, i, l, back, split, rfl, other, next⟩ |
      ⟨front, name, l, j, l', back, split, rfl, jump, next⟩
    · left
      have length := Resolution.length_of_resolve first
      have length' := Resolution.length_of_resolve second
      refine ⟨?_, ?_, rfl, ?_⟩
      · rw [isRunning_iff code here]
        omega
      · rw [isRunning_iff (m := m.placed q b) (p := q) rfl there]
        omega
      · rw [← Resolution.start_of_resolve first, ← Resolution.start_of_resolve second]
        rw [Program.AddressOf] at here there
        change b.toInt - _ = _
        omega
    · right
      have holds := holds_of_resolve first split
      have holds' := holds_of_resolve second split
      obtain ⟨running, step⟩ := step_of_holds code here holds
      obtain ⟨running', step'⟩ := step_of_holds (m := m.placed q b) rfl there holds'
      refine ⟨running, running', ?_⟩
      rcases execute_placed other m q b l with ⟨m', done, pc, done'⟩ | ⟨e, m', failed, failed'⟩
      · refine .inl ⟨m', _, step.trans done, step'.trans done', .boundary next ?_ ?_ ?_⟩
        · rw [code_of_step (step.trans done), code]
        · rw [pc]
          exact here.next wf holds.lt_length
        · exact there.next wf' holds'.lt_length
      · exact .inr ⟨e, m', _, step.trans failed, step'.trans failed', rfl⟩
    · right
      obtain ⟨d, a, a', target, value, value', holds, holds'⟩ :=
        exists_pushes_of_resolve paired first second split
      obtain ⟨running, step⟩ := step_of_holds code here holds
      obtain ⟨running', step'⟩ := step_of_holds (m := m.placed q b) rfl there holds'
      have split' : Resolution.occupying tokens =
          (front ++ [⟨.refer name, l⟩]) ++ ⟨.instr j, l'⟩ :: back := by simp [split]
      have holdsJump := holds_of_resolve first split'
      have holdsJump' := holds_of_resolve second split'
      rw [List.length_append] at holdsJump holdsJump'
      refine ⟨running, running', .inl ⟨_, _, step, step', ?_⟩⟩
      exact .target (m := { m with stack := a :: m.stack, pc := m.pc + 1 }) code
        (here.next wf holds.lt_length) (there.next wf' holds'.lt_length) jump holdsJump holdsJump'
        rfl value value' target next
  | @target k d a a' b rest j l code here there jump holds holds' top value value' target behind =>
    right
    obtain ⟨running, step⟩ := step_of_holds code here holds
    obtain ⟨running', step'⟩ :=
      step_of_holds (m := { m.placed q b with stack := a' :: rest }) rfl there holds'
    refine ⟨running, running', ?_⟩
    rcases execute_of_isJump jump l rest with underflow | ⟨left, taken, leads⟩
    · exact .inr ⟨_, m, _, step.trans (underflow m a top), step'.trans (underflow _ a' rfl), rfl⟩
    · refine .inl ⟨_, _, step.trans (leads m a top), step'.trans (leads _ a' rfl), ?_⟩
      cases taken with
      | true => exact .boundary (b := a') target code value value'
      | false =>
        exact .boundary (b := b + 1) behind code (here.next wf holds.lt_length)
          (there.next wf' holds'.lt_length)

include paired first second in
/-- **Two machines that are in step run alike.** -/
theorem InStep.runFrom (inStep : InStep tokens p q m n) (fuel taken : Nat) :
    EndAlike (t.toInt - s.toInt) (m.runFrom fuel taken) (n.runFrom fuel taken) := by
  induction fuel generalizing m n taken with
  | zero => exact .unfinished
  | succ fuel ih =>
    unfold Machine.runFrom
    rcases inStep.step paired first second with ⟨stopped, stopped', stack, pc⟩ |
      ⟨running, running', steps⟩
    · rw [if_neg stopped, if_neg stopped']
      exact .done inStep.streams_eq stack pc
    · rw [if_pos running, if_pos running', spent?, spent?, inStep.budget_eq]
      cases n.budget.filter (· ≤ taken) with
      | some limit => exact .failed inStep.streams_eq
      | none =>
        rcases steps with ⟨m', n', step, step', next⟩ | ⟨e, m', n', step, step', streams⟩
        · simp only [step, step']
          exact ih next (taken + 1)
        · simp only [step, step']
          exact .failed streams

end InStep

/-- **Code whose labels are only the targets of its jumps runs alike wherever it is.** Let every
reference stand directly in front of a jump and every jump directly behind a reference. Wherever
such tokens are resolved for, fresh machines load what they resolve to, and with the same budget,
input and sinks the runs come out alike. -/
theorem run_relocated {tokens : List SourceToken} (paired : Resolution.JumpsPaired tokens)
    {s t : Address} {p q : Program} (first : Resolution.resolve tokens s = .ok p)
    (second : Resolution.resolve tokens t = .ok q) (budget : Option Nat) (input : Bytes)
    (output diagnostics : Sink) :
    ∃ m n, (fresh budget input output diagnostics).load p = .ok m ∧
      (fresh budget input output diagnostics).load q = .ok n ∧
      ∀ fuel, EndAlike (t.toInt - s.toInt) (m.run fuel) (n.run fuel) := by
  have fits := (Resolution.wellFormed_of_resolve first).fits
  have fits' := (Resolution.wellFormed_of_resolve second).fits
  refine ⟨_, _, load_fresh_eq (Program.endAddress?_ne_none_iff.2 fits) budget input output
    diagnostics, load_fresh_eq (Program.endAddress?_ne_none_iff.2 fits') budget input output
    diagnostics, fun fuel => ?_⟩
  have pairs := Resolution.jumpsPaired_iff_paired.1 paired
  exact InStep.runFrom pairs first second
    (.boundary pairs.boundary_zero rfl (.start p) (.start q)) fuel 0

/-- A countdown with a jump back, from the first address on and up to the last one. -/
theorem run_relocated_countdown :
    ∃ (tokens : List SourceToken) (p q : Program) (m n : Machine),
      Source.tokens "f" "3 :loop: dup print 1 sub dup 0 @loop jgt" = .ok tokens ∧
      Resolution.JumpsPaired tokens ∧ Resolution.resolve tokens 0 = .ok p ∧
      Resolution.resolve tokens (Int64.maxValue - 9) = .ok q ∧
      (fresh (some 20) [] {} {}).load p = .ok m ∧ (fresh (some 20) [] {} {}).load q = .ok n ∧
      EndAlike (Int64.maxValue.toInt - 9) (m.run 21) (n.run 21) := by
  let tokens : List SourceToken :=
    [⟨.instr (.push 3), ⟨"f", 1, 1⟩⟩, ⟨.define "loop", ⟨"f", 1, 3⟩⟩,
      ⟨.instr (.op .dup), ⟨"f", 1, 10⟩⟩, ⟨.instr (.op .print), ⟨"f", 1, 14⟩⟩,
      ⟨.instr (.push 1), ⟨"f", 1, 20⟩⟩, ⟨.instr (.op .sub), ⟨"f", 1, 22⟩⟩,
      ⟨.instr (.op .dup), ⟨"f", 1, 26⟩⟩, ⟨.instr (.push 0), ⟨"f", 1, 30⟩⟩,
      ⟨.refer "loop", ⟨"f", 1, 32⟩⟩, ⟨.instr (.op .jgt), ⟨"f", 1, 38⟩⟩]
  have read : Source.tokens "f" "3 :loop: dup print 1 sub dup 0 @loop jgt" = .ok tokens := by cbv
  have paired : Resolution.JumpsPaired tokens :=
    Resolution.jumpsPaired_iff_paired.2 <| .plain nofun <| .define <| .plain nofun <|
      .plain nofun <| .plain nofun <| .plain nofun <| .plain nofun <| .plain nofun <| .jump rfl .nil
  obtain ⟨p, first⟩ := (Resolution.exists_resolve_iff tokens 0).2 ⟨by decide, by decide, by decide⟩
  obtain ⟨q, second⟩ := (Resolution.exists_resolve_iff tokens (Int64.maxValue - 9)).2
    ⟨by decide, by decide, by decide⟩
  obtain ⟨m, n, loaded, loaded', alike⟩ :=
    run_relocated paired first second (some 20) [] {} {}
  exact ⟨tokens, p, q, m, n, read, paired, first, second, loaded, loaded', alike 21⟩

end Machine

end StackAsm
