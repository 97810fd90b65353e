import StackAsm.Proofs.Loading
import StackAsm.Proofs.Session.Turns

set_option autoImplicit false

/-!
# Loading only adds

A program is loaded as a whole or not at all, behind what is loaded already. Only a machine without
instructions takes over the start of a program; any other one keeps its base address. So, whatever
is done to a machine short of dropping its program, an instruction that is loaded stays at its
address, and so does its location.

**Proof sketch.** Every operation but `reset` leaves a program that extends the one before
(`StackAsm.Machine.extends_of_leaves`), as long as there is an instruction: loading puts a program
behind it, each line of a session does, and steps leave it alone. Extensions add up over a sequence
of operations.

## Main definitions

* `StackAsm.Program.Extends` — a program with another one in front.
* `StackAsm.Machine.Continues` — the machines that operations other than `reset` lead to.
* `StackAsm.Machine.LoadsExactly` — what a machine loads, and what becomes of it.
* `StackAsm.Machine.KeepsLoaded` — what is loaded stays where it is.

## Main results

* `StackAsm.Machine.load_eq_ok_iff`, `StackAsm.Machine.load_eq_error_iff` — what is loaded, and why
  not.
* `StackAsm.Machine.load_of_resolve` — tokens are loaded like the program that they stand for.
* `StackAsm.Machine.Continues.extends` — a program only grows.
* `StackAsm.Machine.loadsExactly_and_keepsLoaded` — what loading does, and what nothing undoes.
-/

namespace StackAsm

/-! ## Programs with others in front -/

/-- The program `q` has the tables of `p` in front, at the same addresses. -/
structure Program.Extends (q p : Program) : Prop where
  /-- Both begin at one address. -/
  start : q.start = p.start
  /-- The instructions of `p` are in front. -/
  instructions : p.instructions.toList <+: q.instructions.toList
  /-- The locations of `p` are in front. -/
  locations : p.locations.toList <+: q.locations.toList

namespace Program.Extends

variable {p q r : Program}

/-- A program extends itself. -/
lemma refl (p : Program) : p.Extends p := ⟨rfl, List.prefix_rfl, List.prefix_rfl⟩

/-- What extends an extension of a program extends the program. -/
lemma trans (second : r.Extends q) (first : q.Extends p) : r.Extends p :=
  ⟨second.start.trans first.start, first.instructions.trans second.instructions,
    first.locations.trans second.locations⟩

/-- A program with another one behind it extends it. -/
lemma append (p q : Program) : (p.append q).Extends p := by
  refine ⟨rfl, ?_, ?_⟩ <;> rw [Program.append, Array.toList_append] <;> exact List.prefix_append _ _

/-- Where `p` has an instruction, `q` has the same one, with its location. -/
lemma lookup_eq (longer : q.Extends p) (wf : p.WellFormed) {a : Address}
    (loaded : (p.indexOf? a).isSome) :
    q.instructionAt? a = p.instructionAt? a ∧ q.locationAt? a = p.locationAt? a := by
  obtain ⟨k, index⟩ := Option.isSome_iff_exists.1 loaded
  have inside : k < p.instructions.size := (indexOf?_eq_some_iff.1 index).2
  have index' := indexOf?_of_start_eq longer.start longer.instructions.length_le index
  rw [instructionAt?_of_indexOf? index, instructionAt?_of_indexOf? index',
    locationAt?_of_indexOf? index, locationAt?_of_indexOf? index']
  exact ⟨getElem?_of_front longer.instructions inside,
    getElem?_of_front longer.locations (wf.tables ▸ inside)⟩

end Program.Extends

namespace Machine

/-! ## What is loaded, and why not -/

/-- Operations other than `reset`, one after the other, lead from `m` to a machine. Each of them
succeeds or fails. -/
inductive Continues (m : Machine) : Machine → Prop where
  /-- Nothing is done. -/
  | start : Continues m m
  /-- One more operation is performed. -/
  | perform {n n' : Machine} {op : Operation} (before : Continues m n) (permitted : op.Permitted)
    (keeps : op ≠ .reset) (leaves : op.Leaves n n') : Continues m n'

/-- What a machine loads, and what becomes of it. -/
structure LoadsExactly (m : Machine) : Prop where
  /-- A program is loaded exactly if the address behind its last instruction is a word and it starts
  at the next free address, or anywhere if nothing is loaded. -/
  load (p : Program) : (∃ n, m.load p = .ok n) ↔
    p.start.toInt + p.length ≤ Int64.maxValue.toInt ∧ (m.isEmpty ∨ p.start = m.nextAddress)
  /-- Tokens are loaded exactly if they resolve for the next free address. -/
  loadTokens (tokens : List SourceToken) : (∃ n, m.loadTokens tokens = .ok n) ↔
    ∃ p, Resolution.resolve tokens m.nextAddress = .ok p
  /-- They are loaded like the program that they stand for, unless nothing is loaded and the program
  counter is somewhere else than at the next free address. -/
  agree (tokens : List SourceToken) (p : Program) :
    Resolution.resolve tokens m.nextAddress = .ok p → ¬ m.isEmpty ∨ m.pc = m.nextAddress →
      ∃ n, m.loadTokens tokens = .ok n ∧ m.load p = .ok n
  /-- A program that is not loaded does not fit, which is found first, or starts elsewhere. -/
  load_error (p : Program) (e : RuntimeError) : m.load p = .error e ↔
    ¬ p.start.toInt + p.length ≤ Int64.maxValue.toInt ∧ e = .addressOverflow p.start p.length ∨
    p.start.toInt + p.length ≤ Int64.maxValue.toInt ∧ ¬ m.isEmpty ∧ p.start ≠ m.nextAddress ∧
      e = .addressMismatch p.start m.nextAddress
  /-- Tokens that are not loaded do not resolve. -/
  loadTokens_error (tokens : List SourceToken) (e : ResolveError) :
    m.loadTokens tokens = .error e ↔ Resolution.resolve tokens m.nextAddress = .error e
  /-- What is not loaded changes nothing. -/
  failed (n : Machine) :
    (∀ p e, m.load p = .error e → (Operation.load p).Leaves m n → n = m) ∧
      ∀ tokens e, m.loadTokens tokens = .error e → (Operation.loadTokens tokens).Leaves m n → n = m
  /-- A program that is loaded is behind what was loaded before. The base address and the program
  counter move to its start if nothing was; all else is as before. -/
  loaded (p : Program) (n : Machine) : m.load p = .ok n → n = { m with
    code.start := if m.isEmpty then p.start else m.code.start
    code.instructions := m.code.instructions ++ p.instructions
    code.locations := m.code.locations ++ p.locations
    pc := if m.isEmpty then p.start else m.pc }
  /-- Tokens that are loaded are behind what was loaded before, and all else is as before. -/
  loadedTokens (tokens : List SourceToken) (n : Machine) : m.loadTokens tokens = .ok n →
    ∃ p, Resolution.resolve tokens m.nextAddress = .ok p ∧ n = { m with
      code.instructions := m.code.instructions ++ p.instructions
      code.locations := m.code.locations ++ p.locations }

/-- What the machine `m` has loaded is at the same addresses of the machine `n`. -/
def KeepsLoaded (m n : Machine) : Prop :=
  ∀ (a : Address) (i : Instruction) (l : Location), m.code.instructionAt? a = some i →
    m.code.locationAt? a = some l → n.code.instructionAt? a = some i ∧ n.code.locationAt? a = some l

variable {m m' n : Machine} {p : Program} {e : RuntimeError} {tokens : List SourceToken}

/-- A program is loaded if it fits the addresses and is the first one or starts where the others
end; the machine then has it behind them. -/
theorem load_eq_ok_iff : m.load p = .ok n ↔
    p.start.toInt + p.length ≤ Int64.maxValue.toInt ∧ (m.isEmpty ∨ p.start = m.nextAddress) ∧
      n = { m with
        code.start := if m.isEmpty then p.start else m.code.start
        code.instructions := m.code.instructions ++ p.instructions
        code.locations := m.code.locations ++ p.locations
        pc := if m.isEmpty then p.start else m.pc } := by
  rw [← Program.endAddress?_ne_none_iff]
  by_cases ends : p.endAddress? = none
  · simp [load, ends]
  · by_cases empty : m.isEmpty
    · simp [load, ends, empty, append, Program.append, eq_comm]
    · by_cases follows : p.start = m.nextAddress
      · simp [load, ends, empty, follows, append, Program.append, eq_comm]
      · simp [load, ends, empty, follows]

/-- A program that does not fit the addresses is refused for that, and one that fits for its
start. -/
theorem load_eq_error_iff : m.load p = .error e ↔
    ¬ p.start.toInt + p.length ≤ Int64.maxValue.toInt ∧ e = .addressOverflow p.start p.length ∨
    p.start.toInt + p.length ≤ Int64.maxValue.toInt ∧ ¬ m.isEmpty ∧ p.start ≠ m.nextAddress ∧
      e = .addressMismatch p.start m.nextAddress := by
  rw [← Program.endAddress?_ne_none_iff, eq_comm (a := e), eq_comm (a := e)]
  by_cases ends : p.endAddress? = none
  · simp [load, ends]
  · by_cases empty : m.isEmpty
    · simp [load, ends, empty]
    · by_cases follows : p.start = m.nextAddress
      · simp [load, ends, empty, follows]
      · simp [load, ends, empty, follows]

/-- Where nothing is loaded, the next address is that of the start. -/
lemma nextAddress_of_isEmpty (empty : m.isEmpty) : m.nextAddress = m.code.start := by
  have none : m.code.length = 0 := Array.isEmpty_iff_size_eq_zero.1 empty
  rw [nextAddress, none]
  exact Int64.add_zero _

/-- **Tokens are loaded like the program that they stand for**, but for the program counter if
nothing is loaded. -/
theorem load_of_resolve (resolved : Resolution.resolve tokens m.nextAddress = .ok p) :
    m.load p = .ok ((m.append p).goTo (if m.isEmpty then m.nextAddress else m.pc)) := by
  have start := Resolution.start_of_resolve resolved
  refine load_eq_ok_iff.2 ⟨(Resolution.wellFormed_of_resolve resolved).fits, .inr start, ?_⟩
  by_cases empty : m.isEmpty
  · simp [append, Program.append, goTo, empty, start, nextAddress_of_isEmpty empty]
  · simp [append, Program.append, goTo, empty]

/-- Tokens are not loaded exactly if they do not resolve at the next address. -/
lemma loadTokens_eq_error_iff {e : ResolveError} :
    m.loadTokens tokens = .error e ↔ Resolution.resolve tokens m.nextAddress = .error e := by
  unfold loadTokens
  cases Resolution.resolve tokens m.nextAddress <;> simp

/-- Every machine loads exactly what it should. -/
lemma loadsExactly (m : Machine) : m.LoadsExactly where
  load p := by
    constructor
    · rintro ⟨n, load⟩
      obtain ⟨fits, place, -⟩ := load_eq_ok_iff.1 load
      exact ⟨fits, place⟩
    · rintro ⟨fits, place⟩
      exact ⟨_, load_eq_ok_iff.2 ⟨fits, place, rfl⟩⟩
  loadTokens tokens := by
    constructor
    · rintro ⟨n, load⟩
      obtain ⟨p, resolved, -⟩ := loadTokens_eq_ok_iff.1 load
      exact ⟨p, resolved⟩
    · rintro ⟨p, resolved⟩
      exact ⟨_, loadTokens_eq_ok_iff.2 ⟨p, resolved, rfl⟩⟩
  agree tokens p resolved place := by
    have counter : (if m.isEmpty then m.nextAddress else m.pc) = m.pc := by
      split
      · rename_i empty
        exact (place.resolve_left (not_not_intro empty)).symm
      · rfl
    refine ⟨m.append p, loadTokens_eq_ok_iff.2 ⟨p, resolved, rfl⟩, ?_⟩
    rw [load_of_resolve resolved, counter]
    rfl
  load_error p e := load_eq_error_iff
  loadTokens_error tokens e := loadTokens_eq_error_iff
  failed n := by
    constructor
    · intro p e failed leaves
      simpa only [Operation.Leaves, failed] using leaves
    · intro tokens e failed leaves
      simpa only [Operation.Leaves, failed] using leaves
  loaded p n load := (load_eq_ok_iff.1 load).2.2
  loadedTokens tokens n load := by
    obtain ⟨p, resolved, rfl⟩ := loadTokens_eq_ok_iff.1 load
    exact ⟨p, resolved, rfl⟩

/-! ## Programs only grow -/

/-- A line that is loaded extends the program. -/
lemma extends_of_loadLine {line : String} (load : m.loadLine line = .ok m') :
    m'.code.Extends m.code := by
  obtain ⟨tokens, q, -, -, rfl⟩ := exists_of_loadLine load
  exact .append m.code q

/-- Lines extend the program, whatever they ask for. -/
lemma keptByLines_extends (p : Program) : KeptByLines fun q => q.Extends p :=
  fun _ _ _ load longer => (extends_of_loadLine load).trans longer

/-- **Every operation but `reset` leaves a program that extends the one before**, as long as there
is an instruction in it. -/
theorem extends_of_leaves {op : Operation} (nonempty : ¬ m.isEmpty) (keeps : op ≠ .reset)
    (leaves : op.Leaves m m') : m'.code.Extends m.code := by
  cases op with
  | load p =>
    obtain rfl := leaves
    split
    · rename_i loaded load
      obtain ⟨-, -, rfl⟩ := load_eq_ok_iff.1 load
      simp only [if_neg nonempty]
      exact .append m.code p
    · exact .refl m.code
  | loadTokens tokens =>
    obtain rfl := leaves
    split
    · rename_i loaded load
      obtain ⟨p, -, rfl⟩ := loadTokens_eq_ok_iff.1 load
      exact .append m.code p
    · exact .refl m.code
  | step =>
    obtain rfl := leaves
    exact (code_step m).symm ▸ .refl m.code
  | run =>
    obtain ⟨fuel, o, run, rfl⟩ := leaves
    exact (code_run run).symm ▸ .refl m.code
  | interact =>
    obtain ⟨fuel, o, interact, rfl⟩ := leaves
    exact interact_kept (keptByLines_extends m.code) (.refl m.code) interact
  | debug =>
    obtain ⟨fuel, o, debug, rfl⟩ := leaves
    exact (code_debug debug).symm ▸ .refl m.code
  | goTo pc =>
    obtain rfl := leaves
    exact .refl m.code
  | feed bytes =>
    obtain rfl := leaves
    exact .refl m.code
  | reset => exact absurd rfl keeps

/-- An extension of what is not empty is not empty. -/
lemma not_isEmpty_of_extends (longer : n.code.Extends m.code) (nonempty : ¬ m.isEmpty) :
    ¬ n.isEmpty := by
  have le := longer.instructions.length_le
  simp only [isEmpty, Program.isEmpty, Array.isEmpty_iff_size_eq_zero, Array.length_toList]
    at le nonempty ⊢
  omega

/-- A program only grows. -/
theorem Continues.extends (nonempty : ¬ m.isEmpty) (continues : Continues m n) :
    n.code.Extends m.code := by
  induction continues with
  | start => exact .refl m.code
  | perform before permitted keeps leaves ih =>
    exact (extends_of_leaves (not_isEmpty_of_extends ih nonempty) keeps leaves).trans ih

/-- What is loaded stays where it is, as long as the program only grows. -/
lemma keepsLoaded_of_extends (wf : m.code.WellFormed)
    (longer : ¬ m.isEmpty → n.code.Extends m.code) : KeepsLoaded m n := by
  intro a i l instruction location
  have loaded : (m.code.indexOf? a).isSome := by
    rw [← Program.isSome_instructionAt?_iff, instruction]
    rfl
  have nonempty : ¬ m.isEmpty := by
    obtain ⟨k, index⟩ := Option.isSome_iff_exists.1 loaded
    have inside : k < m.code.instructions.size := (Program.indexOf?_eq_some_iff.1 index).2
    simp only [isEmpty, Program.isEmpty, Array.isEmpty_iff_size_eq_zero]
    omega
  obtain ⟨instructions, locations⟩ := (longer nonempty).lookup_eq wf loaded
  exact ⟨instructions.trans instruction, locations.trans location⟩

/-- **Loading is exact, and only adds.** A machine loads exactly the programs that fit behind what
is loaded, each of them as a whole (`LoadsExactly`). And whatever operations other than `reset`
follow, be it that they succeed or fail, each instruction stays at its address with its location: in
the machines that they leave, and wherever one of them takes a step, even if it never ends. -/
theorem loadsExactly_and_keepsLoaded (reachable : Reachable m) :
    m.LoadsExactly ∧ ∀ n, Continues m n →
      KeepsLoaded m n ∧ ∀ (op : Operation) (k : Machine), op.StepsAt n k → KeepsLoaded m k := by
  have wf := wellFormed_of_reachable reachable
  refine ⟨loadsExactly m, fun n continues => ⟨?_, fun op k steps => ?_⟩⟩
  · exact keepsLoaded_of_extends wf fun nonempty => continues.extends nonempty
  · exact keepsLoaded_of_extends wf fun nonempty =>
      (stepsAt_kept (keptByLines_extends m.code) steps (continues.extends nonempty)).2

/-- A machine that has loaded a program without instructions takes over the start of the next one.
After that it refuses a program that starts elsewhere, takes tokens behind the instruction that it
has, and keeps that one where it is. -/
theorem loadsExactly_and_keepsLoaded_rebased :
    ∃ m m' n : Machine, Reachable m ∧ m.isEmpty ∧ m.nextAddress = 5 ∧
      m.load ⟨9, #[.push 7], #[⟨"f", 1, 1⟩]⟩ = .ok m' ∧ m'.code.start = 9 ∧ m'.pc = 9 ∧
      m'.load ⟨12, #[.op .pop], #[⟨"g", 1, 1⟩]⟩ = .error (.addressMismatch 12 10) ∧
      Continues m' n ∧ n.code.instructions = #[.push 7, .push 11] ∧
      n.code.instructionAt? 9 = some (.push 7) ∧ n.code.locationAt? 9 = some ⟨"f", 1, 1⟩ := by
  let p : Program := ⟨9, #[.push 7], #[⟨"f", 1, 1⟩]⟩
  let q : Program := ⟨12, #[.op .pop], #[⟨"g", 1, 1⟩]⟩
  let ts : List SourceToken := [⟨.refer "x", ⟨"f", 2, 1⟩⟩, ⟨.define "x", ⟨"f", 2, 4⟩⟩]
  let m : Machine := ⟨Program.empty 5, 5, [], none, [], {}, {}⟩
  let m' : Machine := ⟨p, 9, [], none, [], {}, {}⟩
  let n : Machine := { m' with code :=
    ⟨9, #[.push 7, .push 11], #[⟨"f", 1, 1⟩, ⟨"f", 2, 1⟩]⟩ }
  have nothing : Operation.Permitted (.load (Program.empty 5)) := rfl
  have reachable : Reachable m := Reachable.perform (.fresh none [] {} {}) nothing rfl
  obtain ⟨loaded, load⟩ :=
    ((loadsExactly_and_keepsLoaded reachable).1.load p).2 ⟨by decide, .inl rfl⟩
  obtain rfl : loaded = m' := (loadsExactly_and_keepsLoaded reachable).1.loaded p loaded load
  have permitted : Operation.Permitted (.load p) := rfl
  have first : Reachable m' := Reachable.perform reachable permitted rfl
  obtain ⟨exactly, keeps⟩ := loadsExactly_and_keepsLoaded first
  have refused := (exactly.load_error q (.addressMismatch 12 10)).2
    (.inr ⟨by decide, by decide, by decide, by decide⟩)
  have tried : Continues m' m' := @Continues.perform _ _ _ (.load q) .start rfl nofun rfl
  have more : Continues m' n := @Continues.perform _ _ _ (.loadTokens ts) tried trivial nofun rfl
  obtain ⟨instruction, location⟩ := (keeps n more).1 9 (.push 7) ⟨"f", 1, 1⟩ (by decide) (by decide)
  exact ⟨m, m', n, reachable, rfl, rfl, load, rfl, rfl, refused, more, rfl, instruction, location⟩

end Machine

end StackAsm
