import StackAsm.Proofs.Reachable
import StackAsm.Proofs.Resolution.Parts

set_option autoImplicit false

/-!
# Loading in parts

Tokens that share no label with others, and refer to no label of these, may be loaded on their own.
It makes no difference whether a machine loads the parts one behind the other or all at once: a
label that is defined twice, a name that is defined nowhere and an address that is no word are found
in some part exactly if they are found in the whole.

## Main results

* `StackAsm.Resolution.exists_resolve_append` — what resolves as a whole resolves in parts.
* `StackAsm.Machine.loadTokens_append_iff` — a machine loads parts exactly if it loads the whole,
  and is the same machine afterwards.
-/

namespace StackAsm

namespace Resolution

variable {ts us : List SourceToken} {start : Address}

/-- Tokens that resolve as a whole resolve in parts, one behind the other, if no part refers to the
labels of the other one. -/
theorem exists_resolve_append (whole : ∃ p, resolve (ts ++ us) start = .ok p)
    (known : ∀ name ∈ referenced ts, name ∈ defined ts)
    (known' : ∀ name ∈ referenced us, name ∈ defined us) :
    (∃ p, resolve ts start = .ok p) ∧
      ∀ next : Address, next.toInt = start.toInt + (occupying ts).length →
        ∃ q, resolve us next = .ok q := by
  obtain ⟨nodup, -, fits⟩ := (exists_resolve_iff _ _).1 whole
  rw [defined_append] at nodup
  rw [occupying_append, List.length_append] at fits
  refine ⟨(exists_resolve_iff _ _).2 ⟨nodup.of_append_left, known, by omega⟩, ?_⟩
  intro next follows
  exact (exists_resolve_iff _ _).2 ⟨nodup.of_append_right, known', by omega⟩

end Resolution

namespace Machine

variable {m n : Machine} {tokens : List SourceToken} {p : Program}

/-- To append two programs to a machine, one after the other, is to append both in one. -/
lemma append_append (m : Machine) (p q : Program) :
    (m.append p).append q = m.append (p.append q) := by
  simp [append, Program.append, Array.append_assoc]

/-- Loading puts the program that the tokens stand for behind the one loaded. -/
lemma loadTokens_eq_ok_iff :
    m.loadTokens tokens = .ok n ↔
      ∃ p, Resolution.resolve tokens m.nextAddress = .ok p ∧ n = m.append p := by
  unfold loadTokens
  cases Resolution.resolve tokens m.nextAddress <;> simp [eq_comm]

/-- The next free address moves on by the tokens loaded that take an address. -/
lemma toInt_nextAddress_append (wf : m.code.WellFormed)
    (resolved : Resolution.resolve tokens m.nextAddress = .ok p) :
    (m.append p).nextAddress.toInt =
      m.nextAddress.toInt + (Resolution.occupying tokens).length := by
  have longer : (m.append p).code.WellFormed :=
    wellFormed_of_loadTokens wf (loadTokens_eq_ok_iff.2 ⟨p, resolved, rfl⟩)
  have code : (m.append p).code = m.code.append p := rfl
  rw [toInt_nextAddress longer, toInt_nextAddress wf, code, Program.length_append,
    Resolution.length_of_resolve resolved, Int.natCast_add, Int.add_assoc]
  rfl

/-- **Loading in parts is loading at once.** Let each of two lists of tokens refer to its own labels
alone, and let no name be defined in both of them. Then a machine loads the first list and behind it
the second one exactly if it loads both at once, and either way it is the same machine afterwards:
its base address, both its tables, its program counter, its stack and its streams are the same. -/
theorem loadTokens_append_iff (reachable : Reachable m) {ts us : List SourceToken}
    (known : ∀ name ∈ Resolution.referenced ts, name ∈ Resolution.defined ts)
    (known' : ∀ name ∈ Resolution.referenced us, name ∈ Resolution.defined us)
    (disjoint : (Resolution.defined ts).Disjoint (Resolution.defined us)) (n : Machine) :
    (∃ m', m.loadTokens ts = .ok m' ∧ m'.loadTokens us = .ok n) ↔
      m.loadTokens (ts ++ us) = .ok n := by
  have wf := wellFormed_of_reachable reachable
  constructor
  · rintro ⟨m', first, second⟩
    obtain ⟨p, resolved, rfl⟩ := loadTokens_eq_ok_iff.1 first
    obtain ⟨q, resolved', rfl⟩ := loadTokens_eq_ok_iff.1 second
    have follows := toInt_nextAddress_append wf resolved
    have whole := Resolution.resolve_append resolved resolved' follows disjoint
    exact loadTokens_eq_ok_iff.2 ⟨p.append q, whole, append_append m p q⟩
  · intro load
    obtain ⟨w, whole, rfl⟩ := loadTokens_eq_ok_iff.1 load
    obtain ⟨⟨p, resolved⟩, behind⟩ := Resolution.exists_resolve_append ⟨w, whole⟩ known known'
    have follows := toInt_nextAddress_append wf resolved
    obtain ⟨q, resolved'⟩ := behind _ follows
    obtain rfl : p.append q = w :=
      Except.ok.inj ((Resolution.resolve_append resolved resolved' follows disjoint).symm.trans
        whole)
    exact ⟨m.append p, loadTokens_eq_ok_iff.2 ⟨p, resolved, rfl⟩,
      loadTokens_eq_ok_iff.2 ⟨q, resolved', (append_append m p q).symm⟩⟩

/-- A machine with a value on its stack takes two lists of tokens, each with a label of its own, up
to the last address that there is. -/
theorem loadTokens_append_iff_last_address :
    ∃ m m' n : Machine, Reachable m ∧ m.stack = [7] ∧
      m.loadTokens [⟨.refer "x", ⟨"f", 1, 1⟩⟩, ⟨.define "x", ⟨"f", 1, 4⟩⟩] = .ok m' ∧
      m'.loadTokens [⟨.define "y", ⟨"f", 2, 1⟩⟩, ⟨.refer "y", ⟨"f", 2, 5⟩⟩] = .ok n ∧
      n.code.instructions =
        #[.push 7, .push (Int64.maxValue - 1), .push (Int64.maxValue - 1)] ∧
      n.nextAddress = Int64.maxValue ∧ n.stack = [7] := by
  let ts : List SourceToken := [⟨.refer "x", ⟨"f", 1, 1⟩⟩, ⟨.define "x", ⟨"f", 1, 4⟩⟩]
  let us : List SourceToken := [⟨.define "y", ⟨"f", 2, 1⟩⟩, ⟨.refer "y", ⟨"f", 2, 5⟩⟩]
  let m : Machine :=
    ⟨⟨Int64.maxValue - 3, #[.push 7], #[⟨"f", 1, 1⟩]⟩, Int64.maxValue - 2, [7], none, [], {}, {}⟩
  let n : Machine := { m with code := ⟨Int64.maxValue - 3,
    #[.push 7, .push (Int64.maxValue - 1), .push (Int64.maxValue - 1)],
    #[⟨"f", 1, 1⟩, ⟨"f", 1, 1⟩, ⟨"f", 2, 5⟩]⟩ }
  have permitted : Operation.Permitted
    (.load ⟨Int64.maxValue - 3, #[.push 7], #[⟨"f", 1, 1⟩]⟩) := rfl
  have loaded := Reachable.perform (.fresh none [] {} {}) permitted rfl
  have reachable : Reachable m := @Reachable.perform _ _ .step loaded trivial rfl
  have disjoint : (Resolution.defined ts).Disjoint (Resolution.defined us) := by
    change ["x"].Disjoint ["y"]
    simp
  have whole : m.loadTokens (ts ++ us) = .ok n := by cbv
  obtain ⟨m', first, second⟩ :=
    (loadTokens_append_iff reachable (by decide) (by decide) disjoint n).2 whole
  exact ⟨m, m', n, reachable, rfl, first, second, rfl, by decide, rfl⟩

end Machine

end StackAsm
