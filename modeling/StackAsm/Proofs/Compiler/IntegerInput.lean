import StackAsm.Proofs.Compiler.Safety.Program

set_option autoImplicit false

/-!
# Compiled programs read integers as machines do

A machine collects the digits of an integer and finds out what they are worth when it has them all.
A compiled program computes with each digit as it comes, in unsigned numbers, and gives up at the
first one that is too many. Both accept the same inputs, take the same bytes off them and come to
the same word.

## Main results

* `StackAsm.Compiler.watchItems_toC` — what is in scope in a compiled program.
* `StackAsm.Compiler.read_cases` — what becomes of an input, on a machine and in a compiled program.
* `StackAsm.Program.toC_readInt_mirrors_readInteger` — the two ways of reading agree.
-/

namespace StackAsm

namespace Compiler

open C

/-! ## What is in scope -/

/-- What is in scope in a compiled program when its main function is called, under watch. -/
def watchedProgram (p : Program) (size fuel : Nat) : WatchedScope :=
  watchedScope size fuel (main p :: libraryFunctions)

/-- A compiled program defines the functions of its library and then its main function. -/
theorem watchItems_toC (p : Program) {size : Nat} (bound : size < 2 ^ 63) (fuel : Nat)
    (input : Bytes) :
    ((p.toC size).watchItems fuel ⟨[], []⟩).erase (State.initial input) =
      .ok (watchedProgram p size fuel)
        (memory [] (List.replicate (max size 1) 0) [] input [] []) := by
  -- Without its notes, this is what the program declares, so it has a result.
  have declares : ∃ visible s, ((p.toC size).watchItems fuel ⟨[], []⟩ >>= fun visible =>
      pure visible.erase).erase (State.initial input) = .ok visible s := by
    rw [Source.erase_watchItems_bind (g := pure) _ _ _ fun _ => rfl, Eval.bind_run,
      WatchedScope.erase, List.map_nil, declare_toC p bound]
    exact ⟨_, _, rfl⟩
  obtain ⟨_, _, declares⟩ := declares
  rw [Watched.erase_bind, Eval.bind_eq_ok_iff] at declares
  obtain ⟨visible, s, ends, -⟩ := declares
  have known : ((p.toC size).watchItems fuel ⟨[], []⟩).Ensures (fun _ => True)
      (State.initial input) _ := ensures_watchItems_toC p bound input
  rw [Watched.erase] at ends ⊢
  rw [Watched.Ensures, ends] at known
  obtain ⟨-, rfl, rfl⟩ := known
  exact ends

section Read

variable (p : Program) (size : Nat) {fuel : Nat} {m : Machine} (l : Location)
  (stack free : List Word) (pc a b t : Word) (input output diagnostics : Bytes)

variable (fuel) {size stack free} in
/-- Where the main function reads an integer, the number so far is within its limit and the test of
a digit is exact. -/
lemma withinLimit_readInt (fits : Fits size stack free) :
    ∀ e ∈ (Watched.callFunction (watchedProgram p size fuel) "read_int" []
      (memory stack free (mainVars pc a b t) input output diagnostics)).1, WithinLimit e := by
  rw [watchedProgram, watchedCall_cons_of_ne _ _ _ _ (show "read_int" ≠ "main" by decide)]
  exact (ensures_call_readInt fits (fun _ careful => careful.within) (by simp [mainVars])).1

/-- Either a machine and a compiled program read the same word and leave the same bytes, or both of
them fail. -/
theorem read_cases (enough : m.input.length < fuel) :
    (∃ (w : Word) (rest : Bytes),
      callFunction (watchedProgram p size fuel).erase "read_int" []
          (memory stack free (mainVars pc a b t) m.input output diagnostics) =
        .ok (.int .int64 w.toInt) (memory stack free (mainVars pc a b t) rest output diagnostics) ∧
      m.readInteger l = { m with input := rest }.advance (w :: m.stack)) ∨
    ∃ (fault : InputFault) (unread rest : Bytes),
      callFunction (watchedProgram p size fuel).erase "read_int" []
          (memory stack free (mainVars pc a b t) m.input output diagnostics) =
        failure "invalid input" stack free unread output diagnostics ∧
      m.readInteger l = .failed (.invalidInput fault l) { m with input := rest } := by
  rw [watchedProgram, erase_watchedScope,
    callFunction_cons_of_ne _ _ _ _ (show "read_int" ≠ "main" by decide)]
  obtain ⟨unread, reads | ⟨-, few⟩⟩ :=
    call_readInt size fuel stack free (mainVars pc a b t) m.input output diagnostics
  · cases value : (Numeral.split m.input).value with
    | ok w =>
      rw [value] at reads
      exact .inl ⟨w, _, reads, by rw [Machine.readInteger, value]⟩
    | error fault =>
      rw [value] at reads
      exact .inr ⟨fault, unread, _, reads, by rw [Machine.readInteger, value]⟩
  · exact absurd enough (Nat.not_lt.2 few)

end Read

end Compiler

open C Compiler

/-- **Compiled programs read integers as machines do.** Take a machine, a compiled program and a
state in which the main function is about to read an integer off the input of the machine, and more
turns for loops than the input has bytes. `read_int`, as the program defines it, returns a value
exactly if the machine reads an integer; then the value is the word that the machine pushes, and the
input that is left is the same. It ends the program for invalid input exactly if the machine fails
for invalid input. All the while the number read so far is at most its limit, and the test of a
digit says whether the number with the digit behind it exceeds the limit. -/
theorem Program.toC_readInt_mirrors_readInteger (p : Program) (size : Nat) (m : Machine)
    (l : Location) {fuel : Nat} (enough : m.input.length < fuel) {stack free : List Word}
    (fits : Fits size stack free) (pc a b t : Word) (output diagnostics : Bytes) :
    (size < 2 ^ 63 → ((p.toC size).watchItems fuel ⟨[], []⟩).erase (State.initial m.input) =
      .ok (watchedProgram p size fuel)
        (memory [] (List.replicate (max size 1) 0) [] m.input [] [])) ∧
    ∃ events r,
      Watched.callFunction (watchedProgram p size fuel) "read_int" []
        (memory stack free (mainVars pc a b t) m.input output diagnostics) = (events, r) ∧
      callFunction (watchedProgram p size fuel).erase "read_int" []
        (memory stack free (mainVars pc a b t) m.input output diagnostics) = r ∧
      ((∃ v s, r = .ok v s) ↔ ∃ m', m.readInteger l = .done m') ∧
      (∀ v s m', r = .ok v s → m.readInteger l = .done m' → ∃ w : Word,
        v = .int .int64 w.toInt ∧ m'.stack = w :: m.stack ∧
          s = memory stack free (mainVars pc a b t) m'.input output diagnostics) ∧
      ((∃ unread, r = failure "invalid input" stack free unread output diagnostics) ↔
        ∃ fault m', m.readInteger l = .failed (.invalidInput fault l) m') ∧
      ∀ e ∈ events, WithinLimit e := by
  refine ⟨fun bound => watchItems_toC p bound fuel m.input, ?_⟩
  have within := withinLimit_readInt p fuel pc a b t m.input output diagnostics fits
  have outcome := read_cases p size l stack free pc a b t output diagnostics enough
  rw [← Watched.erase_callFunction, Watched.erase] at outcome ⊢
  generalize Watched.callFunction (watchedProgram p size fuel) "read_int" []
    (memory stack free (mainVars pc a b t) m.input output diagnostics) = call at outcome within ⊢
  refine ⟨call.1, call.2, rfl, rfl, ?_⟩
  rcases outcome with ⟨w, rest, returns, reads⟩ | ⟨fault, unread, rest, fails, stops⟩
  · rw [returns, reads]
    refine ⟨by simp [Machine.advance], ?_, by simp [Machine.advance, Compiler.failure], within⟩
    rintro _ _ _ ⟨⟩ ⟨⟩
    exact ⟨w, rfl, rfl, rfl⟩
  · rw [fails, stops]
    refine ⟨by simp [Compiler.failure], ?_, iff_of_true ⟨unread, rfl⟩ ⟨fault, _, rfl⟩, within⟩
    rintro _ _ _ ⟨⟩

/-- A tab, a minus sign, zeros and the absolute value of the least word, which is no word itself.
Digits are tested on the way. -/
theorem Program.toC_readInt_least_word :
    ∃ (p : Program) (m : Machine) (events : List Event) (s : State),
      m.input = Utf8.encode "\t-0009223372036854775808x" ∧
      Watched.callFunction (watchedProgram p 1 26) "read_int" []
        (memory [] [0] (mainVars 0 0 0 0) m.input [] []) =
          (events, .ok (.int .int64 (-9223372036854775808)) s) ∧
      s.input = [120] ∧ (∀ e ∈ events, WithinLimit e) ∧
      ∃ e ∈ events, ∃ v w, e.act = .apply exceeds .gt v w := by
  let l : Location := ⟨"f", 1, 1⟩
  let p : Program := ⟨0, #[.op .read], #[l]⟩
  let input : Bytes := [9, 45, 48, 48, 48, 57, 50, 50, 51, 51, 55, 50, 48, 51, 54, 56, 53, 52, 55,
    55, 53, 56, 48, 56, 120]
  let m : Machine := ⟨p, 0, [], none, input, {}, {}⟩
  have reads : m.readInteger l = .done ⟨p, 1, [Int64.minValue], none, [120], {}, {}⟩ := rfl
  have tested : ((Watched.callFunction (watchedProgram p 1 26) "read_int" []
      (memory [] [0] (mainVars 0 0 0 0) m.input [] [])).1.any fun e =>
        match e.act with
        | .apply (.bin .gt (.name "n") (.bin .div (.bin .sub (.name "limit") (.name "digit"))
            (.num 10))) .gt _ _ => true
        | _ => false) = true := by
    decide +kernel
  obtain ⟨-, events, r, call, -, returns, same, -, within⟩ :=
    toC_readInt_mirrors_readInteger p 1 m l (show m.input.length < 26 by decide)
      (show Fits 1 [] [0] from ⟨by decide, by decide⟩) 0 0 0 0 [] []
  obtain ⟨v, s, rfl⟩ := returns.2 ⟨_, reads⟩
  obtain ⟨w, rfl, top, rfl⟩ := same _ _ _ rfl reads
  cases top
  rw [call] at tested
  obtain ⟨e, noted, found⟩ := List.any_eq_true.1 tested
  refine ⟨p, m, events, _, by decide +kernel, call, rfl, within, e, noted, ?_⟩
  split at found
  · rename_i v w test
    exact ⟨v, w, test⟩
  · cases found

end StackAsm
