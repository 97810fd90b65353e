import StackAsm.Proofs.Compiler.Safety.Library

set_option autoImplicit false

/-!
# The limit of a number that is read

A compiled program reads an integer digit by digit and tests each digit before it takes it. The
number so far must never exceed what the sign permits, and the test must find out, without forming
the number with the digit behind it, whether that one would. Both are asked of all that the program
does under watch, next to what is asked of it anyway.

## Main definitions

* `StackAsm.Compiler.exceeds` — the test of a digit.
* `StackAsm.Compiler.WithinLimit` — the number so far is within its limit, and the test is exact.
* `StackAsm.Compiler.Careful` — what a program may do while it reads an integer.

## Main results

* `StackAsm.Compiler.careful_memory` — the states in which something is done carefully.
* `StackAsm.Compiler.Plain.careful` — expressions without effects.
-/

namespace StackAsm.Compiler

open C

/-! ## The limit -/

/-- The variable `x` of the function that is executed holds the unsigned number `n`. -/
def HoldsNumber (s : State) (x : String) (n : Nat) : Prop :=
  (namedVariable? s.locals x).bind Variable.value? = some (.int .uint64 n)

/-- The test whether a number exceeds its limit with one more digit. -/
def exceeds : Expr :=
  .bin .gt (.name "n") (.bin .div (.bin .sub (.name "limit") (.name "digit")) (.num 10))

/-- A number that is read is within its limit, and the test of a digit keeps it there. -/
structure WithinLimit (event : Event) : Prop where
  /-- Once there is a limit, there is a number so far, which is at most the limit. -/
  number : ∀ v, (namedVariable? event.state.locals "limit").bind Variable.value? = some v →
    ∃ limit n : Nat, v = .int .uint64 limit ∧ HoldsNumber event.state "n" n ∧ n ≤ limit
  /-- The test holds exactly if the number with the digit behind it exceeds the limit. -/
  test : ∀ v w, event.act = .apply exceeds .gt v w → ∃ limit n digit : Nat,
    HoldsNumber event.state "limit" limit ∧ HoldsNumber event.state "n" n ∧
      HoldsNumber event.state "digit" digit ∧
      BinOp.gt.apply v w = some (.ofBool (n * 10 + digit > limit))

/-- What a compiled program may do while it reads an integer. -/
structure Careful (size : Nat) (event : Event) : Prop where
  /-- It is allowed. -/
  allowed : Allowed size event
  /-- It leaves the number within the limit. -/
  within : WithinLimit event

section Careful

variable {size : Nat} {s : State} {stack free : List Word} {locals : List Variable}
  {input output diagnostics : Bytes} {act : Act}

/-- What may be done while an integer is read is what is allowed and keeps to the limit. -/
lemma careful_iff {event : Event} :
    Careful size event ↔ Allowed size event ∧ WithinLimit event :=
  ⟨fun careful => ⟨careful.1, careful.2⟩, fun ⟨allowed, within⟩ => ⟨allowed, within⟩⟩

/-- Whether the limit is kept to is told by the local variables and the act. -/
@[simp] lemma withinLimit_memory :
    WithinLimit ⟨memory stack free locals input output diagnostics, act⟩ ↔
      (∀ v, (namedVariable? locals "limit").bind Variable.value? = some v →
        ∃ limit n : Nat, v = .int .uint64 limit ∧
          (namedVariable? locals "n").bind Variable.value? = some (.int .uint64 n) ∧ n ≤ limit) ∧
      ∀ v w, act = .apply exceeds .gt v w → ∃ limit n digit : Nat,
        (namedVariable? locals "limit").bind Variable.value? = some (.int .uint64 limit) ∧
          (namedVariable? locals "n").bind Variable.value? = some (.int .uint64 n) ∧
          (namedVariable? locals "digit").bind Variable.value? = some (.int .uint64 digit) ∧
          BinOp.gt.apply v w = some (.ofBool (n * 10 + digit > limit)) :=
  ⟨fun within => ⟨within.1, within.2⟩, fun ⟨number, test⟩ => ⟨number, test⟩⟩

/-- What is done in a state that the memory of a compiled program has is careful if it is allowed
and the number is within the limit. -/
@[simp] theorem careful_memory :
    Careful size ⟨memory stack free locals input output diagnostics, act⟩ ↔
      (Fits size stack free ∧ Permitted (memory stack free locals input output diagnostics) act) ∧
        WithinLimit ⟨memory stack free locals input output diagnostics, act⟩ := by
  rw [careful_iff, allowed_memory]

/-- An operator that cannot wrap, or is meant to, is allowed where it has a value. -/
@[simp high] lemma ensures_bin_careful {op : BinOp} {scope : WatchedScope} {a b : Expr}
    {post : Value → State → Prop} (strict : op ≠ .and ∧ op ≠ .or)
    (free : op.wraps = false ∨ .bin op a b ∈ wrappingOperations) :
    ((Expr.bin op a b).watch scope).Ensures (Careful size) s post ↔
      (a.watch scope).Ensures (Careful size) s fun v s =>
        (b.watch scope).Ensures (Careful size) s fun w s =>
          (InBounds size s ∧ WithinLimit ⟨s, .apply (.bin op a b) op v w⟩) ∧
            (Eval.ofOption (op.apply v w) s).Meets post := by
  have same (v w : Value) (s : State) :
      (Careful size ⟨s, .apply (.bin op a b) op v w⟩ ∧
        (Eval.ofOption (op.apply v w) s).Meets post) ↔
      (InBounds size s ∧ WithinLimit ⟨s, .apply (.bin op a b) op v w⟩) ∧
        (Eval.ofOption (op.apply v w) s).Meets post := by
    cases value : op.apply v w with
    | none => simp
    | some r => simp [careful_iff, allowed_iff, permitted_of_apply value free]
  rw [Expr.ensures_bin strict]
  simp only [same]

end Careful

/-! ## Expressions without effects -/

/-- The test of a digit forms a difference that might wrap. -/
lemma not_plain_exceeds : ¬ Plain exceeds := by
  intro plain
  cases plain with
  | bin _ _ quotient =>
    cases quotient with
    | bin _ difference _ =>
      cases difference with
      | bin free _ _ => simp [wrappingOperations] at free

section Plain

variable {size : Nat} {scope : WatchedScope} {e : Expr} {s : State}

/-- An expression without effects is no test of a digit. -/
lemma WithinLimit.plain {op : BinOp} {v w : Value} (within : WithinLimit ⟨s, .arrive⟩)
    (plain : Plain e) : WithinLimit ⟨s, .apply e op v w⟩ where
  number := within.number
  test _ _ same := by
    cases same
    exact absurd plain not_plain_exceeds

/-- An expression without effects is careful where it has a value, and changes nothing. -/
theorem Plain.careful (plain : Plain e) (careful : Careful size ⟨s, .arrive⟩) {v : Value}
    (value : e.eval scope.erase s = .ok v s) :
    (e.watch scope).Ensures (Careful size) s fun r after => r = v ∧ after = s := by
  obtain ⟨allowed, result⟩ := (plain.harmless careful.allowed.inBounds v s value).2
  have steady : (e.watch scope).Steady WithinLimit s :=
    plain.steady fun _ _ _ _ plain => careful.within.plain plain
  exact ⟨fun e noted => ⟨allowed e noted, steady.1 e noted⟩, result⟩

/-- What follows a test without effects. -/
lemma Plain.careful_ifThen (plain : Plain e) (careful : Careful size ⟨s, .arrive⟩) {p : Bool}
    (value : e.eval scope.erase s = .ok (.ofBool p) s) {fuel : Nat} {body : Stmt}
    {post : Flow → State → Prop}
    (next : if p then (body.watch scope fuel none).Ensures (Careful size) s post
      else post .next s) :
    ((Stmt.ifThen e body).watch scope fuel none).Ensures (Careful size) s post := by
  rw [Stmt.ensures_ifThen, Expr.ensures_watchTest]
  refine (plain.careful careful value).mono ?_
  rintro _ _ ⟨rfl, rfl⟩
  simpa using next

end Plain

end StackAsm.Compiler
