import StackAsm.Proofs.C.Ensures
import StackAsm.Proofs.Compiler.Memory

set_option autoImplicit false

/-!
# What compiled programs may do

A compiled program under watch must keep its stack pointer between zero and the size of its stack,
access only elements that its array has, and apply operators only where C gives them a meaning. Its
unsigned sums, products and differences must be exact, too, although C lets them wrap; but for some
that are meant to wrap.

## Main definitions

* `StackAsm.C.BinOp.Defined`, `StackAsm.C.BinOp.Exact` — what is asked of an operator.
* `StackAsm.Compiler.wrappingOperations` — the operations that are meant to wrap.
* `StackAsm.Compiler.Allowed` — what a compiled program may do, and in which states.
* `StackAsm.Compiler.Fits` — a stack fits into the array.

## Main results

* `StackAsm.Compiler.allowed_memory` — the states that are allowed.
* `StackAsm.Compiler.ensures_count` — a counter that moves on by one.
-/

namespace StackAsm

namespace C

/-! ## Operators -/

/-- The operands of an operator, brought to their common type. -/
def Value.common? : Value → Value → Option (CType × Int × Int)
  | .int t a, .int u b => some (t.common u, (t.common u).convert a, (t.common u).convert b)
  | _, _ => none

/-- The result of an arithmetic operator on integers, which have no greatest one. -/
def BinOp.onIntegers? (op : BinOp) (a b : Int) : Option Int :=
  match op with
  | mul => some (a * b)
  | div => some (a.tdiv b)
  | add => some (a + b)
  | sub => some (a - b)
  | lt | gt | le | ge | eq | ne | and | or => none

/-- The type of the operands holds the result of an operator on integers. -/
def BinOp.Exact (op : BinOp) (type : CType) (a b : Int) : Prop :=
  ∀ n, op.onIntegers? a b = some n → type.Holds n

/-- An operator does nothing on operands of a type that has no meaning in C. -/
structure BinOp.Defined (op : BinOp) (type : CType) (a b : Int) : Prop where
  /-- No divisor is zero. -/
  divisor : op = .div → b ≠ 0
  /-- The least word is not divided by minus one. -/
  quotient : op = .div → ¬ (a = Int64.minValue.toInt ∧ b = -1)
  /-- No signed operation overflows. -/
  signed : type.isSigned → op.Exact type a b

/-- A signed result is in its type. -/
lemma CType.holds_of_result? {type : CType} {n : Int} {v : Value}
    (result : type.result? n = some v) (signed : type.isSigned) : type.Holds n := by
  rw [CType.result?, if_pos signed] at result
  by_contra outside
  rw [if_neg outside] at result
  cases result

/-- The common type of two operands has signs, or it is that of the unsigned numbers. -/
lemma CType.isSigned_common_or (t u : CType) :
    (t.common u).isSigned ∨ t.common u = .uint64 := by
  unfold common
  split
  · exact .inr rfl
  · split
    · exact .inl rfl
    · exact .inl rfl

/-- An operator that has a value has it on the operands of a common type. If that has no signs, they
are natural numbers. -/
lemma BinOp.onCommon_of_apply {op : BinOp} {left right v : Value} {type : CType} {a b : Int}
    (value : op.apply left right = some v)
    (operands : Value.common? left right = some (type, a, b)) :
    op.onCommon type a b = some v ∧
      (type.isSigned ∨ type = .uint64 ∧ ∃ m n : Nat, a = m ∧ m < 2 ^ 64 ∧ b = n) := by
  cases left with
  | int t x =>
    cases right with
    | int u y =>
      cases operands
      refine ⟨value, (CType.isSigned_common_or t u).imp id fun unsigned => ⟨unsigned, ?_⟩⟩
      rw [unsigned]
      exact ⟨_, _, rfl, UInt64.toNat_lt _, rfl⟩
    | _ => cases operands
  | _ => cases operands

/-- A division with a value has a divisor other than zero and a quotient in range. -/
lemma BinOp.result_of_div {type : CType} {a b : Int} {v : Value}
    (value : BinOp.div.onCommon type a b = some v) : b ≠ 0 ∧ type.result? (a.tdiv b) = some v := by
  rw [onCommon] at value
  split at value
  · cases value
  · exact ⟨‹_›, value⟩

/-- A signed operator that has a value is exact. -/
lemma BinOp.exact_of_signed {op : BinOp} {type : CType} {a b : Int} {v : Value}
    (value : op.onCommon type a b = some v) (signed : type.isSigned) : op.Exact type a b := by
  intro n exact
  cases op with
  | div =>
    cases exact
    exact CType.holds_of_result? (result_of_div value).2 signed
  | mul | add | sub =>
    cases exact
    exact CType.holds_of_result? value signed
  | _ => cases exact

/-- Where an operator has a value, it has a meaning. -/
lemma BinOp.defined_of_apply {op : BinOp} {left right v : Value} {type : CType} {a b : Int}
    (value : op.apply left right = some v)
    (operands : Value.common? left right = some (type, a, b)) : op.Defined type a b := by
  obtain ⟨value, types⟩ := onCommon_of_apply value operands
  refine ⟨?_, ?_, exact_of_signed value⟩
  · rintro rfl
    exact (result_of_div value).1
  · rintro rfl ⟨rfl, rfl⟩
    rcases types with signed | ⟨-, m, -, least, -⟩
    · have holds := exact_of_signed value signed _ rfl
      cases type with
      | int | int64 => exact absurd holds (by decide)
      | _ => cases signed
    · have natural := Int.natCast_nonneg m
      rw [← least] at natural
      exact absurd natural (by decide)

/-- The operators that may wrap on unsigned numbers. -/
@[simp] def BinOp.wraps : BinOp → Bool
  | mul | add | sub => true
  | div | lt | gt | le | ge | eq | ne | and | or => false

/-- An operator that has a value is exact if it is signed or cannot wrap. -/
lemma BinOp.exact_of_apply {op : BinOp} {left right v : Value} {type : CType} {a b : Int}
    (value : op.apply left right = some v)
    (operands : Value.common? left right = some (type, a, b))
    (free : type.isSigned ∨ op.wraps = false) : op.Exact type a b := by
  obtain ⟨value, signed | ⟨rfl, m, n, rfl, small, rfl⟩⟩ := onCommon_of_apply value operands
  · exact exact_of_signed value signed
  · have free : op.wraps = false := free.resolve_left (by decide)
    intro k exact
    cases op with
    | div =>
      cases exact
      rw [← Int.ofNat_tdiv]
      exact CType.convert_uint64_natCast (Nat.lt_of_le_of_lt (Nat.div_le_self m n) small)
    | mul | add | sub => cases free
    | _ => cases exact

end C

namespace Compiler

open C

/-! ## Events -/

/-- The operations on unsigned numbers that are meant to wrap: those that stand for the operations
on words, and the one that gives a number its sign. -/
def wrappingOperations : List Expr :=
  [.bin .add (.cast .uint64 (.name "a")) (.cast .uint64 (.name "b")),
    .bin .sub (.cast .uint64 (.name "a")) (.cast .uint64 (.name "b")),
    .bin .mul (.cast .uint64 (.name "a")) (.cast .uint64 (.name "b")),
    .bin .sub (.num 0) (.name "n")]

/-- What a program may do in a state. -/
def Permitted (s : State) : Act → Prop
  | .arrive => True
  | .access index => ∃ t n, index = .int t n ∧ 0 ≤ n ∧ n < s.array.length
  | .apply e op left right => ∀ type a b, Value.common? left right = some (type, a, b) →
    op.Defined type a b ∧ (e ∉ wrappingOperations → op.Exact type a b)

/-- The stack pointer of a program is in its range, and the array has its length. -/
structure InBounds (size : Nat) (s : State) : Prop where
  /-- The stack pointer is neither negative nor greater than the size of the stack. -/
  pointer : ∃ n : Int, 0 ≤ n ∧ n ≤ size ∧
    (namedVariable? s.globals "sp").bind Variable.value? = some (.int .int64 n)
  /-- There is an element even if the stack has none. -/
  length : s.array.length = max size 1

/-- What a compiled program may do, and in which states. -/
structure Allowed (size : Nat) (event : Event) : Prop where
  /-- The state has its bounds. -/
  inBounds : InBounds size event.state
  /-- What is done may be done in it. -/
  permitted : Permitted event.state event.act

/-- A stack, and what is behind it in the array, have the size that they should. -/
structure Fits (size : Nat) (stack free : List Word) : Prop where
  /-- There is room for the stack. -/
  few : stack.length ≤ size
  /-- The array is full. -/
  full : stack.length + free.length = max size 1

/-- A stack that a value is pushed to fits if there was room for it. -/
lemma Fits.push {size : Nat} {stack free : List Word} {x : Word}
    (fits : Fits size stack (x :: free)) (room : stack.length < size) (v : Word) :
    Fits size (v :: stack) free := by
  refine ⟨room, ?_⟩
  rw [← fits.full, List.length_cons, List.length_cons]
  omega

/-- A stack that a value is popped from fits, whatever is left in its place. -/
lemma Fits.pop {size : Nat} {stack free : List Word} {x : Word}
    (fits : Fits size (x :: stack) free) (v : Word) : Fits size stack (v :: free) := by
  refine ⟨Nat.le_of_succ_le fits.few, ?_⟩
  rw [← fits.full, List.length_cons, List.length_cons]
  omega

/-- There is an element behind a stack that has room for one more value. -/
lemma Fits.exists_cons {size : Nat} {stack free : List Word} (fits : Fits size stack free)
    (room : stack.length < size) : ∃ x rest, free = x :: rest := by
  refine List.exists_cons_of_ne_nil fun none => ?_
  have full := fits.full
  rw [none, List.length_nil] at full
  omega

section Events

variable {size : Nat} {s : State} {stack free : List Word} {locals : List Variable}
  {input output diagnostics : Bytes} {act : Act} {e : Expr} {op : BinOp}

/-- What is allowed is what is permitted within the bounds. -/
lemma allowed_iff : Allowed size ⟨s, act⟩ ↔ InBounds size s ∧ Permitted s act :=
  ⟨fun allowed => ⟨allowed.1, allowed.2⟩, fun ⟨bounds, permitted⟩ => ⟨bounds, permitted⟩⟩

/-- The state for a stack is within its bounds exactly if the stack fits. -/
@[simp] lemma inBounds_memory :
    InBounds size (memory stack free locals input output diagnostics) ↔ Fits size stack free := by
  have length : (memory stack free locals input output diagnostics).array.length =
      stack.length + free.length := by simp [memory]
  constructor
  · rintro ⟨⟨n, -, most, value⟩, room⟩
    obtain rfl : (stack.length : Int) = n := by simpa [memory] using value
    exact ⟨by omega, length ▸ room⟩
  · intro fits
    exact ⟨⟨stack.length, by omega, Int.ofNat_le.2 fits.few, rfl⟩, length.trans fits.full⟩

/-- What is done in a state that the memory of a compiled program has is allowed if the stack fits,
and what is done is permitted. -/
@[simp] theorem allowed_memory :
    Allowed size ⟨memory stack free locals input output diagnostics, act⟩ ↔
      Fits size stack free ∧ Permitted (memory stack free locals input output diagnostics) act := by
  rw [allowed_iff, inBounds_memory]

/-- To arrive at a state is always permitted. -/
@[simp] lemma permitted_arrive : Permitted s .arrive := True.intro

/-- An element of the array may be accessed. -/
lemma permitted_access {k : Nat} (t : CType) (inside : k < stack.length + free.length) :
    Permitted (memory stack free locals input output diagnostics) (.access (.int t k)) := by
  refine ⟨t, k, rfl, by omega, ?_⟩
  simp [memory]
  omega

/-- An operation that has a value is permitted if it cannot wrap, or is meant to. -/
lemma permitted_of_apply {left right v : Value} (value : op.apply left right = some v)
    (free : op.wraps = false ∨ e ∈ wrappingOperations) :
    Permitted s (.apply e op left right) :=
  fun _ _ _ operands => ⟨BinOp.defined_of_apply value operands, fun other =>
    BinOp.exact_of_apply value operands (.inr (free.resolve_right other))⟩

/-- A signed operation that has a value is permitted. -/
lemma permitted_of_signed {t u : CType} {a b : Int} {v : Value}
    (value : op.apply (.int t a) (.int u b) = some v) (signed : (t.common u).isSigned) :
    Permitted s (.apply e op (.int t a) (.int u b)) := by
  rintro type m n operands
  have same := operands
  cases same
  exact ⟨BinOp.defined_of_apply value operands, fun _ =>
    BinOp.exact_of_apply value operands (.inl signed)⟩

/-- An operation that is exact is permitted if it is no division. -/
lemma permitted_of_exact {t u : CType} {a b : Int} (other : op ≠ .div)
    (exact : op.Exact (t.common u) ((t.common u).convert a) ((t.common u).convert b)) :
    Permitted s (.apply e op (.int t a) (.int u b)) := by
  rintro type a b ⟨⟩
  exact ⟨⟨fun h => absurd h other, fun h => absurd h other, fun _ => exact⟩, fun _ => exact⟩

/-- An operator that cannot wrap, or is meant to, is allowed where it has a value. -/
@[simp high] lemma ensures_bin_allowed {scope : WatchedScope} {a b : Expr}
    {post : Value → State → Prop} (strict : op ≠ .and ∧ op ≠ .or)
    (free : op.wraps = false ∨ .bin op a b ∈ wrappingOperations) :
    ((Expr.bin op a b).watch scope).Ensures (Allowed size) s post ↔
      (a.watch scope).Ensures (Allowed size) s fun v s =>
        (b.watch scope).Ensures (Allowed size) s fun w s =>
          InBounds size s ∧ (Eval.ofOption (op.apply v w) s).Meets post := by
  have same (v w : Value) (s : State) :
      (Allowed size ⟨s, .apply (.bin op a b) op v w⟩ ∧
        (Eval.ofOption (op.apply v w) s).Meets post) ↔
      InBounds size s ∧ (Eval.ofOption (op.apply v w) s).Meets post := by
    cases value : op.apply v w with
    | none => simp
    | some r => simp [allowed_iff, permitted_of_apply value free]
  rw [Expr.ensures_bin strict]
  simp only [same]

/-- The negation of a literal does what is allowed within the bounds. -/
@[simp high] lemma ensures_neg_allowed {scope : WatchedScope} {n : Nat}
    {post : Value → State → Prop} :
    ((Expr.neg (.num n)).watch scope).Ensures (Allowed size) s post ↔
      (Eval.ofOption (Value.ofNat? n) s).Meets fun v s =>
        InBounds size s ∧ (Eval.ofOption (BinOp.sub.apply (.int .int 0) v) s).Meets post := by
  have same {t : CType} (signed : (CType.common .int t).isSigned) :
      (Allowed size ⟨s, .apply (.neg (.num n)) .sub (.int .int 0) (.int t n)⟩ ∧
        (Eval.ofOption (BinOp.sub.apply (.int .int 0) (.int t n)) s).Meets post) ↔
      InBounds size s ∧
        (Eval.ofOption (BinOp.sub.apply (.int .int 0) (.int t n)) s).Meets post := by
    cases value : BinOp.sub.apply (.int .int 0) (.int t n) with
    | none => simp
    | some r => simp [allowed_iff, permitted_of_signed value signed]
  rw [Expr.ensures_neg, Expr.ensures_num, Value.ofNat?]
  split
  · exact same rfl
  · split
    · exact same rfl
    · exact Iff.rfl

/-- A counter that moves by one, or by any other number that keeps it a word. -/
theorem ensures_count {scope : WatchedScope} {x : String} {n k : Int} {after : State}
    {post : Value × Value → State → Prop} (old : Word.InRange n)
    (step : Word.InRange k) (new : Word.InRange (n + k))
    (read : readName scope.erase x s = .ok (.int .int64 n) s)
    (write : writeName x (.int .int64 (n + k)) s = .ok (.int .int64 (n + k)) after) :
    (Watched.addToName scope e x k).Ensures (Allowed size) s post ↔
      InBounds size s ∧ InBounds size after ∧
        post (.int .int64 n, .int .int64 (n + k)) after := by
  have sum : BinOp.add.apply (.int .int64 n) (.int .int k) = some (.int .int64 (n + k)) := by
    rw [BinOp.apply_word (.inl rfl) old step]
    exact CType.result?_int64 new
  simp [Watched.addToName, allowed_iff, read, sum, write, permitted_of_signed sum rfl,
    Result.state?]

end Events

/-! ## Expressions without effects -/

/-- Expressions that change nothing and form no number that might wrap unless it is meant to. -/
inductive Plain : Expr → Prop where
  /-- A constant. -/
  | num (n : Nat) : Plain (.num n)
  /-- The code of a character. -/
  | char (c : Char) : Plain (.char c)
  /-- A variable or a constant. -/
  | name (x : String) : Plain (.name x)
  /-- A conversion. -/
  | cast (type : CType) {e : Expr} (operand : Plain e) : Plain (.cast type e)
  /-- An operator between two operands. -/
  | bin {op : BinOp} {a b : Expr} (free : op.wraps = false ∨ .bin op a b ∈ wrappingOperations)
    (left : Plain a) (right : Plain b) : Plain (.bin op a b)
  /-- A choice. -/
  | cond {test a b : Expr} (condition : Plain test) (yes : Plain a) (no : Plain b) :
    Plain (.cond test a b)

section Plain

variable {size : Nat} {scope : WatchedScope} {s s' : State} {e : Expr} {v : Value}

/-- Reading a name does not change the state. -/
lemma state_of_readName {visible : Scope} {x : String} (read : readName visible x s = .ok v s') :
    s' = s := by
  unfold readName at read
  split at read
  all_goals exact (Eval.ofOption_eq_ok_iff.1 read).2.symm

/-- Where an expression has a value in a state, it does what is allowed, and changes nothing. -/
def Harmless (size : Nat) (scope : WatchedScope) (e : Expr) (s : State) : Prop :=
  ∀ v s', e.eval scope.erase s = .ok v s' →
    s' = s ∧ (e.watch scope).Ensures (Allowed size) s fun r after => r = v ∧ after = s

/-- The truth of an operand that is evaluated only if the other one does not decide. -/
lemma Harmless.truth (harmless : Harmless size scope e s)
    (value : (do
      let w ← e.eval scope.erase
      return .ofBool (← Eval.ofOption w.truth?) : Eval Value) s = .ok v s') :
    s' = s ∧ (e.watch scope).Ensures (Allowed size) s fun w after =>
      (Eval.ofOption w.truth? after).Meets fun holds after => .ofBool holds = v ∧ after = s := by
  obtain ⟨w, t, value, more⟩ := Eval.bind_eq_ok_iff.1 value
  obtain ⟨rfl, ensures⟩ := harmless w t value
  obtain ⟨holds, t', truth, result⟩ := Eval.bind_eq_ok_iff.1 more
  obtain ⟨truth, rfl⟩ := Eval.ofOption_eq_ok_iff.1 truth
  cases result
  refine ⟨rfl, ensures.mono ?_⟩
  rintro _ _ ⟨rfl, rfl⟩
  simp [truth]

/-- A conjunction of harmless expressions is harmless. -/
lemma Harmless.and {a b : Expr} (first : Harmless size scope a s)
    (second : Harmless size scope b s) : Harmless size scope (.bin .and a b) s := by
  intro v s' value
  rw [Expr.eval_bin_and, Eval.bind_eq_ok_iff] at value
  obtain ⟨w, t, value, more⟩ := value
  obtain ⟨rfl, ensures⟩ := first w t value
  obtain ⟨holds, t', truth, chosen⟩ := Eval.bind_eq_ok_iff.1 more
  obtain ⟨truth, rfl⟩ := Eval.ofOption_eq_ok_iff.1 truth
  cases holds with
  | true =>
    obtain ⟨rfl, ensures'⟩ := second.truth chosen
    refine ⟨rfl, Expr.ensures_and.2 (ensures.mono ?_)⟩
    rintro _ _ ⟨rfl, rfl⟩
    simpa [truth] using ensures'
  | false =>
    cases chosen
    refine ⟨rfl, Expr.ensures_and.2 (ensures.mono ?_)⟩
    rintro _ _ ⟨rfl, rfl⟩
    simp [truth]

/-- A disjunction of harmless expressions is harmless. -/
lemma Harmless.or {a b : Expr} (first : Harmless size scope a s)
    (second : Harmless size scope b s) : Harmless size scope (.bin .or a b) s := by
  intro v s' value
  rw [Expr.eval_bin_or, Eval.bind_eq_ok_iff] at value
  obtain ⟨w, t, value, more⟩ := value
  obtain ⟨rfl, ensures⟩ := first w t value
  obtain ⟨holds, t', truth, chosen⟩ := Eval.bind_eq_ok_iff.1 more
  obtain ⟨truth, rfl⟩ := Eval.ofOption_eq_ok_iff.1 truth
  cases holds with
  | true =>
    cases chosen
    refine ⟨rfl, Expr.ensures_or.2 (ensures.mono ?_)⟩
    rintro _ _ ⟨rfl, rfl⟩
    simp [truth]
  | false =>
    obtain ⟨rfl, ensures'⟩ := second.truth chosen
    refine ⟨rfl, Expr.ensures_or.2 (ensures.mono ?_)⟩
    rintro _ _ ⟨rfl, rfl⟩
    simpa [truth] using ensures'

/-- An operator between harmless expressions is harmless unless it wraps where it is not meant to.
-/
lemma Harmless.bin {op : BinOp} {a b : Expr} (inBounds : InBounds size s)
    (free : op.wraps = false ∨ .bin op a b ∈ wrappingOperations)
    (first : Harmless size scope a s) (second : Harmless size scope b s) :
    Harmless size scope (.bin op a b) s := by
  by_cases strict : op ≠ .and ∧ op ≠ .or
  · intro v s' value
    rw [Expr.eval_bin _ _ _ strict, Eval.bind_eq_ok_iff] at value
    obtain ⟨w, t, value, more⟩ := value
    obtain ⟨rfl, ensures⟩ := first w t value
    obtain ⟨w', t', value', result⟩ := Eval.bind_eq_ok_iff.1 more
    obtain ⟨rfl, ensures'⟩ := second w' t' value'
    obtain ⟨result, rfl⟩ := Eval.ofOption_eq_ok_iff.1 result
    refine ⟨rfl, (ensures_bin_allowed strict free).2 (ensures.mono ?_)⟩
    rintro _ _ ⟨rfl, rfl⟩
    refine ensures'.mono ?_
    rintro _ _ ⟨rfl, rfl⟩
    simp [result, inBounds]
  · rw [not_and_or, not_not, not_not] at strict
    rcases strict with rfl | rfl
    · exact first.and second
    · exact first.or second

/-- A conditional expression with harmless parts is harmless. -/
lemma Harmless.cond {test a b : Expr} (condition : Harmless size scope test s)
    (first : Harmless size scope a s) (second : Harmless size scope b s) :
    Harmless size scope (.cond test a b) s := by
  intro v s' value
  rw [Expr.eval_cond, Eval.bind_eq_ok_iff] at value
  obtain ⟨w, t, value, more⟩ := value
  obtain ⟨rfl, ensures⟩ := condition w t value
  obtain ⟨holds, t', truth, chosen⟩ := Eval.bind_eq_ok_iff.1 more
  obtain ⟨truth, rfl⟩ := Eval.ofOption_eq_ok_iff.1 truth
  have chosen' : s' = t ∧ (if holds then (a.watch scope).Ensures (Allowed size) t
      fun r after => r = v ∧ after = t else (b.watch scope).Ensures (Allowed size) t
      fun r after => r = v ∧ after = t) := by
    cases holds with
    | true => exact first v s' chosen
    | false => exact second v s' chosen
  refine ⟨chosen'.1, Expr.ensures_cond.2 (ensures.mono ?_)⟩
  rintro _ _ ⟨rfl, rfl⟩
  simpa [truth] using chosen'.2

/-- An expression without effects does what is allowed where it has a value.

**Proof sketch.** Induction on the expression. Its parts change nothing, so all that is done is done
in the state at the beginning, and an operator that has a value is permitted. -/
lemma Plain.harmless (plain : Plain e) (inBounds : InBounds size s) :
    Harmless size scope e s := by
  induction plain with
  | num n =>
    intro v s' value
    obtain ⟨constant, rfl⟩ := Eval.ofOption_eq_ok_iff.1 value
    simp [constant]
  | char c =>
    intro v s' value
    cases value
    simp
  | name x =>
    intro v s' value
    rw [Expr.eval_name] at value
    obtain rfl := state_of_readName value
    simp [value]
  | cast type operand ih =>
    intro v s' value
    rw [Expr.eval_cast, Eval.bind_eq_ok_iff] at value
    obtain ⟨w, t, value, converted⟩ := value
    obtain ⟨rfl, ensures⟩ := ih w t value
    obtain ⟨converted, rfl⟩ := Eval.ofOption_eq_ok_iff.1 converted
    refine ⟨rfl, Expr.ensures_cast.2 (ensures.mono ?_)⟩
    rintro _ _ ⟨rfl, rfl⟩
    simp [converted]
  | bin free left right first second => exact .bin inBounds free first second
  | cond condition yes no first second third => exact .cond first second third

/-- An expression without effects notes nothing but operators in such expressions, and changes
nothing, whether or not it has a value. -/
lemma Plain.steady {allowed : Event → Prop} (plain : Plain e)
    (each : ∀ e' op v w, Plain e' → allowed ⟨s, .apply e' op v w⟩) :
    (e.watch scope).Steady allowed s := by
  induction plain with
  | num n =>
    rw [Expr.watch]
    exact .ofOption _
  | char c => exact .pure _
  | name x => exact .quiet fun v t read => state_of_readName read
  | cast type operand ih =>
    rw [Expr.watch]
    exact ih.bind fun v => .ofOption _
  | @bin op a b free left right first second =>
    have noted (v w : Value) := Watched.Steady.note (each _ op v w (.bin free left right))
    rw [Expr.watch]
    refine first.bind fun v => ?_
    cases op with
    | and =>
      refine Watched.Steady.bind (.ofOption _) fun holds => .ite ?_ (.pure _)
      exact second.bind fun w => .bind (.ofOption _) fun _ => .pure _
    | or =>
      refine Watched.Steady.bind (.ofOption _) fun holds => .ite (.pure _) ?_
      exact second.bind fun w => .bind (.ofOption _) fun _ => .pure _
    | _ => exact second.bind fun w => (noted v w).bind fun _ => .ofOption _
  | cond condition yes no first second third =>
    rw [Expr.watch]
    exact first.bind fun v => .bind (.ofOption _) fun holds => .ite second third

end Plain

end Compiler

end StackAsm
