import StackAsm.Machine.Step
import StackAsm.Proofs.Compiler.Memory

set_option autoImplicit false

/-!
# What the functions of compiled programs do

One fact for each way in which a call of a function can go, on the memory of a compiled program. The
functions that read the input have modules of their own.

## Main definitions

* `StackAsm.Compiler.Failing` — a scope in which `fail` can be called.
* `StackAsm.Compiler.listing` — the values of a stack, as they are shown.

## Main results

* `StackAsm.Compiler.pop_cons`, `StackAsm.Compiler.push_room` — a value that is taken off the stack
  or pushed; `StackAsm.Compiler.pop_nil`, `StackAsm.Compiler.push_full` — where there is none or no
  room.
* `StackAsm.Compiler.wrapping_meaning`, `StackAsm.Compiler.wrapDiv_meaning` — the arithmetic of
  words, which compiled programs form out of that of C.
* `StackAsm.Compiler.dumpStack_meaning` — the stack as it is shown.
-/

namespace StackAsm.Compiler

open C

/-- In a scope, a call of `fail` ends the program with the message. -/
def Failing (scope : Scope) : Prop :=
  ∀ (message : String) (stack free : List Word) (locals : List Variable)
    (input output diagnostics : Bytes),
    callFunction scope "fail" [.str message] (memory stack free locals input output diagnostics) =
      failure message stack free input output diagnostics

/-- Where nothing else is visible, `fail` ends the program with its message. -/
lemma failing_fail (size fuel : Nat) : Failing (scope size fuel [fail]) := by
  intro message stack free locals input output diagnostics
  rw [show "fail" = fail.name from rfl, callFunction_self]
  simp [Function.meaning, fail, failure]

/-- A function of another name does not hide `fail`. -/
lemma Failing.cons {size fuel : Nat} {functions : List Function} {f : Function}
    (fails : Failing (scope size fuel functions)) (other : f.name ≠ "fail") :
    Failing (scope size fuel (f :: functions)) := by
  intro message stack free locals input output diagnostics
  rw [callFunction_cons_of_ne _ _ _ _ (Ne.symm other)]
  exact fails ..

section Library

variable {size fuel : Nat} {functions : List Function} {stack free : List Word}
  (locals : List Variable) (input output diagnostics : Bytes)
  (fails : Failing (scope size fuel functions))

/-! ## The stack -/

include fails in
/-- A statement that fails ends the program with its message. -/
lemma exec_failWith (message : String) :
    (failWith message).exec (scope size fuel functions) fuel none
        (memory stack free locals input output diagnostics) =
      failure message stack free input output diagnostics := by
  simp [failWith, fails message, failure]

include fails in
/-- From an empty stack nothing is popped. -/
theorem pop_nil :
    pop.meaning (scope size fuel functions) fuel []
        (memory [] free locals input output diagnostics) =
      failure "stack underflow" [] free input output diagnostics := by
  have test : BinOp.le.apply (.int .int64 0) (.int .int 0) = some (.ofBool true) := rfl
  simp [Function.meaning, pop, fails, exec_failWith, test]
  simp [failure]

variable (functions) in
/-- The top value is popped. -/
theorem pop_cons (a : Word) (small : (a :: stack).length < 2 ^ 63) :
    pop.meaning (scope size fuel functions) fuel []
        (memory (a :: stack) free locals input output diagnostics) =
      .ok (.int .int64 a.toInt) (memory stack (a :: free) locals input output diagnostics) := by
  have test : BinOp.le.apply (.int .int64 (a :: stack).length) (.int .int 0) =
      some (.ofBool false) := by
    rw [BinOp.apply_word (.inl rfl) (Word.inRange_natCast.2 small) (by decide)]
    rfl
  have down : addToName (scope size fuel functions) "sp" (-1)
      (memory (a :: stack) free [] input output diagnostics) =
      .ok (.int .int64 (a :: stack).length, .int .int64 stack.length)
        (memory stack (a :: free) [] input output diagnostics) :=
    addToName_down (scope size fuel functions) a rfl small
  have top : (stack.reverse ++ a :: free)[stack.length]? = some a := by simp
  simp [Function.meaning, pop, test, down, readElement_memory .int64 top, -List.length_cons]

include fails in
/-- To a full stack nothing is pushed. -/
theorem push_full (v : Word) (small : size < 2 ^ 63) (bound : stack.length < 2 ^ 63)
    (full : size ≤ stack.length) :
    push.meaning (scope size fuel functions) fuel [.int .int64 v.toInt]
        (memory stack free locals input output diagnostics) =
      failure "stack overflow" stack free input output diagnostics := by
  obtain ⟨t, type, -, constant⟩ := Value.exists_ofNat? small
  have test : BinOp.ge.apply (.int .int64 stack.length) (.int t size) = some (.ofBool true) := by
    rw [BinOp.apply_word type (Word.inRange_natCast.2 bound) (Word.inRange_natCast.2 small)]
    simp [BinOp.onCommon, full]
  simp [Function.meaning, push, constant, test, exec_failWith, fails, failure]

variable (functions) in
/-- A value is pushed where there is room. -/
theorem push_room (v : Word) {x : Word} (small : size < 2 ^ 63) (room : stack.length < size) :
    push.meaning (scope size fuel functions) fuel [.int .int64 v.toInt]
        (memory stack (x :: free) locals input output diagnostics) =
      .ok .void (memory (v :: stack) free locals input output diagnostics) := by
  have bound : stack.length < 2 ^ 63 := by omega
  obtain ⟨t, type, -, constant⟩ := Value.exists_ofNat? small
  have test : BinOp.ge.apply (.int .int64 stack.length) (.int t size) = some (.ofBool false) := by
    rw [BinOp.apply_word type (Word.inRange_natCast.2 bound) (Word.inRange_natCast.2 small)]
    simp [BinOp.onCommon, Nat.not_le.2 room]
  let vars : List Variable := [⟨"value", .int64, some (.int .int64 v.toInt)⟩]
  have more : (x :: stack).length < 2 ^ 63 := by
    rw [List.length_cons]
    omega
  have up : addToName (scope size fuel functions) "sp" 1
      (memory stack (x :: free) vars input output diagnostics) =
      .ok (.int .int64 stack.length, .int .int64 (x :: stack).length)
        (memory (x :: stack) free vars input output diagnostics) :=
    addToName_up (scope size fuel functions) x rfl more
  have write := writeElement_memory .int64 v (show stack.length < (x :: stack).length by simp) free
    vars input output diagnostics
  have top : (x :: stack).set ((x :: stack).length - 1 - stack.length) v = v :: stack := by
    simp
  rw [top] at write
  simp [Function.meaning, push, constant, test, up, write, vars, -List.length_cons]

/-- The two comparisons of an index with the ends of its range. -/
lemma compare_index (t : Word) {n : Nat} (small : n < 2 ^ 63) :
    BinOp.lt.apply (.int .int64 t.toInt) (.int .int 0) = some (.ofBool (t.toInt < 0)) ∧
      BinOp.ge.apply (.int .int64 t.toInt) (.int .int64 n) = some (.ofBool (n ≤ t.toInt)) := by
  have range := Word.inRange_toInt t
  rw [BinOp.apply_word (.inl rfl) range (by decide),
    BinOp.apply_word (.inr rfl) range (Word.inRange_natCast.2 small)]
  exact ⟨rfl, rfl⟩

include fails in
/-- An index outside the stack is refused. -/
lemma checkedIndex_outside (t : Word) (small : stack.length < 2 ^ 63)
    (outside : slot? stack t = none) :
    checkedIndex.meaning (scope size fuel functions) fuel
        [.int .int64 t.toInt, .int .int64 stack.length]
        (memory stack free locals input output diagnostics) =
      failure "invalid stack index" stack free input output diagnostics := by
  obtain ⟨negative, beyond⟩ := compare_index t small
  have fits := CType.convert_of_inRange (Word.inRange_natCast.2 small)
  simp only [slot?, reduceCtorEq, dite_eq_right_iff, imp_false, not_and, Int.not_lt] at outside
  by_cases low : t.toInt < 0
  · simp [Function.meaning, checkedIndex, fits, negative, low, exec_failWith, fails, failure]
  · have high : (stack.length : Int) ≤ t.toInt := outside (by omega)
    simp [Function.meaning, checkedIndex, fits, negative, beyond, low, high, exec_failWith, fails,
      failure]

variable (functions) in
/-- An index inside the stack is returned. -/
lemma checkedIndex_inside (t : Word) {k : Fin stack.length} (small : stack.length < 2 ^ 63)
    (inside : slot? stack t = some k) :
    checkedIndex.meaning (scope size fuel functions) fuel
        [.int .int64 t.toInt, .int .int64 stack.length]
        (memory stack free locals input output diagnostics) =
      .ok (.int .int64 t.toInt) (memory stack free locals input output diagnostics) := by
  obtain ⟨negative, beyond⟩ := compare_index t small
  have fits := CType.convert_of_inRange (Word.inRange_natCast.2 small)
  obtain ⟨⟨low, high⟩, -⟩ := Option.dite_none_right_eq_some.1 inside
  simp [Function.meaning, checkedIndex, fits, negative, beyond, Int.not_lt.2 low,
    Int.not_le.2 high]

/-! ## Arithmetic -/

/-- Sums, differences and products that are formed unsigned are those of words. -/
theorem wrapping_meaning {name : String} {op : BinOp} {f : Int → Int → Int} (a b : Word)
    (strict : op ≠ .and ∧ op ≠ .or)
    (unsigned : ∀ m n, op.onCommon .uint64 m n = CType.uint64.result? (f m n))
    (wraps : ∀ m n, (f (CType.uint64.convert m) (CType.uint64.convert n)).bmod (2 ^ 64) =
      (f m n).bmod (2 ^ 64)) :
    (wrapping name op).meaning (scope size fuel functions) fuel
        [.int .int64 a.toInt, .int .int64 b.toInt]
        (memory stack free locals input output diagnostics) =
      .ok (.int .int64 ((f a.toInt b.toInt).bmod (2 ^ 64)))
        (memory stack free locals input output diagnostics) := by
  have twice (n : Int) :
      CType.uint64.convert (CType.uint64.convert n) = CType.uint64.convert n := by
    rw [CType.convert_uint64, CType.convert_uint64, Int.emod_emod]
  have result : op.apply (.int .uint64 (CType.uint64.convert a.toInt))
      (.int .uint64 (CType.uint64.convert b.toInt)) = some (.int .uint64 (CType.uint64.convert
        (f (CType.uint64.convert a.toInt) (CType.uint64.convert b.toInt)))) := by
    have common : CType.common .uint64 .uint64 = .uint64 := rfl
    rw [BinOp.apply, common, unsigned, CType.result?_uint64, twice, twice]
  have signed : CType.int64.convert (CType.uint64.convert
      (f (CType.uint64.convert a.toInt) (CType.uint64.convert b.toInt))) =
      (f a.toInt b.toInt).bmod (2 ^ 64) := by
    rw [CType.convert_int64, ← wraps, CType.convert_uint64 (f _ _)]
    exact Int.emod_bmod _ _
  have word : CType.int64.convert ((f a.toInt b.toInt).bmod (2 ^ 64)) =
      (f a.toInt b.toInt).bmod (2 ^ 64) := by
    rw [CType.convert_int64, Int.bmod_bmod]
  generalize (f a.toInt b.toInt).bmod (2 ^ 64) = sum at *
  simp [Function.meaning, wrapping, Expr.eval_bin _ _ _ strict, result, signed, word]

variable (functions) in
/-- The sum of two words wraps around. -/
lemma wrapAdd_meaning (a b : Word) :
    wrapAdd.meaning (scope size fuel functions) fuel [.int .int64 a.toInt, .int .int64 b.toInt]
        (memory stack free locals input output diagnostics) =
      .ok (.int .int64 (a + b).toInt) (memory stack free locals input output diagnostics) := by
  rw [Int64.toInt_add]
  refine wrapping_meaning locals input output diagnostics (f := (· + ·)) a b (by decide)
    (fun _ _ => rfl) fun m n => ?_
  rw [CType.convert_uint64, CType.convert_uint64, Int.emod_add_bmod, Int.add_emod_bmod]

variable (functions) in
/-- The difference of two words wraps around. -/
lemma wrapSub_meaning (a b : Word) :
    wrapSub.meaning (scope size fuel functions) fuel [.int .int64 a.toInt, .int .int64 b.toInt]
        (memory stack free locals input output diagnostics) =
      .ok (.int .int64 (a - b).toInt) (memory stack free locals input output diagnostics) := by
  rw [Int64.toInt_sub]
  refine wrapping_meaning locals input output diagnostics (f := (· - ·)) a b (by decide)
    (fun _ _ => rfl) fun m n => ?_
  rw [CType.convert_uint64, CType.convert_uint64, Int.emod_sub_bmod, Int.sub_emod_bmod]

variable (functions) in
/-- The product of two words wraps around. -/
lemma wrapMul_meaning (a b : Word) :
    wrapMul.meaning (scope size fuel functions) fuel [.int .int64 a.toInt, .int .int64 b.toInt]
        (memory stack free locals input output diagnostics) =
      .ok (.int .int64 (a * b).toInt) (memory stack free locals input output diagnostics) := by
  rw [Int64.toInt_mul]
  refine wrapping_meaning locals input output diagnostics (f := (· * ·)) a b (by decide)
    (fun _ _ => rfl) fun m n => ?_
  rw [CType.convert_uint64, CType.convert_uint64, Int.emod_mul_bmod, Int.mul_emod_bmod]

include fails in
/-- A division by zero ends the program. -/
lemma wrapDiv_zero (a : Word) :
    wrapDiv.meaning (scope size fuel functions) fuel [.int .int64 a.toInt, .int .int64 0]
        (memory stack free locals input output diagnostics) =
      failure "division by zero" stack free input output diagnostics := by
  have test : BinOp.eq.apply (.int .int64 0) (.int .int 0) = some (.ofBool true) := rfl
  have zero : CType.int64.convert 0 = 0 := rfl
  simp [Function.meaning, wrapDiv, zero, test, exec_failWith, fails, failure]

/-- Quotients are those of words but for the one that is not a word. -/
lemma div_words (a b : Word) (nonzero : b ≠ 0)
    (regular : ¬ (a = Int64.minValue ∧ b = -1)) :
    BinOp.div.apply (.int .int64 a.toInt) (.int .int64 b.toInt) =
      some (.int .int64 (a / b).toInt) := by
  have distinct : b.toInt ≠ 0 := fun h => nonzero (Int64.toInt_inj.1 h)
  have truncated : (a / b).toInt = a.toInt.tdiv b.toInt := by
    by_cases smallest : a = Int64.minValue
    · exact Int64.toInt_div_of_ne_right a b fun h => regular ⟨smallest, h⟩
    · exact Int64.toInt_div_of_ne_left a b smallest
  rw [BinOp.apply_word (.inr rfl) (Word.inRange_toInt a) (Word.inRange_toInt b), BinOp.onCommon,
    if_neg distinct, ← truncated]
  exact CType.result?_int64 (Word.inRange_toInt _)

variable (functions) in
/-- The quotient of two words is the one that the machine forms. -/
theorem wrapDiv_meaning (a b : Word) (nonzero : b ≠ 0) :
    wrapDiv.meaning (scope size fuel functions) fuel [.int .int64 a.toInt, .int .int64 b.toInt]
        (memory stack free locals input output diagnostics) =
      .ok (.int .int64 (a / b).toInt) (memory stack free locals input output diagnostics) := by
  have minus : BinOp.sub.apply (.int .int 0) (.int .int 1) = some (.int .int (-1)) := rfl
  have zero : BinOp.eq.apply (.int .int64 b.toInt) (.int .int 0) = some (.ofBool (b = 0)) :=
    BinOp.eq_words (.inl rfl) b 0
  have least : BinOp.eq.apply (.int .int64 a.toInt) (.int .int64 (-9223372036854775808)) =
      some (.ofBool (a = Int64.minValue)) := BinOp.eq_words (.inr rfl) a Int64.minValue
  have negative : BinOp.eq.apply (.int .int64 b.toInt) (.int .int (-1)) =
      some (.ofBool (b = -1)) := BinOp.eq_words (.inl rfl) b (-1)
  rw [decide_eq_false nonzero] at zero
  by_cases smallest : a = Int64.minValue
  · rw [decide_eq_true smallest] at least
    by_cases unit : b = -1
    · have quotient : a / b = Int64.minValue := by
        rw [smallest, unit]
        rfl
      have kept : CType.int64.convert (-9223372036854775808) = -9223372036854775808 := rfl
      rw [decide_eq_true unit] at negative
      simp [Function.meaning, wrapDiv, zero, least, negative, minus, quotient, kept]
    · have quotient := div_words a b nonzero fun special => unit special.2
      rw [decide_eq_false unit] at negative
      simp [Function.meaning, wrapDiv, zero, least, negative, minus, quotient, -Int64.toInt_div]
  · have quotient := div_words a b nonzero fun special => smallest special.1
    rw [decide_eq_false smallest] at least
    simp [Function.meaning, wrapDiv, zero, least, quotient, -Int64.toInt_div]

end Library

/-! ## Output -/

/-- The bytes of values that are separated by commas; there is one in front of them, too, if other
values stand there. -/
def listing (started : Bool) : List Word → Bytes
  | [] => []
  | v :: values =>
    (if started then Utf8.encode ", " else []) ++ Utf8.encode v.text ++ listing true values

/-- Behind other values, a list of values starts with a comma. -/
lemma listing_true (v : Word) (values : List Word) :
    listing true (v :: values) = Utf8.encode ", " ++ listing false (v :: values) := by
  simp [listing]

/-- In front, a list of values starts with the first of them. -/
lemma listing_false (values : List Word) :
    listing false values = Utf8.encode (", ".intercalate (values.map Word.text)) := by
  induction values with
  | nil => rfl
  | cons v values ih =>
    cases values with
    | nil => simp [listing]
    | cons w values =>
      rw [List.map_cons, List.map_cons, String.intercalate_cons_cons, Utf8.encode_append,
        Utf8.encode_append, ← List.map_cons, ← ih, listing, listing_true]
      simp

section Dump

variable {size fuel : Nat} {functions : List Function} {stack free : List Word}
  (input output : Bytes)
  (streams : ∀ x ∈ ["fputc", "fputs", "fprintf"], x ∉ functions.map Function.name)

/-- What is written for the value at `i`. -/
def showElement : Stmt :=
  .block .lines (.seq .lines
    (.ifThen (.bin .gt (.name "i") (.num 0)) (.expr (.call "fputs" [.str ", ", .name "stderr"])))
    (.expr (.call "fprintf" [.name "stderr", .format "%" "PRId64", .element "stack" (.name "i")])))

variable (free) in
include streams in
/-- A turn of the loop writes one value, with a comma in front of it if it is not the first. -/
lemma exec_showElement (diagnostics : Bytes) {shown values : List Word} {v : Word}
    (small : shown.length < 2 ^ 63) (rest : stack.reverse = shown ++ v :: values) :
    showElement.exec (scope size fuel functions) fuel none
        (memory stack free [⟨"i", .int64, some (.int .int64 shown.length)⟩] input output
          diagnostics) =
      .ok .next (memory stack free [⟨"i", .int64, some (.int .int64 shown.length)⟩] input output
        (diagnostics ++
          ((if shown ≠ [] then Utf8.encode ", " else []) ++ Utf8.encode v.text))) := by
  have fputs := callFunction_of_notMem size fuel functions (streams "fputs" (by simp))
  have fprintf := callFunction_of_notMem size fuel functions (streams "fprintf" (by simp))
  have later : BinOp.gt.apply (.int .int64 shown.length) (.int .int 0) =
      some (.ofBool (shown ≠ [])) := by
    rw [BinOp.apply_word (.inl rfl) (Word.inRange_natCast.2 small) (by decide)]
    cases shown <;> simp [BinOp.onCommon]
  have value : (stack.reverse ++ free)[shown.length]? = some v := by simp [rest]
  have read (d : Bytes) := readElement_memory .int64 value
    [⟨"i", .int64, some (.int .int64 shown.length)⟩] input output d
  by_cases first : shown = []
  · rw [decide_eq_false (not_not_intro first)] at later
    rw [if_neg (not_not_intro first)]
    simp [showElement, later, read, fprintf, Word.text]
  · rw [decide_eq_true first] at later
    rw [if_pos first]
    simp [showElement, later, read, fprintf, fputs, Word.text]

/-- The step of the counter. -/
lemma eval_counter (diagnostics : Bytes) {n : Nat} (small : n + 1 < 2 ^ 63) :
    (do let _ ← Expr.eval (scope size fuel functions) (.postIncr "i"))
        (memory stack free [⟨"i", .int64, some (.int .int64 n)⟩] input output diagnostics) =
      .ok () (memory stack free [⟨"i", .int64, some (.int .int64 (n + 1 : Nat))⟩] input output
        diagnostics) := by
  have sum : BinOp.add.apply (.int .int64 n) (.int .int 1) =
      some (.int .int64 (n + 1 : Nat)) := by
    rw [BinOp.apply_word (.inl rfl) (Word.inRange_natCast.2 (by omega)) (by decide)]
    exact CType.result?_int64 (Word.inRange_natCast.2 small)
  have fits : CType.int64.convert ((n : Int) + 1) = n + 1 :=
    CType.convert_of_inRange (Word.inRange_natCast.2 small)
  simp [addToName, sum, fits]

include streams in
/-- The loop that writes the values of the stack, behind those that are written already. -/
lemma iterate_showElement {values : List Word} (small : stack.length < 2 ^ 63) :
    ∀ (shown : List Word) (diagnostics : Bytes) (turns : Nat), stack.reverse = shown ++ values →
    Result.Is turns values.length
      (.ok .next (memory stack free [⟨"i", .int64, some (.int .int64 stack.length)⟩] input output
        (diagnostics ++ listing (shown ≠ []) values)))
      (iterate (Expr.test (scope size fuel functions) (.bin .lt (.name "i") (.name "sp")))
        (showElement.exec (scope size fuel functions) fuel none)
        (do let _ ← Expr.eval (scope size fuel functions) (.postIncr "i")) turns
        (memory stack free [⟨"i", .int64, some (.int .int64 shown.length)⟩] input output
          diagnostics)) := by
  induction values with
  | nil =>
    intro shown diagnostics turns rest
    have size : shown.length = stack.length := by
      rw [← stack.length_reverse, rest, List.append_nil]
    have test : BinOp.lt.apply (.int .int64 stack.length) (.int .int64 stack.length) =
        some (.ofBool false) := by
      rw [BinOp.apply_word (.inr rfl) (Word.inRange_natCast.2 small) (Word.inRange_natCast.2 small)]
      simp [BinOp.onCommon]
    rw [size, listing, List.append_nil]
    exact iterate_end (by simp [test])
  | cons v values ih =>
    intro shown diagnostics turns rest
    have inside : shown.length < stack.length := by
      rw [← stack.length_reverse, rest]
      simp
    have test : BinOp.lt.apply (.int .int64 shown.length) (.int .int64 stack.length) =
        some (.ofBool true) := by
      rw [BinOp.apply_word (.inr rfl) (Word.inRange_natCast.2 (by omega))
        (Word.inRange_natCast.2 small)]
      simp [BinOp.onCommon, inside]
    have next (turns : Nat) := ih (shown ++ [v])
      (diagnostics ++ ((if shown ≠ [] then Utf8.encode ", " else []) ++ Utf8.encode v.text)) turns
      (by simp [rest])
    have written : diagnostics ++ listing (shown ≠ []) (v :: values) =
        diagnostics ++ ((if shown ≠ [] then Utf8.encode ", " else []) ++ Utf8.encode v.text) ++
          listing (shown ++ [v] ≠ []) values := by
      simp [listing]
    rw [written]
    refine iterate_turn ?_ (exec_showElement free input output streams diagnostics (by omega) rest)
      (.inl rfl) ?_ next
    · simp [test]
    · rw [List.length_append, List.length_singleton]
      exact eval_counter input output _ (by omega)

variable (size fuel free) in
include streams in
/-- The loop writes all the values of the stack. -/
lemma exec_showAll (diagnostics : Bytes) (small : stack.length < 2 ^ 63) :
    Result.Is fuel stack.length
      (.ok .next (memory stack free [⟨"i", .int64, some (.int .int64 stack.length)⟩] input output
        (diagnostics ++ listing false stack.reverse)))
      ((Stmt.for (.assign (.name "i") (.num 0)) (.bin .lt (.name "i") (.name "sp")) (.postIncr "i")
        showElement).exec (scope size fuel functions) fuel none
          (memory stack free [⟨"i", .int64, none⟩] input output diagnostics)) := by
  have zero : CType.int64.convert 0 = 0 := rfl
  have first : Expr.eval (scope size fuel functions) (.assign (.name "i") (.num 0))
      (memory stack free [⟨"i", .int64, none⟩] input output diagnostics) = .ok (.int .int64 0)
        (memory stack free [⟨"i", .int64, some (.int .int64 0)⟩] input output diagnostics) := by
    simp [zero]
  rw [Stmt.exec]
  refine Result.Is.bind (.inl first) ?_
  refine .mono ?_ (Nat.le_of_eq stack.length_reverse)
  exact iterate_showElement input output streams small [] diagnostics fuel rfl

/-- The values between brackets and a line feed are the text of the stack. -/
lemma encode_stackText (values : List Word) :
    [byteOf 91] ++ listing false values ++ Utf8.encode "]\n" =
      Utf8.encode (stackText values ++ "\n") := by
  rw [stackText, Utf8.encode_append, Utf8.encode_append, Utf8.encode_append, ← listing_false]
  simp only [List.append_assoc]
  rfl

variable (functions) in
include streams in
/-- The function that shows the stack writes its text to the diagnostics. -/
theorem dumpStack_meaning (locals : List Variable) (diagnostics : Bytes)
    (small : stack.length < 2 ^ 63) :
    Result.Is fuel stack.length
      (.ok .void (memory stack free locals input output
        (diagnostics ++ Utf8.encode (stackText stack.reverse ++ "\n"))))
      (dumpStack.meaning (scope size fuel functions) fuel []
        (memory stack free locals input output diagnostics)) := by
  have fputs := callFunction_of_notMem size fuel functions (streams "fputs" (by simp))
  have fputc := callFunction_of_notMem size fuel functions (streams "fputc" (by simp))
  rw [← encode_stackText]
  have shows := exec_showAll size fuel free input output streams (diagnostics ++ [byteOf 91]) small
  rcases shows with ends | ⟨stops, few⟩
  · refine .inl ?_
    rw [showElement] at ends
    simp [Function.meaning, dumpStack, fputc, fputs, ↓ends]
  · refine .inr ⟨?_, few⟩
    rw [showElement] at stops
    simp [Function.meaning, dumpStack, fputc, ↓stops]

end Dump

end StackAsm.Compiler
