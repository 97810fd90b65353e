import StackAsm.Proofs.Compiler.Input
import StackAsm.Proofs.Compiler.Safety.Allowed

set_option autoImplicit false

/-!
# The functions of compiled programs are safe

The functions that every compiled program begins with do only what is allowed, whatever they are
called with, and what they leave on the stack is said exactly enough for the functions that call
them. Most of them end the program in some cases; then nothing follows, so nothing is said of these
cases.

## Main definitions

* `StackAsm.Compiler.watchedScope` — what is in scope behind some functions, under watch.
* `StackAsm.Compiler.HoldsWord`, `StackAsm.Compiler.Stores` — values and states of which only the
  kind is known.
* `StackAsm.Compiler.FailsSafely` — the function that ends the program may be called.

## Main results

* `StackAsm.Compiler.ensures_push`, `StackAsm.Compiler.ensures_pop` — the stack pointer moves within
  its bounds.
* `StackAsm.Compiler.ensures_checkedIndex` — an index that is returned names a value of the stack.
* `StackAsm.Compiler.ensures_wrapDiv` — no quotient is formed that has no meaning.
* `StackAsm.Compiler.ensures_dumpStack` — the values that are shown are in the array.
-/

namespace StackAsm.Compiler

open C

/-! ## Functions in scope -/

/-- What is in scope, under watch, behind the definition of the stack size and of the given
functions, the last one first. -/
def watchedScope (size fuel : Nat) (functions : List Function) : WatchedScope :=
  functions.foldr (fun f visible => visible.define f fuel) ⟨[("STACK_SIZE", size)], []⟩

section Scope

variable (size fuel : Nat) (f : Function) (functions : List Function)

/-- Under watch, the same functions are in scope as always. -/
lemma erase_watchedScope :
    (watchedScope size fuel functions).erase = scope size fuel functions := by
  induction functions with
  | nil => rfl
  | cons f functions ih =>
    show ((watchedScope size fuel functions).define f fuel).erase =
      (scope size fuel functions).define f fuel
    rw [WatchedScope.erase_define, ih]

/-- Under watch, the stack size is the only constant. -/
@[simp] lemma lookup_constants_watched (x : String) :
    (watchedScope size fuel functions).erase.constants.lookup x =
      if x = "STACK_SIZE" then some size else none := by
  rw [erase_watchedScope, lookup_constants]

/-- Under watch, the function defined last is called by its name. -/
lemma watchedCall_self :
    Watched.callFunction (watchedScope size fuel (f :: functions)) f.name =
      f.watch (watchedScope size fuel functions) fuel := by
  funext args
  simp [Watched.callFunction, watchedScope, WatchedScope.define]

/-- A function defined later under another name is not called. -/
lemma watchedCall_cons_of_ne {x : String} (other : x ≠ f.name) :
    Watched.callFunction (watchedScope size fuel (f :: functions)) x =
      Watched.callFunction (watchedScope size fuel functions) x := by
  have unequal : (x == f.name) = false := by simpa using other
  funext args
  simp [Watched.callFunction, watchedScope, WatchedScope.define, List.lookup, unequal]

/-- A name that no function has is that of a function of the C library. -/
lemma watchedCall_of_notMem {x : String} (other : x ∉ functions.map Function.name)
    (args : List Value) :
    Watched.callFunction (watchedScope size fuel functions) x args =
      Watched.lift (libraryCall x args) := by
  induction functions with
  | nil => rfl
  | cons f functions ih =>
    rw [List.map_cons, List.mem_cons, not_or] at other
    rw [watchedCall_cons_of_ne _ _ _ _ other.1, ih other.2]

/-- The function that ends the program is the first one that is defined. -/
lemma watchedCall_fail (named : ∀ f ∈ functions, f.name ≠ "fail") :
    Watched.callFunction (watchedScope size fuel (functions ++ [fail])) "fail" =
      fail.watch (watchedScope size fuel []) fuel := by
  induction functions with
  | nil => exact watchedCall_self size fuel fail []
  | cons f functions ih =>
    rw [List.forall_mem_cons] at named
    exact (watchedCall_cons_of_ne _ _ _ _ (Ne.symm named.1)).trans (ih named.2)

end Scope

/-- A value is a word. -/
def HoldsWord (v : Value) : Prop := ∃ w : Word, v = .int .int64 w.toInt

/-- The value of a word is a word. -/
@[simp] lemma holdsWord_toInt (w : Word) : HoldsWord (.int .int64 w.toInt) := ⟨w, rfl⟩

/-- What is converted to the type of words is a word. -/
@[simp] lemma holdsWord_convert (n : Int) : HoldsWord (.int .int64 (CType.int64.convert n)) :=
  ⟨Int64.ofInt n, rfl⟩

/-- A state of a compiled program, whatever was read and written. -/
def Stores (stack free : List Word) (locals : List Variable) (s : State) : Prop :=
  ∃ input output diagnostics, s = memory stack free locals input output diagnostics

/-- The state for a stack stores it. -/
@[simp] lemma stores_memory (stack free : List Word) (locals : List Variable)
    (input output diagnostics : Bytes) :
    Stores stack free locals (memory stack free locals input output diagnostics) :=
  ⟨_, _, _, rfl⟩

/-- In a scope, a call of `fail` does what is allowed. -/
def FailsSafely (size : Nat) (visible : WatchedScope) : Prop :=
  ∀ (message : String) {stack free : List Word}, Fits size stack free →
    ∀ (locals : List Variable) (input output diagnostics : Bytes) (post : Value → State → Prop),
    (Watched.callFunction visible "fail" [.str message]).Ensures (Allowed size)
      (memory stack free locals input output diagnostics) post

/-- Behind the definition of `fail`, functions of other names can call it, and it does what is
allowed. -/
lemma failsSafely_of_suffix {size fuel : Nat} (functions : List Function)
    (named : ∀ f ∈ functions, f.name ≠ "fail") :
    FailsSafely size (watchedScope size fuel (functions ++ [fail])) := by
  intro message stack free fits locals input output diagnostics post
  have library {x : String} := watchedCall_of_notMem size fuel [] (x := x) (by simp)
  rw [watchedCall_fail size fuel functions named]
  simp [Function.watch, fail, library, Result.state?, fits]

section StackPointer

variable {size : Nat} {scope : WatchedScope} {e : Expr} {stack free : List Word}
  {locals : List Variable} {input output diagnostics : Bytes}
  {post : Value × Value → State → Prop} {x : Word}
  (hidden : namedVariable? locals "sp" = none) (bound : size < 2 ^ 63)
  (fits : Fits size (x :: stack) free)

include hidden bound fits

/-- The step upward of the stack pointer. -/
lemma ensures_up :
    (Watched.addToName scope e "sp" 1).Ensures (Allowed size)
        (memory stack (x :: free) locals input output diagnostics) post ↔
      post (.int .int64 stack.length, .int .int64 (stack.length + 1))
        (memory (x :: stack) free locals input output diagnostics) := by
  have few : stack.length + 1 < 2 ^ 63 := Nat.lt_of_le_of_lt fits.few bound
  have write : writeName "sp" (.int .int64 (stack.length + 1))
      (memory stack (x :: free) locals input output diagnostics) =
      .ok (.int .int64 (stack.length + 1))
        (memory (x :: stack) free locals input output diagnostics) :=
    writeName_sp (show (x :: stack).reverse ++ free = stack.reverse ++ x :: free by simp) hidden few
  rw [ensures_count (Word.inRange_natCast.2 (by omega)) (by decide) (Word.inRange_natCast.2 few)
    (by simp [hidden]) write]
  simp [fits, fits.pop]

/-- The step downward of the stack pointer. -/
lemma ensures_down :
    (Watched.addToName scope e "sp" (-1)).Ensures (Allowed size)
        (memory (x :: stack) free locals input output diagnostics) post ↔
      post (.int .int64 (x :: stack).length, .int .int64 stack.length)
        (memory stack (x :: free) locals input output diagnostics) := by
  have few : (x :: stack).length < 2 ^ 63 := Nat.lt_of_le_of_lt fits.few bound
  have less : stack.length < 2 ^ 63 := Nat.lt_of_succ_lt few
  have value : ((x :: stack).length : Int) + -1 = stack.length := by
    rw [List.length_cons]
    omega
  have write : writeName "sp" (.int .int64 (((x :: stack).length : Int) + -1))
      (memory (x :: stack) free locals input output diagnostics) =
      .ok (.int .int64 (((x :: stack).length : Int) + -1))
        (memory stack (x :: free) locals input output diagnostics) := by
    rw [value]
    exact writeName_sp (by simp) hidden less
  rw [ensures_count (Word.inRange_natCast.2 few) (by decide)
    (value ▸ Word.inRange_natCast.2 less) (by simp [hidden]) write, value]
  simp [fits, fits.pop]

end StackPointer

section Library

variable {size fuel : Nat} {functions : List Function} {stack free : List Word}
  (locals : List Variable) (input output diagnostics : Bytes)
  (fails : FailsSafely size (watchedScope size fuel functions)) (bound : size < 2 ^ 63)
  (fits : Fits size stack free)

include fails fits in
/-- A statement that fails does what is allowed, and nothing follows it. -/
lemma ensures_failWith (message : String) (post : Flow → State → Prop) :
    ((failWith message).watch (watchedScope size fuel functions) fuel none).Ensures (Allowed size)
      (memory stack free locals input output diagnostics) post := by
  simp only [failWith, Stmt.ensures_expr, Expr.ensures_call, Expr.ensures_cons, Expr.ensures_str,
    Expr.ensures_nil]
  exact fails message fits ..

include fails bound fits in
/-- The function that pushes does what is allowed, and leaves a stack that fits. -/
theorem ensures_push (v : Word) :
    (push.watch (watchedScope size fuel functions) fuel [.int .int64 v.toInt]).Ensures
      (Allowed size) (memory stack free locals input output diagnostics) fun _ after =>
        ∃ rest, Fits size (v :: stack) rest ∧ Stores (v :: stack) rest locals after := by
  have few : stack.length < 2 ^ 63 := Nat.lt_of_le_of_lt fits.few bound
  obtain ⟨t, type, -, constant⟩ := Value.exists_ofNat? bound
  have test : BinOp.ge.apply (.int .int64 stack.length) (.int t size) =
      some (.ofBool (size ≤ stack.length)) := by
    rw [BinOp.apply_word type (Word.inRange_natCast.2 few) (Word.inRange_natCast.2 bound)]
    simp [BinOp.onCommon]
  by_cases full : size ≤ stack.length
  · simp [Function.watch, push, constant, test, full, ensures_failWith, fails, fits, Result.state?]
  · obtain ⟨x, rest, rfl⟩ := fits.exists_cons (Nat.not_le.1 full)
    have pushed (v : Word) : Fits size (v :: stack) rest := fits.push (Nat.not_le.1 full) v
    let vars : List Variable := [⟨"value", .int64, some (.int .int64 v.toInt)⟩]
    have hidden : namedVariable? vars "sp" = none := rfl
    have inside : stack.length < (x :: stack).length := by simp
    have write := writeElement_memory .int64 v inside rest vars input output diagnostics
    have top : (x :: stack).set ((x :: stack).length - 1 - stack.length) v = v :: stack := by simp
    have access : Permitted (memory (x :: stack) rest vars input output diagnostics)
        (.access (.int .int64 stack.length)) := by
      refine permitted_access _ ?_
      rw [List.length_cons]
      omega
    rw [top] at write
    simp only [vars] at hidden write access
    simp [Function.watch, push, constant, test, full, fits, Result.state?,
      ensures_up hidden bound (pushed x), write, access, pushed]
    exact ⟨rest, pushed v, stores_memory ..⟩

include fails bound fits in
/-- The function that pops does what is allowed, and returns the top value. -/
theorem ensures_pop :
    (pop.watch (watchedScope size fuel functions) fuel []).Ensures (Allowed size)
      (memory stack free locals input output diagnostics) fun r after =>
        ∃ a rest, stack = a :: rest ∧ r = .int .int64 a.toInt ∧
          Stores rest (a :: free) locals after := by
  cases stack with
  | nil =>
    have test : BinOp.le.apply (.int .int64 0) (.int .int 0) = some (.ofBool true) := rfl
    simp [Function.watch, pop, test, ensures_failWith, fails, fits, Result.state?]
  | cons a stack =>
    have few : (a :: stack).length < 2 ^ 63 := Nat.lt_of_le_of_lt fits.few bound
    have test : BinOp.le.apply (.int .int64 (a :: stack).length) (.int .int 0) =
        some (.ofBool false) := by
      rw [BinOp.apply_word (.inl rfl) (Word.inRange_natCast.2 few) (by decide)]
      rfl
    have hidden : namedVariable? [] "sp" = none := rfl
    have top : (stack.reverse ++ a :: free)[stack.length]? = some a := by simp
    have access : Permitted (memory stack (a :: free) [] input output diagnostics)
        (.access (.int .int64 stack.length)) := permitted_access _ (by simp)
    simp [Function.watch, pop, test, fits, fits.pop, Result.state?, ensures_down hidden bound fits,
      readElement_memory .int64 top, access, -List.length_cons]

include fails bound fits in
/-- The function that checks an index does what is allowed, and returns one inside the stack. -/
theorem ensures_checkedIndex (t : Word) :
    (checkedIndex.watch (watchedScope size fuel functions) fuel
        [.int .int64 t.toInt, .int .int64 stack.length]).Ensures (Allowed size)
      (memory stack free locals input output diagnostics) fun r after =>
        0 ≤ t.toInt ∧ t.toInt < stack.length ∧ r = .int .int64 t.toInt ∧
          Stores stack free locals after := by
  have few : stack.length < 2 ^ 63 := Nat.lt_of_le_of_lt fits.few bound
  obtain ⟨negative, beyond⟩ := compare_index t few
  have kept := CType.convert_of_inRange (Word.inRange_natCast.2 few)
  by_cases low : t.toInt < 0
  · simp [Function.watch, checkedIndex, kept, negative, low, ensures_failWith, fails, fits,
      Result.state?]
  · by_cases high : (stack.length : Int) ≤ t.toInt
    · simp [Function.watch, checkedIndex, kept, negative, beyond, low, high, ensures_failWith,
        fails, fits, Result.state?]
    · simp [Function.watch, checkedIndex, kept, negative, beyond, low, high, fits, Result.state?]
      omega

/-! ## Arithmetic -/

variable (functions) in
include fits in
/-- The functions that wrap around do what is allowed, and return a word. -/
lemma ensures_wrapping {name : String} {op : BinOp} (wraps : op.wraps) (a b : Word) :
    ((wrapping name op).watch (watchedScope size fuel functions) fuel
        [.int .int64 a.toInt, .int .int64 b.toInt]).Ensures (Allowed size)
      (memory stack free locals input output diagnostics) fun r after =>
        HoldsWord r ∧ Stores stack free locals after := by
  have strict : op ≠ .and ∧ op ≠ .or := by
    constructor <;> rintro rfl <;> cases wraps
  have meant : .bin op (.cast .uint64 (.name "a")) (.cast .uint64 (.name "b")) ∈
      wrappingOperations := by
    cases op with
    | mul | add | sub => simp [wrappingOperations]
    | _ => cases wraps
  obtain ⟨k, result⟩ : ∃ k, op.apply (.int .uint64 (CType.uint64.convert a.toInt))
      (.int .uint64 (CType.uint64.convert b.toInt)) = some (.int .uint64 k) := by
    cases op with
    | mul | add | sub => exact ⟨_, rfl⟩
    | _ => cases wraps
  have permitted (s : State) := permitted_of_apply (s := s) result (.inr meant)
  simp [Function.watch, wrapping, strict, permitted, fits, result, Result.state?]

include fails fits in
/-- The function that divides does what is allowed, and returns a word. -/
theorem ensures_wrapDiv (a b : Word) :
    (wrapDiv.watch (watchedScope size fuel functions) fuel
        [.int .int64 a.toInt, .int .int64 b.toInt]).Ensures (Allowed size)
      (memory stack free locals input output diagnostics) fun r after =>
        HoldsWord r ∧ Stores stack free locals after := by
  have minus : BinOp.sub.apply (.int .int 0) (.int .int 1) = some (.int .int (-1)) := rfl
  have zero : BinOp.eq.apply (.int .int64 b.toInt) (.int .int 0) = some (.ofBool (b = 0)) :=
    BinOp.eq_words (.inl rfl) b 0
  have least : BinOp.eq.apply (.int .int64 a.toInt) (.int .int64 (-9223372036854775808)) =
      some (.ofBool (a = Int64.minValue)) := BinOp.eq_words (.inr rfl) a Int64.minValue
  have negative : BinOp.eq.apply (.int .int64 b.toInt) (.int .int (-1)) =
      some (.ofBool (b = -1)) := BinOp.eq_words (.inl rfl) b (-1)
  by_cases divisor : b = 0
  · rw [decide_eq_true divisor] at zero
    simp [Function.watch, wrapDiv, zero, fails, ensures_failWith, fits, Result.state?]
  rw [decide_eq_false divisor] at zero
  by_cases special : a = Int64.minValue ∧ b = -1
  · rw [decide_eq_true special.1] at least
    rw [decide_eq_true special.2] at negative
    simp [Function.watch, wrapDiv, zero, least, negative, minus, fits, Result.state?]
  · have quotient := div_words a b divisor special
    by_cases smallest : a = Int64.minValue
    · rw [decide_eq_true smallest] at least
      rw [decide_eq_false fun unit => special ⟨smallest, unit⟩] at negative
      simp [Function.watch, wrapDiv, zero, least, negative, minus, quotient, fits, Result.state?,
        -Int64.toInt_div]
    · rw [decide_eq_false smallest] at least
      simp [Function.watch, wrapDiv, zero, least, quotient, fits, Result.state?,
        -Int64.toInt_div]

/-! ## Input and output -/

variable (functions) in
include fits in
/-- The function that reads a byte does what is allowed, and returns a word. -/
lemma ensures_readChar (getchar : "getchar" ∉ functions.map Function.name) :
    (readChar.watch (watchedScope size fuel functions) fuel []).Ensures (Allowed size)
      (memory stack free locals input output diagnostics) fun r after =>
        HoldsWord r ∧ Stores stack free locals after := by
  have call := watchedCall_of_notMem size fuel functions getchar
  have minus : BinOp.sub.apply (.int .int 0) (.int .int 1) = some (.int .int (-1)) := rfl
  have eof : BinOp.eq.apply (.int .int (front input)) (.int .int (-1)) =
      some (.ofBool (front input = -1)) := by
    rw [BinOp.apply_ints (front_small input) (by decide), BinOp.onCommon]
  by_cases last : front input = -1
  · rw [decide_eq_true last] at eof
    simp [Function.watch, readChar, call, eof, minus, fits, Result.state?]
  · rw [decide_eq_false last] at eof
    simp [Function.watch, readChar, call, eof, fits, Result.state?]

/-- The variable that counts the values shown. -/
def shown (n : Nat) : List Variable := [⟨"i", .int64, some (.int .int64 n)⟩]

include fits bound in
/-- One turn of the loop that writes the values of the stack. -/
lemma ensures_showElement (streams : ∀ x ∈ ["fputs", "fprintf"], x ∉ functions.map Function.name)
    {n : Nat} (inside : n < stack.length) :
    (showElement.watch (watchedScope size fuel functions) fuel none).Ensures (Allowed size)
      (memory stack free (shown n) input output diagnostics) fun flow after =>
        flow = .next ∧ Stores stack free (shown n) after := by
  have small : n < 2 ^ 63 := Nat.lt_trans inside (Nat.lt_of_le_of_lt fits.few bound)
  have fputs := watchedCall_of_notMem size fuel functions (streams "fputs" (by simp))
  have fprintf := watchedCall_of_notMem size fuel functions (streams "fprintf" (by simp))
  have later : BinOp.gt.apply (.int .int64 n) (.int .int 0) = some (.ofBool (0 < n)) := by
    rw [BinOp.apply_word (.inl rfl) (Word.inRange_natCast.2 small) (by decide)]
    simp [BinOp.onCommon]
  have bottom : n < (stack.reverse ++ free).length := by
    rw [List.length_append, List.length_reverse]
    omega
  have value := List.getElem?_eq_getElem bottom
  have read (d : Bytes) := readElement_memory .int64 value (shown n) input output d
  have access (d : Bytes) : Permitted (memory stack free (shown n) input output d)
      (.access (.int .int64 n)) := permitted_access _ (by omega)
  simp only [shown] at read access
  by_cases first : 0 < n
  · rw [decide_eq_true first] at later
    simp [showElement, shown, later, read, access, fputs, fprintf, fits, Result.state?]
  · rw [decide_eq_false first] at later
    simp [showElement, shown, later, read, access, fprintf, fits, Result.state?]

include fits bound in
/-- The loop that writes the values of the stack. Its counter is at most the depth of the stack. -/
lemma ensures_showAll (streams : ∀ x ∈ ["fputs", "fprintf"], x ∉ functions.map Function.name) :
    ((Stmt.for (.assign (.name "i") (.num 0)) (.bin .lt (.name "i") (.name "sp")) (.postIncr "i")
        showElement).watch (watchedScope size fuel functions) fuel none).Ensures (Allowed size)
      (memory stack free [⟨"i", .int64, none⟩] input output diagnostics) fun flow after =>
        flow = .next ∧ Stores stack free (shown stack.length) after := by
  have few : stack.length < 2 ^ 63 := Nat.lt_of_le_of_lt fits.few bound
  have zero : CType.int64.convert 0 = 0 := rfl
  have start : Stores stack free (shown 0) (memory stack free (shown 0) input output diagnostics) :=
    stores_memory ..
  simp [zero, fits, Result.state?]
  refine Watched.ensures_iterate (fun s => ∃ n ≤ stack.length, Stores stack free (shown n) s) ?_
    fuel ⟨0, Nat.zero_le _, start⟩
  rintro _ ⟨n, bounded, input, output, diagnostics, rfl⟩
  have test : BinOp.lt.apply (.int .int64 n) (.int .int64 stack.length) =
      some (.ofBool (n < stack.length)) := by
    rw [BinOp.apply_word (.inr rfl) (Word.inRange_natCast.2 (by omega))
      (Word.inRange_natCast.2 few)]
    simp [BinOp.onCommon]
  by_cases inside : n < stack.length
  · rw [decide_eq_true inside] at test
    simp [shown, test, fits]
    refine (ensures_showElement input output diagnostics bound fits streams inside).mono ?_
    rintro _ _ ⟨rfl, input, output, diagnostics, rfl⟩
    have new : Word.InRange ((n : Int) + 1) :=
      Word.inRange_natCast.2 (show n + 1 < 2 ^ 63 by omega)
    have write : writeName "i" (.int .int64 ((n : Int) + 1))
        (memory stack free (shown n) input output diagnostics) =
        .ok (.int .int64 ((n : Int) + 1))
          (memory stack free (shown (n + 1)) input output diagnostics) := by
      simp [shown, CType.convert_of_inRange new]
    refine (ensures_count (Word.inRange_natCast.2 (by omega)) (by decide) new
      (by simp [shown]) write).2 ?_
    exact ⟨inBounds_memory.2 fits, inBounds_memory.2 fits, n + 1, inside, stores_memory ..⟩
  · rw [decide_eq_false inside] at test
    obtain rfl : n = stack.length := by omega
    simp [shown, test, fits]

variable (functions) in
include fits bound in
/-- The function that shows the stack does what is allowed, and leaves the stack as it is. -/
theorem ensures_dumpStack
    (streams : ∀ x ∈ ["fputc", "fputs", "fprintf"], x ∉ functions.map Function.name) :
    (dumpStack.watch (watchedScope size fuel functions) fuel []).Ensures (Allowed size)
      (memory stack free locals input output diagnostics) fun _ after =>
        Stores stack free locals after := by
  have fputs := watchedCall_of_notMem size fuel functions (streams "fputs" (by simp))
  have fputc := watchedCall_of_notMem size fuel functions (streams "fputc" (by simp))
  simp [Function.watch, dumpStack, fputc, fits, Result.state?, -Stmt.ensures_for]
  refine (ensures_showAll _ _ _ bound fits fun x mem => streams x (.tail _ mem)).mono ?_
  rintro _ _ ⟨rfl, input, output, diagnostics, rfl⟩
  simp [shown, fputs, fits, Result.state?]

end Library

end StackAsm.Compiler
