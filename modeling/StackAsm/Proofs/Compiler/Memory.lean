import StackAsm.Compiler
import StackAsm.Proofs.C.Evaluation

set_option autoImplicit false

/-!
# The memory of compiled programs

A compiled program keeps its stack at the front of an array, the bottom first, with the depth in
`sp`. Behind the stack stand values that were taken off it or zeros. A state of this form is given
by `Compiler.memory`; this module says what reading, assigning and the streams make of it, and what
the functions mean that are called in it.

## Main definitions

* `StackAsm.Compiler.memory` — the state for a stack, the rest of the array, and variables.
* `StackAsm.Compiler.failure` — how a program ends that cannot go on.
* `StackAsm.Compiler.scope` — the functions that are defined at some point of the source file.

## Main results

* `StackAsm.Compiler.writeName_sp` — moving the stack pointer moves values on and off the stack.
* `StackAsm.Compiler.callFunction_self`, `StackAsm.Compiler.callFunction_cons_of_ne` — which
  function is called.
-/

namespace StackAsm.Compiler

open C

/-! ## States -/

/-- The state for a stack, its top in front, with `free` behind it in the array. -/
def memory (stack : List Word) (free : List Word) (locals : List Variable)
    (input output diagnostics : Bytes) : State :=
  ⟨[⟨"sp", .int64, some (.int .int64 stack.length)⟩],
    (stack.reverse ++ free).map Int64.toInt, locals, input, output, diagnostics⟩

/-- The end of a program that fails with a message. -/
def failure {α : Type} (message : String) (stack : List Word) (free : List Word)
    (input output diagnostics : Bytes) : Result α :=
  .exit 1 (memory stack free [⟨"message", .string, some (.str message)⟩] input output
    (diagnostics ++ Utf8.encode ("Error: " ++ message ++ "\n")))

section Memory

variable (stack : List Word) (free : List Word) (locals : List Variable)
  (input output diagnostics : Bytes)

/-- The local variables of such a state are the given ones. -/
@[simp] lemma locals_memory :
    (memory stack free locals input output diagnostics).locals = locals := (rfl)

/-! ### Variables -/

/-- The local variables are replaced. -/
@[simp] lemma modify_locals (vars : List Variable) :
    Eval.modify (fun s => { s with locals := vars })
        (memory stack free locals input output diagnostics) =
      .ok () (memory stack free vars input output diagnostics) := (rfl)

/-- A variable that is declared comes in front of the local ones. -/
@[simp] lemma modify_declare (v : Variable) :
    Eval.modify (fun s => { s with locals := v :: s.locals })
        (memory stack free locals input output diagnostics) =
      .ok () (memory stack free (v :: locals) input output diagnostics) := (rfl)

/-- A block drops its variables. -/
@[simp] lemma inBlock_memory (body : Eval Flow) :
    inBlock body (memory stack free locals input output diagnostics) =
      (do
        let flow ← body
        Eval.modify fun s =>
          { s with locals := s.locals.drop (s.locals.length - locals.length) }
        return flow) (memory stack free locals input output diagnostics) := (rfl)

/-- The variables declared last are taken away. -/
@[simp] lemma modify_drop (n : Nat) :
    Eval.modify (fun s => { s with locals := s.locals.drop (s.locals.length - n) })
        (memory stack free locals input output diagnostics) =
      .ok () (memory stack free (locals.drop (locals.length - n)) input output diagnostics) := (rfl)

/-- A name is read as a local variable, if there is one of it. -/
@[simp] lemma readName_memory (scope : Scope) (x : String) :
    readName scope x (memory stack free locals input output diagnostics) =
      (match namedVariable? locals x with
        | some v => Eval.ofOption v.value?
        | none =>
          if x = "sp" then pure (.int .int64 stack.length)
          else
            match scope.constants.lookup x with
            | some n => Eval.ofOption (Value.ofNat? n)
            | none => Eval.ofOption (libraryName? x))
        (memory stack free locals input output diagnostics) := by
  unfold readName
  rw [locals_memory]
  cases namedVariable? locals x with
  | some v => rfl
  | none =>
    by_cases sp : x = "sp"
    · subst sp
      rfl
    · have none : namedVariable? (memory stack free locals input output diagnostics).globals x =
          none := by
        simp [memory, Ne.symm sp]
      simp only [none, if_neg sp]
      cases scope.constants.lookup x <;> rfl

/-- A name other than that of the stack pointer is written as a local variable. -/
@[simp] lemma writeName_memory (x : String) (value : Value) (other : x ≠ "sp") :
    writeName x value (memory stack free locals input output diagnostics) =
      match namedVariable? locals x with
      | some v =>
        match value.convert? v.type with
        | some w => .ok w (memory stack free (setVariable x w locals) input output diagnostics)
        | none => .undefined
      | none => .undefined := by
  unfold writeName
  rw [locals_memory]
  cases namedVariable? locals x with
  | some v => rfl
  | none =>
    have none : namedVariable? (memory stack free locals input output diagnostics).globals x =
        none := by
      simp [memory, Ne.symm other]
    simp only [none]

/-! ### The stack pointer and the array -/

variable {stack free locals input output diagnostics}

/-- Moving the stack pointer moves values between the stack and what is behind it. -/
theorem writeName_sp {moved rest : List Word} (same : moved.reverse ++ rest = stack.reverse ++ free)
    (hidden : namedVariable? locals "sp" = none) (size : moved.length < 2 ^ 63) :
    writeName "sp" (.int .int64 moved.length) (memory stack free locals input output diagnostics) =
      .ok (.int .int64 moved.length) (memory moved rest locals input output diagnostics) := by
  have fits : CType.int64.convert moved.length = moved.length :=
    CType.convert_of_inRange (Word.inRange_natCast.2 size)
  unfold writeName
  rw [locals_memory, hidden]
  simp [memory, same, fits]

/-- The step upward of the stack pointer. -/
lemma addToName_up (scope : Scope) (x : Word) (hidden : namedVariable? locals "sp" = none)
    (size : (x :: stack).length < 2 ^ 63) :
    addToName scope "sp" 1 (memory stack (x :: free) locals input output diagnostics) =
      .ok (.int .int64 stack.length, .int .int64 (x :: stack).length)
        (memory (x :: stack) free locals input output diagnostics) := by
  have low : stack.length < 2 ^ 63 := by
    rw [List.length_cons] at size
    omega
  have sum : BinOp.add.apply (.int .int64 stack.length) (.int .int 1) =
      some (.int .int64 (x :: stack).length) := by
    rw [BinOp.apply_word (.inl rfl) (Word.inRange_natCast.2 low) (by decide)]
    exact CType.result?_int64 (Word.inRange_natCast.2 size)
  have write : writeName "sp" (.int .int64 (x :: stack).length)
      (memory stack (x :: free) locals input output diagnostics) =
      .ok (.int .int64 (x :: stack).length)
        (memory (x :: stack) free locals input output diagnostics) :=
    writeName_sp (by simp) hidden size
  simp [addToName, hidden, sum, write, -List.length_cons]

/-- The step downward of the stack pointer. -/
lemma addToName_down (scope : Scope) (x : Word) (hidden : namedVariable? locals "sp" = none)
    (size : (x :: stack).length < 2 ^ 63) :
    addToName scope "sp" (-1) (memory (x :: stack) free locals input output diagnostics) =
      .ok (.int .int64 (x :: stack).length, .int .int64 stack.length)
        (memory stack (x :: free) locals input output diagnostics) := by
  have low : stack.length < 2 ^ 63 := by
    rw [List.length_cons] at size
    omega
  have sum : BinOp.add.apply (.int .int64 (x :: stack).length) (.int .int (-1)) =
      some (.int .int64 stack.length) := by
    have value : ((x :: stack).length : Int) + -1 = stack.length := by
      rw [List.length_cons]
      omega
    rw [BinOp.apply_word (.inl rfl) (Word.inRange_natCast.2 size) (by decide), BinOp.onCommon,
      value]
    exact CType.result?_int64 (Word.inRange_natCast.2 low)
  have write : writeName "sp" (.int .int64 stack.length)
      (memory (x :: stack) free locals input output diagnostics) =
      .ok (.int .int64 stack.length) (memory stack (x :: free) locals input output diagnostics) :=
    writeName_sp (by simp) hidden low
  simp [addToName, hidden, sum, write, -List.length_cons]

/-- An element of the array is read. -/
lemma readElement_memory {k : Nat} {x : Word} (t : CType)
    (value : (stack.reverse ++ free)[k]? = some x) (locals : List Variable)
    (input output diagnostics : Bytes) :
    readElement (.int t k) (memory stack free locals input output diagnostics) =
      .ok (.int .int64 x.toInt) (memory stack free locals input output diagnostics) := by
  apply readElement_apply
  rw [memory, List.getElem?_map, value, Option.map_some]

/-- An element of a reversed list is set, counted from the end of the list. -/
lemma set_reverse {α : Type} (l : List α) {k : Nat} (inside : k < l.length) (x : α) :
    l.reverse.set k x = (l.set (l.length - 1 - k) x).reverse := by
  apply List.ext_getElem
  · simp
  · intro i _ _
    simp only [List.getElem_set, List.getElem_reverse, List.length_set]
    congr 1
    rw [List.length_set, List.length_reverse] at *
    exact propext (by omega)

/-- Assigning to an element of the stack, which is counted from the bottom. -/
lemma writeElement_memory {k : Nat} (t : CType) (x : Word) (inside : k < stack.length)
    (free : List Word) (locals : List Variable) (input output diagnostics : Bytes) :
    writeElement (.int t k) (.int .int64 x.toInt)
        (memory stack free locals input output diagnostics) =
      .ok (.int .int64 x.toInt)
        (memory (stack.set (stack.length - 1 - k) x) free locals input output diagnostics) := by
  have array : ((stack.reverse ++ free).map Int64.toInt).set k x.toInt =
      ((stack.set (stack.length - 1 - k) x).reverse ++ free).map Int64.toInt := by
    rw [← List.map_set, List.set_append_left _ _ (by simpa using inside), set_reverse _ inside]
  rw [writeElement_apply t x (by simp [memory]; omega)]
  simp only [memory, array, List.length_set]

/-! ### Streams -/

variable (stack free locals input output diagnostics)

/-- Bytes are written to the output. -/
@[simp] lemma writeStream_stdout (bytes : Bytes) :
    writeStream .stdout bytes (memory stack free locals input output diagnostics) =
      .ok (.int .int 0) (memory stack free locals input (output ++ bytes) diagnostics) := (rfl)

/-- Bytes are written to the diagnostics. -/
@[simp] lemma writeStream_stderr (bytes : Bytes) :
    writeStream .stderr bytes (memory stack free locals input output diagnostics) =
      .ok (.int .int 0) (memory stack free locals input output (diagnostics ++ bytes)) := (rfl)

/-- A byte that is given back comes in front of the input. -/
@[simp] lemma ungetc_memory (t : CType) (n : Int) :
    libraryCall "ungetc" [.int t n, .stream .stdin]
        (memory stack free locals input output diagnostics) =
      .ok (.int .int n) (memory stack free locals (byteOf n :: input) output diagnostics) := (rfl)

end Memory

/-! ## Calls -/

section Calls

variable {scope : Scope} {fuel turns : Nat} {f : Function} {args : List Value}
  {params locals left : List Variable} {stack free stack' free' : List Word}
  {input output diagnostics input' output' diagnostics' : Bytes}

/-- A call has the value that the body returns; the variables of the caller are back afterwards. -/
lemma meaning_of_return {v w : Value} (given : parameters? f.params args = some params)
    (body : Result.Is fuel turns
      (.ok (.return v) (memory stack' free' left input' output' diagnostics'))
      (f.body.exec scope fuel none (memory stack free params input output diagnostics)))
    (value : v.convert? f.result = some w) :
    Result.Is fuel turns (.ok w (memory stack' free' locals input' output' diagnostics'))
      (f.meaning scope fuel args (memory stack free locals input output diagnostics)) := by
  rcases body with ends | ⟨stops, few⟩
  · exact .inl (by simp [Function.meaning, given, ends, value])
  · exact .inr ⟨by simp [Function.meaning, given, stops], few⟩

/-- A program that ends in the body of a function ends. -/
lemma meaning_of_exit {status : Int} {s : State} (given : parameters? f.params args = some params)
    (body : Result.Is fuel turns (.exit status s)
      (f.body.exec scope fuel none (memory stack free params input output diagnostics))) :
    Result.Is fuel turns (.exit status s)
      (f.meaning scope fuel args (memory stack free locals input output diagnostics)) := by
  rcases body with ends | ⟨stops, few⟩
  · exact .inl (by simp [Function.meaning, given, ends])
  · exact .inr ⟨by simp [Function.meaning, given, stops], few⟩

end Calls

/-! ## Functions in scope -/

/-- What is in scope behind the definition of the stack size and of the given functions, the last
one first. -/
def scope (size fuel : Nat) (functions : List Function) : Scope :=
  functions.foldr (fun f scope => scope.define f fuel) ⟨[("STACK_SIZE", size)], []⟩

section Scope

variable (size fuel : Nat) (f : Function) (functions : List Function)

/-- The stack size is the only constant. -/
@[simp] lemma lookup_constants (x : String) :
    (scope size fuel functions).constants.lookup x =
      if x = "STACK_SIZE" then some size else none := by
  induction functions with
  | nil =>
    by_cases h : x = "STACK_SIZE"
    · simp [scope, h]
    · have unequal : (x == "STACK_SIZE") = false := by simpa using h
      simp [scope, List.lookup, unequal, h]
  | cons f functions ih => exact ih

/-- Where no functions are defined, calls are those of the library. -/
@[simp] lemma callFunction_nil (x : String) (args : List Value) :
    callFunction (scope size fuel []) x args = libraryCall x args := (rfl)

/-- The function defined last is called by its name. -/
@[simp] theorem callFunction_self :
    callFunction (scope size fuel (f :: functions)) f.name =
      f.meaning (scope size fuel functions) fuel := by
  funext args
  simp [callFunction, scope, Scope.define]

/-- A function defined later under another name is not called. -/
theorem callFunction_cons_of_ne {x : String} (other : x ≠ f.name) :
    callFunction (scope size fuel (f :: functions)) x =
      callFunction (scope size fuel functions) x := by
  have unequal : (x == f.name) = false := by simpa using other
  funext args
  simp [callFunction, scope, Scope.define, List.lookup, unequal]

/-- A name that no function has is that of a function of the C library. -/
lemma callFunction_of_notMem {x : String} (other : x ∉ functions.map Function.name) :
    callFunction (scope size fuel functions) x = libraryCall x := by
  induction functions with
  | nil => rfl
  | cons f functions ih =>
    rw [List.map_cons, List.mem_cons, not_or] at other
    rw [callFunction_cons_of_ne _ _ _ _ other.1, ih other.2]

end Scope

end StackAsm.Compiler
