import StackAsm.C.Semantics
import StackAsm.Proofs.Program

set_option autoImplicit false

/-!
# Evaluating C by rewriting

What an expression or a statement does to a given state is found by rewriting with the equations of
its meaning, which are tagged for `simp` here, together with facts on the values that turn up:
conversions that change nothing, constants, and the functions of the C library.

## Main definitions

* `StackAsm.C.Result.Is` — a result is the expected one unless the evaluation was given up.

## Main results

* `StackAsm.C.Result.Is.bind` — the expected result of an evaluation and of what follows it.
* `StackAsm.C.Value.exists_ofNat?` — the value of a decimal constant that is a word.
-/

namespace StackAsm.C

/-! ## Values -/

/-- The value of a word is in the range of the type of words. -/
@[simp] lemma CType.convert_toInt (w : Word) : CType.int64.convert w.toInt = w.toInt := by
  rw [CType.convert, Int64.ofInt_toInt]

/-- What is in the range of the type of words is converted to itself. -/
lemma CType.convert_of_inRange {n : Int} (h : Word.InRange n) : CType.int64.convert n = n :=
  Int64.toInt_ofInt_of_le (Word.inRange_iff.1 h).1 (Word.inRange_iff.1 h).2

/-- A conversion to the type of words wraps around. -/
lemma CType.convert_int64 (n : Int) : CType.int64.convert n = n.bmod (2 ^ 64) :=
  Int64.toInt_ofInt

/-- A conversion to the unsigned type is the remainder. -/
lemma CType.convert_uint64 (n : Int) : CType.uint64.convert n = n % (2 ^ 64 : Nat) := by
  rw [CType.convert, UInt64.ofInt, UInt64.toNat_ofNat']
  omega

/-- Unsigned arithmetic never overflows, it wraps around. -/
lemma CType.result?_uint64 (n : Int) :
    CType.uint64.result? n = some (.int .uint64 (CType.uint64.convert n)) := rfl

/-- A small natural number is converted to itself. -/
lemma CType.convert_uint64_natCast {n : Nat} (h : n < 2 ^ 64) : CType.uint64.convert n = n := by
  rw [CType.convert_uint64]
  exact Int.emod_eq_of_lt (by omega) (by omega)

/-- A small natural number is a result of unsigned arithmetic as it is. -/
lemma CType.result?_uint64_natCast {n : Nat} (h : n < 2 ^ 64) :
    CType.uint64.result? n = some (.int .uint64 n) := by
  rw [CType.result?_uint64, CType.convert_uint64_natCast h]

/-- The small integers that are values of `int`: bytes, the number at the end of the input, and
digits. -/
lemma CType.convert_int {n : Int} (low : -2 ^ 31 ≤ n) (high : n < 2 ^ 31) :
    CType.int.convert n = n :=
  Int32.toInt_ofInt_of_le low high

namespace Value

/-- The literal for zero has type `int`. -/
@[simp] lemma ofNat?_zero : ofNat? 0 = some (.int .int 0) := rfl

/-- The literal for one has type `int`. -/
@[simp] lemma ofNat?_one : ofNat? 1 = some (.int .int 1) := rfl

/-- The literal for ten has type `int`. -/
@[simp] lemma ofNat?_ten : ofNat? 10 = some (.int .int 10) := rfl

/-- A decimal constant that is a word has that value, in one of the two signed types. -/
theorem exists_ofNat? {n : Nat} (h : n < 2 ^ 63) :
    ∃ t, (t = .int ∨ t = .int64) ∧ t.Holds n ∧ ofNat? n = some (.int t n) := by
  have holds : CType.int64.Holds n := CType.convert_of_inRange (Word.inRange_natCast.2 h)
  by_cases short : CType.int.Holds n
  · exact ⟨.int, .inl rfl, short, by rw [ofNat?, if_pos short]⟩
  · exact ⟨.int64, .inr rfl, holds, by rw [ofNat?, if_neg short, if_pos holds]⟩

/-- A number is true if it is not zero. -/
@[simp] lemma truth?_int (t : CType) (n : Int) : (int t n).truth? = some (decide (n ≠ 0)) := rfl

/-- The truth values are values of type `int` as they are. -/
@[simp] lemma convert?_ofBool (b : Bool) : (ofBool b).convert? .int = some (ofBool b) := by
  cases b <;> rfl

/-- A truth value is as true as it says. -/
@[simp] lemma truth?_ofBool (b : Bool) : (ofBool b).truth? = some b := by cases b <;> rfl

/-- No value remains no value. -/
@[simp] lemma convert?_void : void.convert? .void = some void := rfl

/-- A text remains the text it is. -/
@[simp] lemma convert?_str (text : String) : (str text).convert? .string = some (str text) := rfl

/-- A number that is thrown away is no value. -/
@[simp] lemma convert?_int_void (t : CType) (n : Int) :
    (int t n).convert? .void = some void := rfl

/-- A number is converted to type `int`. -/
@[simp] lemma convert?_int_int (t : CType) (n : Int) :
    (int t n).convert? .int = some (.int .int (CType.int.convert n)) := rfl

/-- A number is converted to the type of words. -/
@[simp] lemma convert?_int_int64 (t : CType) (n : Int) :
    (int t n).convert? .int64 = some (.int .int64 (CType.int64.convert n)) := rfl

/-- A number is converted to the unsigned type of words. -/
@[simp] lemma convert?_int_uint64 (t : CType) (n : Int) :
    (int t n).convert? .uint64 = some (.int .uint64 (CType.uint64.convert n)) := rfl

/-- A number is converted to the type of bytes. -/
@[simp] lemma convert?_int_uchar (t : CType) (n : Int) :
    (int t n).convert? .uchar = some (.int .uchar (CType.uchar.convert n)) := rfl

end Value

/-! ## Operators -/

namespace BinOp

variable {op : BinOp} {t : CType} {a b : Int}

/-- Nothing happens to a word and a number that is a word, too, or an `int` when an operator brings
them to their common type. -/
lemma apply_word (type : t = .int ∨ t = .int64) (ha : Word.InRange a) (hb : Word.InRange b) :
    op.apply (.int .int64 a) (.int t b) = op.onCommon .int64 a b := by
  have common : CType.common .int64 t = .int64 := by rcases type with rfl | rfl <;> rfl
  rw [apply, common, CType.convert_of_inRange ha, CType.convert_of_inRange hb]

/-- Two words, the second perhaps in an `int`, are compared by value. -/
lemma eq_words (type : t = .int ∨ t = .int64) (v w : Word) :
    BinOp.eq.apply (.int .int64 v.toInt) (.int t w.toInt) = some (.ofBool (v = w)) := by
  rw [apply_word type (Word.inRange_toInt v) (Word.inRange_toInt w)]
  simp only [BinOp.onCommon, Int64.toInt_inj]

/-- Nothing happens to two numbers of type `int`. -/
lemma apply_ints (ha : -2 ^ 31 ≤ a ∧ a < 2 ^ 31) (hb : -2 ^ 31 ≤ b ∧ b < 2 ^ 31) :
    op.apply (.int .int a) (.int .int b) = op.onCommon .int a b := by
  have common : CType.common .int .int = .int := rfl
  rw [apply, common, CType.convert_int ha.1 ha.2, CType.convert_int hb.1 hb.2]

/-- Nothing happens to an unsigned number and one that is not negative. -/
lemma apply_unsigned {m n : Nat} (type : t = .int ∨ t = .uint64) (hm : m < 2 ^ 64)
    (hn : n < 2 ^ 64) : op.apply (.int .uint64 m) (.int t n) = op.onCommon .uint64 m n := by
  have common : CType.common .uint64 t = .uint64 := by rcases type with rfl | rfl <;> rfl
  rw [apply, common, CType.convert_uint64_natCast hm, CType.convert_uint64_natCast hn]

end BinOp

/-- A number in the range of `int` is a result of arithmetic in it. -/
lemma CType.result?_int {n : Int} (low : -2 ^ 31 ≤ n) (high : n < 2 ^ 31) :
    CType.int.result? n = some (.int .int n) := by
  have holds : CType.int.Holds n := CType.convert_int low high
  rw [result?, if_pos (by decide), if_pos holds]

/-- A number in the range of words is a result of arithmetic with words. -/
lemma CType.result?_int64 {n : Int} (h : Word.InRange n) :
    CType.int64.result? n = some (.int .int64 n) := by
  have holds : CType.int64.Holds n := CType.convert_of_inRange h
  rw [result?, if_pos (by decide), if_pos holds]

/-! ## Evaluations -/

-- The equations have proofs of their own. An equation that holds by unfolding would be checked
-- again at each use, by executing the program as far as it goes.

/-- A value at hand leaves the state as it is. -/
@[simp] lemma Eval.pure_run {α : Type} (a : α) (s : State) : (pure a : Eval α) s = .ok a s :=
  (rfl)

/-- What follows an evaluation runs from the value and the state the evaluation leaves. -/
@[simp ↓] lemma Eval.bind_run {α β : Type} (x : Eval α) (f : α → Eval β) (s : State) :
    (x >>= f) s = match x s with
      | .ok a s => f a s
      | .exit status s => .exit status s
      | .undefined => .undefined
      | .unfinished => .unfinished :=
  (rfl)

/-- The state is read without a change to it. -/
@[simp] lemma Eval.get_apply (s : State) : Eval.get s = .ok s s := rfl

/-! ## The C library -/

section Library

variable (t : CType) (n : Int) (text : String) (stream : Stream) (values : List Value)

/-- Flushing has no effect that can be seen. -/
@[simp] lemma libraryCall_fflush :
    libraryCall "fflush" [.stream .stdout] = pure (.int .int 0) := rfl

/-- The call of `exit` ends the program with a status. -/
@[simp] lemma libraryCall_exit :
    libraryCall "exit" [.int t n] = fun s => .exit n s := rfl

/-- The call of `getchar` reads a byte of the input. -/
@[simp] lemma libraryCall_getchar : libraryCall "getchar" [] = readInput := rfl

/-- The call of `putchar` writes a byte to the output. -/
@[simp] lemma libraryCall_putchar :
    libraryCall "putchar" [.int t n] = writeStream .stdout [byteOf n] := rfl

/-- The call of `fputc` writes a byte to a stream. -/
@[simp] lemma libraryCall_fputc :
    libraryCall "fputc" [.int t n, .stream stream] = writeStream stream [byteOf n] := rfl

/-- The call of `fputs` writes a text to a stream. -/
@[simp] lemma libraryCall_fputs :
    libraryCall "fputs" [.str text, .stream stream] = writeStream stream (Utf8.encode text) := rfl

/-- The call of `printf` writes formatted values to the output. -/
@[simp] lemma libraryCall_printf :
    libraryCall "printf" (.str text :: values) = writeFormatted .stdout text values := rfl

/-- The call of `fprintf` writes formatted values to a stream. -/
@[simp] lemma libraryCall_fprintf :
    libraryCall "fprintf" (.stream stream :: .str text :: values) =
      writeFormatted stream text values := rfl

end Library

/-- The conversion for a word is that of a long integer. -/
@[simp] lemma formatConstant?_PRId64 : formatConstant? "PRId64" = some "ld" := rfl

/-- A word is written in decimal. -/
@[simp] lemma writeFormatted_word (stream : Stream) (n : Int) :
    writeFormatted stream "%ld" [.int .int64 n] =
      writeStream stream (Utf8.encode (Decimal.text n)) := by
  have text : formatted? "%ld".toList [.int .int64 n] = some (Decimal.text n ++ "") := rfl
  funext s
  simp only [writeFormatted, text, Eval.bind_run, Eval.ofOption_some, String.append_empty]

/-- An error is written as a line with its message. -/
@[simp] lemma writeFormatted_error (stream : Stream) (message : String) :
    writeFormatted stream "Error: %s\n" [.str message] =
      writeStream stream (Utf8.encode ("Error: " ++ message ++ "\n")) := by
  have text : formatted? "Error: %s\n".toList [.str message] =
      some ("Error: " ++ (message ++ "\n")) := rfl
  funext s
  simp only [writeFormatted, text, Eval.bind_run, Eval.ofOption_some, String.append_assoc]

/-! ## Expressions and statements -/

attribute [simp] Stmt.ofList parameters? declareAll setVariable libraryName?

namespace Expr

variable (scope : Scope) (n : Nat) (x text : String) (a b e : Expr) (type : CType) (es : List Expr)

/-- A literal without a sign has the value of its number, where the number fits a type. -/
@[simp] lemma eval_num : (num n).eval scope = Eval.ofOption (Value.ofNat? n) := (rfl)

/-- A literal for a word has its value. -/
@[simp] lemma eval_word (w : Word) : (word w).eval scope = pure (.int .int64 w.toInt) := (rfl)

/-- A character constant has the code of the character as value. -/
@[simp] lemma eval_char (c : Char) : (char c).eval scope = pure (.int .int c.toNat) := (rfl)

/-- A string literal is its text. -/
@[simp] lemma eval_str : (str text).eval scope = pure (.str text) := (rfl)

/-- A format is its text with the text of the constant behind it. -/
@[simp] lemma eval_format (constant : String) : (format text constant).eval scope =
    (do return .str (text ++ (← Eval.ofOption (formatConstant? constant)))) := (rfl)

/-- A variable is read. -/
@[simp] lemma eval_name : (name x).eval scope = readName scope x := (rfl)

/-- An element is read at the value of its index. -/
@[simp] lemma eval_element : (element x e).eval scope = (do readElement (← e.eval scope)) := (rfl)

/-- A negation subtracts from zero. -/
@[simp] lemma eval_neg : (neg e).eval scope = (do
    let v ← e.eval scope
    Eval.ofOption (BinOp.sub.apply (.int .int 0) v)) := (rfl)

/-- A cast converts the value. -/
@[simp] lemma eval_cast : (cast type e).eval scope = (do
    let v ← e.eval scope
    Eval.ofOption (v.convert? type)) := (rfl)

/-- All operators but two evaluate both of their operands. -/
@[simp] lemma eval_bin {op : BinOp} (strict : op ≠ .and ∧ op ≠ .or) :
    (bin op a b).eval scope = (do
      let v ← a.eval scope
      let w ← b.eval scope
      Eval.ofOption (op.apply v w)) := by
  cases op with
  | and => exact absurd rfl strict.1
  | or => exact absurd rfl strict.2
  | _ => rfl

/-- A conjunction with a false left side does not look at the right one. -/
@[simp] lemma eval_bin_and : (bin .and a b).eval scope = (do
    let v ← a.eval scope
    if ← Eval.ofOption v.truth? then
      let w ← b.eval scope
      return .ofBool (← Eval.ofOption w.truth?)
    else return .ofBool false) := (rfl)

/-- A disjunction with a true left side does not look at the right one. -/
@[simp] lemma eval_bin_or : (bin .or a b).eval scope = (do
    let v ← a.eval scope
    if ← Eval.ofOption v.truth? then return .ofBool true
    else
      let w ← b.eval scope
      return .ofBool (← Eval.ofOption w.truth?)) := (rfl)

/-- A conditional expression evaluates the chosen side only. -/
@[simp] lemma eval_cond : (cond e a b).eval scope = (do
    let v ← e.eval scope
    if ← Eval.ofOption v.truth? then a.eval scope else b.eval scope) := (rfl)

/-- An assignment writes the value to the variable. -/
@[simp] lemma eval_assign_name : (assign (name x) e).eval scope =
    (do writeName x (← e.eval scope)) := (rfl)

/-- An assignment to an element evaluates the index before the value. -/
@[simp] lemma eval_assign_element : (assign (element x a) e).eval scope = (do
    let i ← a.eval scope
    let v ← e.eval scope
    writeElement i v) := (rfl)

/-- A postfix increment has the value before it. -/
@[simp] lemma eval_postIncr : (postIncr x).eval scope =
    (do return (← addToName scope x 1).1) := (rfl)

/-- A prefix decrement has the value after it. -/
@[simp] lemma eval_preDecr : (preDecr x).eval scope =
    (do return (← addToName scope x (-1)).2) := (rfl)

/-- A call evaluates its arguments and then calls the function. -/
@[simp] lemma eval_call : (call x es).eval scope = (do
    callFunction scope x (← evalAll scope es)) := (rfl)

/-- No arguments have no values. -/
@[simp] lemma evalAll_nil : evalAll scope [] = pure [] := (rfl)

/-- Arguments are evaluated from left to right. -/
@[simp] lemma evalAll_cons : evalAll scope (e :: es) = (do
    let v ← e.eval scope
    return v :: (← evalAll scope es)) := (rfl)

/-- A condition is the truth of its value. -/
@[simp] lemma test_apply : test scope e = (do
    let v ← e.eval scope
    Eval.ofOption v.truth?) := (rfl)

end Expr

namespace Stmt

variable (scope : Scope) (fuel : Nat) (layout : Layout) (a b : Stmt) (e : Expr)

/-- The second of two statements is executed if the first one goes on. -/
@[simp] lemma exec_seq : (seq layout a b).exec scope fuel none = (do
    match ← a.exec scope fuel none with
    | .next => b.exec scope fuel none
    | flow => return flow) := (rfl)

/-- A block is executed with local variables of its own. -/
@[simp] lemma exec_block :
    (block layout a).exec scope fuel none = inBlock (a.exec scope fuel none) := (rfl)

/-- An empty line goes on. -/
@[simp] lemma exec_gap : gap.exec scope fuel none = pure .next := (rfl)

/-- An expression statement throws the value away. -/
@[simp] lemma exec_expr : (expr e).exec scope fuel none = (do
    let _ ← e.eval scope
    return .next) := (rfl)

/-- A declaration declares its variables and goes on. -/
@[simp] lemma exec_declare (type : CType) (vars : List (String × Option Expr)) :
    (declare type vars).exec scope fuel none = (do
      declareAll scope type vars
      return .next) := (rfl)

/-- A conditional statement executes its body or goes on. -/
@[simp] lemma exec_ifThen : (ifThen e a).exec scope fuel none = (do
    if ← e.test scope then a.exec scope fuel none else return .next) := (rfl)

/-- A break leaves the loop. -/
@[simp] lemma exec_leave : leave.exec scope fuel none = pure .leave := (rfl)

/-- A continue ends the turn. -/
@[simp] lemma exec_again : again.exec scope fuel none = pure .again := (rfl)

/-- A return ends the function with the value. -/
@[simp] lemma exec_return : (Stmt.return e).exec scope fuel none = (do
    return .return (← e.eval scope)) := (rfl)

end Stmt

/-- Among no variables there is none of a name. -/
@[simp] lemma namedVariable?_nil (x : String) : namedVariable? [] x = none := rfl

/-- The first variable of a name is the one it stands for. -/
@[simp] lemma namedVariable?_cons (v : Variable) (vars : List Variable) (x : String) :
    namedVariable? (v :: vars) x = if v.name = x then some v else namedVariable? vars x := by
  by_cases h : v.name = x <;> simp [namedVariable?, List.find?, h]

section Connectives

variable {scope : Scope} {s : State} {a b : Expr} {p q : Bool}

/-- A disjunction of two truth values is their disjunction. -/
lemma Expr.eval_or (left : a.eval scope s = .ok (.ofBool p) s)
    (right : b.eval scope s = .ok (.ofBool q) s) :
    (Expr.bin .or a b).eval scope s = .ok (.ofBool (p || q)) s := by
  cases p <;> simp [left, right]

/-- A conjunction of two truth values is their conjunction. -/
lemma Expr.eval_and (left : a.eval scope s = .ok (.ofBool p) s)
    (right : b.eval scope s = .ok (.ofBool q) s) :
    (Expr.bin .and a b).eval scope s = .ok (.ofBool (p && q)) s := by
  cases p <;> simp [left, right]

/-- A conditional statement with a known truth value is its body or nothing. -/
lemma Stmt.exec_ifThen_of_eval {fuel : Nat} {body : Stmt}
    (value : a.eval scope s = .ok (.ofBool p) s) :
    (Stmt.ifThen a body).exec scope fuel none s =
      if p then body.exec scope fuel none s else .ok .next s := by
  cases p <;> simp [value]

end Connectives

/-! ## The array -/

section Array

variable {s : State} {k : Nat}

/-- An index below the length of the array is a place in it. -/
lemma place?_natCast (t : CType) (inside : k < s.array.length) :
    place? s (.int t k) = some ⟨k, inside⟩ := by
  simp only [place?, Int.toNat_natCast]
  exact dif_pos ⟨by omega, inside⟩

/-- An element that is there is read. -/
lemma readElement_apply {n : Int} (t : CType) (value : s.array[k]? = some n) :
    readElement (.int t k) s = .ok (.int .int64 n) s := by
  obtain ⟨inside, rfl⟩ := List.getElem?_eq_some_iff.1 value
  rw [readElement, place?_natCast t inside]
  rfl

/-- A word is written to an element that is there. -/
lemma writeElement_apply (t : CType) (w : Word) (inside : k < s.array.length) :
    writeElement (.int t k) (.int .int64 w.toInt) s =
      .ok (.int .int64 w.toInt) { s with array := s.array.set k w.toInt } := by
  rw [writeElement, place?_natCast t inside, Value.convert?_int_int64, CType.convert_toInt]

end Array

/-! ## Results for lack of turns -/

/-- A result is the expected one, or the evaluation is given up, because loops would need more turns
than `fuel` allows; that does not happen if `fuel` exceeds `turns`. -/
def Result.Is {α : Type} (fuel turns : Nat) (expected r : Result α) : Prop :=
  r = expected ∨ r = .unfinished ∧ fuel ≤ turns

namespace Result.Is

variable {α β : Type} {fuel turns : Nat}

/-- A result given up for lack of turns is given up for lack of more turns. -/
lemma mono {expected r : Result α} {more : Nat} (h : Is fuel turns expected r)
    (le : turns ≤ more) : Is fuel more expected r :=
  h.imp id fun ⟨stops, few⟩ => ⟨stops, Nat.le_trans few le⟩

/-- What follows an evaluation decides, if the evaluation ends with a value. -/
theorem bind {x : Eval α} {f : α → Eval β} {s s' : State} {a : α} {expected : Result β}
    (first : Is fuel turns (.ok a s') (x s)) (next : Is fuel turns expected (f a s')) :
    Is fuel turns expected ((x >>= f) s) := by
  rcases first with ok | ⟨stops, few⟩
  · rwa [Eval.bind_run, ok]
  · exact .inr ⟨by rw [Eval.bind_run, stops], few⟩

/-- What ends a program is not followed by anything. -/
lemma bind_exit {x : Eval α} {f : α → Eval β} {s s' : State} {status : Int}
    (first : Is fuel turns (.exit status s') (x s)) :
    Is fuel turns (.exit status s') ((x >>= f) s) := by
  rcases first with ok | ⟨stops, few⟩
  · exact .inl (by rw [Eval.bind_run, ok])
  · exact .inr ⟨by rw [Eval.bind_run, stops], few⟩

section Seq

variable {scope : Scope} {n : Nat} {layout : Layout} {a b : Stmt} {s s' : State}
  {expected : Result Flow}

/-- Of two statements the second decides, if the first goes on. -/
lemma seq (first : Is fuel turns (.ok .next s') (a.exec scope n none s))
    (next : Is fuel turns expected (b.exec scope n none s')) :
    Is fuel turns expected ((Stmt.seq layout a b).exec scope n none s) := by
  rw [Stmt.exec]
  exact bind first next

/-- Of two statements the first decides, if it ends the program. -/
lemma seq_exit {status : Int} (first : Is fuel turns (.exit status s') (a.exec scope n none s)) :
    Is fuel turns (.exit status s') ((Stmt.seq layout a b).exec scope n none s) := by
  rw [Stmt.exec]
  exact bind_exit first

end Seq

end Result.Is

/-! ## Loops -/

section Iterate

variable {test : Eval Bool} {body : Eval Flow} {step : Eval Unit} {fuel turns : Nat}
  {s tested done stepped : State}

/-- A loop ends when its test fails. -/
lemma iterate_end (stops : test s = .ok false tested) :
    Result.Is fuel 0 (.ok .next tested) (iterate test body step fuel s) := by
  cases fuel with
  | zero => exact .inr ⟨rfl, Nat.le_refl 0⟩
  | succ fuel =>
    refine .inl ?_
    simp [iterate, stops]

/-- A turn of a loop is followed by the rest of them. -/
lemma iterate_turn {expected : Result Flow} {flow : Flow} (goes : test s = .ok true tested)
    (turn : body tested = .ok flow done) (on : flow = .next ∨ flow = .again)
    (next : step done = .ok () stepped)
    (rest : ∀ fuel, Result.Is fuel turns expected (iterate test body step fuel stepped)) :
    Result.Is fuel (turns + 1) expected (iterate test body step fuel s) := by
  cases fuel with
  | zero => exact .inr ⟨rfl, Nat.zero_le _⟩
  | succ fuel =>
    have unfolded : iterate test body step (fuel + 1) s = iterate test body step fuel stepped := by
      rcases on with rfl | rfl <;> simp [iterate, goes, turn, next]
    rw [unfolded]
    exact (rest fuel).imp id fun ⟨stops, few⟩ => ⟨stops, Nat.succ_le_succ few⟩

/-- A loop in which the program ends. -/
lemma iterate_exit {status : Int} (goes : test s = .ok true tested)
    (ends : body tested = .exit status done) :
    Result.Is fuel 0 (.exit status done) (iterate test body step fuel s) := by
  cases fuel with
  | zero => exact .inr ⟨rfl, Nat.le_refl 0⟩
  | succ fuel =>
    refine .inl ?_
    simp [iterate, goes, ends]

end Iterate

end StackAsm.C
