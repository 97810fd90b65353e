import StackAsm.C.Value
import StackAsm.Utf8

set_option autoImplicit false

/-!
# The meaning of C programs

An evaluator for the part of C that `StackAsm.C.Syntax` describes. An evaluation ends with a value,
or with the end of the whole program by `exit`, or shows that the program has no meaning; or it is
given up because a loop takes more turns than are looked at.

## Main definitions

* `StackAsm.C.State` — variables, arrays and streams.
* `StackAsm.C.Result`, `StackAsm.C.Eval` — what becomes of an evaluation.
* `StackAsm.C.libraryCall` — the functions of the C library.
* `StackAsm.C.Expr.eval`, `StackAsm.C.Stmt.exec` — the meaning of expressions and statements.
* `StackAsm.C.Source.run` — the meaning of a source file.

## Implementation notes

C does not fix the order in which operands and arguments are evaluated; here they are evaluated from
left to right. In compiled programs no more than one of them has an effect, so the order does not
show. A function sees the functions defined before it and not itself, so the meaning of a function
is made from the meanings of those, and only loops may fail to end.
-/

namespace StackAsm.C

/-! ## States and results -/

/-- A variable: its type, and its value unless it has none yet. -/
structure Variable where
  /-- The name. -/
  name : String
  /-- The type. -/
  type : CType
  /-- The value. -/
  value? : Option Value
  deriving DecidableEq, Repr

/-- What a program changes while it is executed. -/
structure State where
  /-- The variables of file scope. -/
  globals : List Variable
  /-- The array, of which there is one. -/
  array : List Int
  /-- The variables of the function that is executed, the last one first. -/
  locals : List Variable
  /-- The input that is not read yet. -/
  input : Bytes
  /-- What was written to the output. -/
  output : Bytes
  /-- What was written to the diagnostics. -/
  diagnostics : Bytes
  deriving DecidableEq, Repr

/-- What becomes of an evaluation. -/
inductive Result (α : Type) where
  /-- It ends with a value. -/
  | ok (value : α) (state : State)
  /-- It ends the program with a status. -/
  | exit (status : Int) (state : State)
  /-- It has no meaning. -/
  | undefined
  /-- It is given up. -/
  | unfinished
  deriving DecidableEq, Repr

/-- Evaluations. -/
def Eval (α : Type) := State → Result α

namespace Eval

variable {α β : Type}

/-- Goes on after an evaluation that ended with a value. -/
def bind (x : Eval α) (f : α → Eval β) : Eval β := fun s =>
  match x s with
  | .ok a s => f a s
  | .exit status s => .exit status s
  | .undefined => .undefined
  | .unfinished => .unfinished

instance : Monad Eval where
  pure a := fun s => .ok a s
  bind := bind

/-- What has no meaning. -/
def undefined : Eval α := fun _ => .undefined

/-- A value that there may not be. -/
def ofOption (a : Option α) : Eval α := fun s =>
  match a with
  | some a => .ok a s
  | none => .undefined

/-- A value that is there is returned in the state at hand. -/
@[simp] theorem ofOption_some (a : α) (s : State) : ofOption (some a) s = .ok a s := rfl

/-- A value that is missing leaves the evaluation undefined. -/
@[simp] theorem ofOption_none (s : State) : (ofOption none : Eval α) s = .undefined := rfl

/-- The state. -/
def get : Eval State := fun s => .ok s s

/-- Changes the state. -/
def modify (f : State → State) : Eval Unit := fun s => .ok () (f s)

end Eval

/-- The meaning of a function: from its arguments to its result. -/
abbrev Meaning := List Value → Eval Value

/-- What a program refers to: constants and functions by their names. -/
structure Scope where
  /-- The constants defined in the file. -/
  constants : List (String × Nat)
  /-- The functions defined so far, the last one first. -/
  functions : List (String × Meaning)

/-! ## Variables -/

/-- The constants and streams of the C library. -/
def libraryName? : String → Option Value
  | "INT64_MIN" => some (.int .int64 Int64.minValue.toInt)
  | "INT64_MAX" => some (.int .int64 Int64.maxValue.toInt)
  | "EOF" => some (.int .int (-1))
  | "stdin" => some (.stream .stdin)
  | "stdout" => some (.stream .stdout)
  | "stderr" => some (.stream .stderr)
  | _ => none

/-- The variable of the given name, if it is among those given. -/
def namedVariable? (vars : List Variable) (x : String) : Option Variable := vars.find? (·.name = x)

/-- The value of a name. -/
def readName (scope : Scope) (x : String) : Eval Value := fun s =>
  match namedVariable? s.locals x, namedVariable? s.globals x, scope.constants.lookup x with
  | some v, _, _ | none, some v, _ => Eval.ofOption v.value? s
  | none, none, some n => Eval.ofOption (Value.ofNat? n) s
  | none, none, none => Eval.ofOption (libraryName? x) s

/-- Variables after a value is assigned to the first one of the given name. -/
def setVariable (x : String) (value : Value) : List Variable → List Variable
  | [] => []
  | v :: vars =>
    if v.name = x then { v with value? := some value } :: vars else v :: setVariable x value vars

/-- Assigns a value to a variable and answers with the value, converted to the type of the
variable. -/
def writeName (x : String) (value : Value) : Eval Value := fun s =>
  match namedVariable? s.locals x with
  | some v =>
    match value.convert? v.type with
    | some w => .ok w { s with locals := setVariable x w s.locals }
    | none => .undefined
  | none =>
    match namedVariable? s.globals x with
    | some v =>
      match value.convert? v.type with
      | some w => .ok w { s with globals := setVariable x w s.globals }
      | none => .undefined
    | none => .undefined

/-- Adds a number to a variable and answers with its value before and afterwards. -/
def addToName (scope : Scope) (x : String) (n : Int) : Eval (Value × Value) := do
  let before ← readName scope x
  let sum ← Eval.ofOption (BinOp.add.apply before (.int .int n))
  let after ← writeName x sum
  return (before, after)

/-- The place in the array that an index names. -/
def place? (s : State) : Value → Option (Fin s.array.length)
  | .int _ n => if h : 0 ≤ n ∧ n.toNat < s.array.length then some ⟨n.toNat, h.2⟩ else none
  | _ => none

/-- The value of an element. -/
def readElement (index : Value) : Eval Value := fun s =>
  match place? s index with
  | some i => .ok (.int .int64 s.array[i]) s
  | none => .undefined

/-- Assigns a value to an element. -/
def writeElement (index value : Value) : Eval Value := fun s =>
  match place? s index, value.convert? .int64 with
  | some i, some (.int t n) => .ok (.int t n) { s with array := s.array.set i n }
  | _, _ => .undefined

/-! ## The C library -/

/-- The string that a constant of the library stands for. -/
def formatConstant? : String → Option String
  | "PRId64" => some "ld"
  | _ => none

/-- What is written for a format and the values that it asks for. -/
def formatted? : List Char → List Value → Option String
  | [], [] => some ""
  | [], _ :: _ => none
  | '%' :: 's' :: cs, .str s :: vs => (formatted? cs vs).map (s ++ ·)
  | '%' :: 'l' :: 'd' :: cs, .int .int64 n :: vs => (formatted? cs vs).map (Decimal.text n ++ ·)
  | '%' :: _, _ => none
  | c :: cs, vs => (formatted? cs vs).map (String.singleton c ++ ·)

/-- Writes to a stream. -/
def writeStream (stream : Stream) (bytes : Bytes) : Eval Value := fun s =>
  match stream with
  | .stdout => .ok (.int .int 0) { s with output := s.output ++ bytes }
  | .stderr => .ok (.int .int 0) { s with diagnostics := s.diagnostics ++ bytes }
  | .stdin => .undefined

/-- Writes a format and the values that it asks for. -/
def writeFormatted (stream : Stream) (format : String) (values : List Value) : Eval Value := do
  let text ← Eval.ofOption (formatted? format.toList values)
  writeStream stream (Utf8.encode text)

/-- The byte that an integer is converted to. -/
def byteOf (n : Int) : UInt8 := UInt8.ofNat (n % 256).toNat

/-- Reads a byte of the input; at its end there is the value of `EOF` instead. -/
def readInput : Eval Value := fun s =>
  match s.input with
  | [] => .ok (.int .int (-1)) s
  | b :: rest => .ok (.int .int b.toNat) { s with input := rest }

/-- The meaning of the functions of the C library. -/
def libraryCall (f : String) (args : List Value) : Eval Value :=
  match f, args with
  | "fflush", [.stream .stdout] => return .int .int 0
  | "exit", [.int _ status] => fun s => .exit status s
  | "getchar", [] => readInput
  | "ungetc", [.int _ c, .stream .stdin] => fun s =>
    .ok (.int .int c) { s with input := byteOf c :: s.input }
  | "putchar", [.int _ c] => writeStream .stdout [byteOf c]
  | "fputc", [.int _ c, .stream stream] => writeStream stream [byteOf c]
  | "fputs", [.str text, .stream stream] => writeStream stream (Utf8.encode text)
  | "printf", .str format :: values => writeFormatted .stdout format values
  | "fprintf", .stream stream :: .str format :: values => writeFormatted stream format values
  | _, _ => Eval.undefined

/-- Calls a function of the program, or of the library if the program has none of the name. -/
def callFunction (scope : Scope) (f : String) (args : List Value) : Eval Value :=
  match scope.functions.lookup f with
  | some meaning => meaning args
  | none => libraryCall f args

/-! ## Expressions -/

namespace Expr

mutual

/-- The value of an expression. -/
def eval (scope : Scope) : Expr → Eval Value
  | num n => Eval.ofOption (Value.ofNat? n)
  | word n => return .int .int64 n.toInt
  | char c => return .int .int c.toNat
  | str s => return .str s
  | format s constant => do return .str (s ++ (← Eval.ofOption (formatConstant? constant)))
  | name x => readName scope x
  | element _ index => do readElement (← index.eval scope)
  | neg e => do
    let v ← e.eval scope
    Eval.ofOption (BinOp.sub.apply (.int .int 0) v)
  | cast type e => do
    let v ← e.eval scope
    Eval.ofOption (v.convert? type)
  | bin op a b => do
    let v ← a.eval scope
    match op with
    | .and =>
      if ← Eval.ofOption v.truth? then
        let w ← b.eval scope
        return .ofBool (← Eval.ofOption w.truth?)
      else return .ofBool false
    | .or =>
      if ← Eval.ofOption v.truth? then return .ofBool true
      else
        let w ← b.eval scope
        return .ofBool (← Eval.ofOption w.truth?)
    | op =>
      let w ← b.eval scope
      Eval.ofOption (op.apply v w)
  | cond test a b => do
    let v ← test.eval scope
    if ← Eval.ofOption v.truth? then a.eval scope else b.eval scope
  | assign (name x) e => do writeName x (← e.eval scope)
  | assign (element _ index) e => do
    let i ← index.eval scope
    let v ← e.eval scope
    writeElement i v
  | assign _ _ => Eval.undefined
  | postIncr x => do return (← addToName scope x 1).1
  | preDecr x => do return (← addToName scope x (-1)).2
  | call f args => do callFunction scope f (← evalAll scope args)

/-- The values of expressions, from left to right. -/
def evalAll (scope : Scope) : List Expr → Eval (List Value)
  | [] => return []
  | e :: es => do
    let v ← e.eval scope
    return v :: (← evalAll scope es)

end

/-- Whether the value of an expression is true. -/
def test (scope : Scope) (e : Expr) : Eval Bool := do
  let v ← e.eval scope
  Eval.ofOption v.truth?

end Expr

/-! ## Statements -/

/-- How a statement ends. -/
inductive Flow where
  /-- The next statement follows. -/
  | next
  /-- The innermost loop or `switch` is left. -/
  | leave
  /-- The innermost loop goes on with its next turn. -/
  | again
  /-- The function returns. -/
  | return (value : Value)
  deriving DecidableEq, Repr

/-- The labels of a `switch`. -/
inductive Label where
  /-- The label of a value. -/
  | value (n : Int)
  /-- The label for all other values. -/
  | default
  deriving DecidableEq, Repr

/-- Executes `body` and then `step` as long as `test` holds, for fewer than `fuel` turns. -/
def iterate (test : Eval Bool) (body : Eval Flow) (step : Eval Unit) : (fuel : Nat) → Eval Flow
  | 0 => fun _ => .unfinished
  | fuel + 1 => do
    if ← test then
      match ← body with
      | .leave => return .next
      | .return v => return .return v
      | .next | .again =>
        step
        iterate test body step fuel
    else return .next

/-- Declares variables, from left to right. -/
def declareAll (scope : Scope) (type : CType) : List (String × Option Expr) → Eval Unit
  | [] => return ()
  | (x, none) :: vars => do
    Eval.modify fun s => { s with locals := ⟨x, type, none⟩ :: s.locals }
    declareAll scope type vars
  | (x, some e) :: vars => do
    let v ← e.eval scope
    let w ← Eval.ofOption (v.convert? type)
    Eval.modify fun s => { s with locals := ⟨x, type, some w⟩ :: s.locals }
    declareAll scope type vars

/-- Drops the variables that were declared while a block was executed. -/
def inBlock (body : Eval Flow) : Eval Flow := do
  let before := (← Eval.get).locals.length
  let flow ← body
  Eval.modify fun s => { s with locals := s.locals.drop (s.locals.length - before) }
  return flow

namespace Stmt

/-- The labels among the statements of a `switch`, in order; they must differ from each other. -/
def labels : Stmt → List Label
  | seq _ s t => s.labels ++ t.labels
  | block _ s => s.labels
  | caseLabel n _ => [.value n.toInt]
  | defaultLabel => [.default]
  | _ => []

/-- Whether a label is among the statements of a `switch`. -/
def hasLabel (label : Label) (s : Stmt) : Bool := label ∈ s.labels

/-- Executes a statement: from its beginning, or from a label in it. Each loop takes fewer than
`fuel` turns. -/
def exec (scope : Scope) (fuel : Nat) : (start : Option Label) → Stmt → Eval Flow
  | start, seq _ s t => do
    match start with
    | some label =>
      if s.hasLabel label then
        match ← s.exec scope fuel (some label) with
        | .next => t.exec scope fuel none
        | flow => return flow
      else t.exec scope fuel (some label)
    | none =>
      match ← s.exec scope fuel none with
      | .next => t.exec scope fuel none
      | flow => return flow
  | start, block _ s => inBlock (s.exec scope fuel start)
  | _, gap | _, caseLabel _ _ | _, defaultLabel => return .next
  | _, expr e => do
    let _ ← e.eval scope
    return .next
  | _, declare type vars => do
    declareAll scope type vars
    return .next
  | _, ifThen test body => do
    if ← test.test scope then body.exec scope fuel none else return .next
  | _, .while test body => iterate (test.test scope) (body.exec scope fuel none) (pure ()) fuel
  | _, .for first test step body => do
    let _ ← first.eval scope
    iterate (test.test scope) (body.exec scope fuel none) (do let _ ← step.eval scope) fuel
  | _, forever body => iterate (pure true) (body.exec scope fuel none) (pure ()) fuel
  | _, switch e body => do
    match ← e.eval scope with
    | .int _ n =>
      let label := if body.hasLabel (.value n) then .value n else .default
      if body.hasLabel label then
        match ← body.exec scope fuel (some label) with
        | .leave => return .next
        | flow => return flow
      else return .next
    | _ => Eval.undefined
  | _, leave => return .leave
  | _, again => return .again
  | _, .return e => do return .return (← e.eval scope)

end Stmt

/-! ## Functions and source files -/

/-- The variables that hold the arguments of a call. -/
def parameters? : List (CType × String) → List Value → Option (List Variable)
  | [], [] => some []
  | (type, x) :: params, v :: vs => do
    let w ← v.convert? type
    return ⟨x, type, some w⟩ :: (← parameters? params vs)
  | _, _ => none

/-- The meaning of a function that sees what is in `scope`. -/
def Function.meaning (f : Function) (scope : Scope) (fuel : Nat) : Meaning := fun args => do
  let params ← Eval.ofOption (parameters? f.params args)
  let caller := (← Eval.get).locals
  Eval.modify fun s => { s with locals := params }
  let flow ← f.body.exec scope fuel none
  Eval.modify fun s => { s with locals := caller }
  match flow with
  | .return v => Eval.ofOption (v.convert? f.result)
  | .next => if f.result = .void then return .void else Eval.undefined
  | _ => Eval.undefined

/-- Takes note of a function. -/
def Scope.define (scope : Scope) (f : Function) (fuel : Nat) : Scope :=
  { scope with functions := (f.name, f.meaning scope fuel) :: scope.functions }

/-- Takes note of an item. -/
def Item.declare (fuel : Nat) (scope : Scope) : Item → Eval Scope
  | gap | comment _ | .include _ => return scope
  | define constant value =>
    return { scope with constants := (constant, value) :: scope.constants }
  | .variable type x e => do
    let v ← e.eval scope
    let w ← Eval.ofOption (v.convert? type)
    Eval.modify fun s => { s with globals := ⟨x, type, some w⟩ :: s.globals }
    return scope
  | array _ _ length => do
    match ← length.eval scope with
    | .int _ n =>
      if 0 < n then
        Eval.modify fun s => { s with array := List.replicate n.toNat 0 }
        return scope
      else Eval.undefined
    | _ => Eval.undefined
  | .local f | exported f => return scope.define f fuel

/-- Takes note of the items of a source file. -/
def Source.declare (fuel : Nat) (scope : Scope) : Source → Eval Scope
  | [] => return scope
  | item :: items => do
    let scope ← item.declare fuel scope
    declare fuel scope items

/-- The state in which a program begins. -/
def State.initial (input : Bytes) : State := ⟨[], [], [], input, [], []⟩

/-- Executes a source file on an input: the value of its main function, or the status with which it
ends. Each loop takes fewer than `fuel` turns. -/
def Source.run (source : Source) (fuel : Nat) (input : Bytes) : Result Value :=
  (do
    let scope ← source.declare fuel ⟨[], []⟩
    callFunction scope "main" []) (State.initial input)

end StackAsm.C
