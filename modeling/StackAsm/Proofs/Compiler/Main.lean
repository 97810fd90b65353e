import StackAsm.Proofs.Compiler.Turn

set_option autoImplicit false

/-!
# The main function of compiled programs

A compiled program declares its stack and its functions, and its main function declares four
variables and then does nothing but take turns of its loop.

## Main definitions

* `StackAsm.Compiler.loop` — the loop of the main function.
* `StackAsm.Compiler.returned` — what the program makes of the end of the loop.

## Main results

* `StackAsm.Compiler.loop_succ` — a turn of the loop and those after it.
* `StackAsm.Compiler.run_toC` — what a compiled program does, by its loop.
-/

namespace StackAsm.Compiler

open C

/-! ## The loop -/

section Loop

variable {size : Nat}

/-- The loop in the main function. -/
def loop (p : Program) (size fuel turns : Nat) : Eval Flow :=
  iterate (pure true) ((turn p).exec (libraryScope size fuel) fuel none) (pure ()) turns

/-- Without turns the loop is given up. -/
lemma loop_zero (p : Program) (fuel : Nat) (s : State) : loop p size fuel 0 s = .unfinished :=
  (rfl)

/-- A loop takes a turn, and what the turn ends with tells whether it goes on. -/
theorem loop_succ (p : Program) (fuel turns : Nat) (s : State) :
    loop p size fuel (turns + 1) s =
      match (turn p).exec (libraryScope size fuel) fuel none s with
      | .ok .leave s => .ok .next s
      | .ok (.return v) s => .ok (.return v) s
      | .ok _ s => loop p size fuel turns s
      | .exit status s => .exit status s
      | .undefined => .undefined
      | .unfinished => .unfinished := by
  rw [loop, iterate]
  simp only [Eval.bind_run, Eval.pure_run, if_true]
  cases (turn p).exec (libraryScope size fuel) fuel none s with
  | ok flow s' => cases flow <;> rfl
  | _ => rfl

/-- What no turn follows: the end of the program, or a return. -/
def Final : Result Flow → Prop
  | .exit _ _ | .ok (.return _) _ => True
  | _ => False

/-- A turn that nothing follows decides how the loop ends. -/
lemma loop_succ_of_final {p : Program} {fuel turns : Nat} {s : State} {r : Result Flow}
    (final : Final r) (ends : (turn p).exec (libraryScope size fuel) fuel none s = r) :
    loop p size fuel (turns + 1) s = r := by
  rw [loop_succ, ends]
  cases r with
  | ok flow s' =>
    cases flow with
    | «return» v => rfl
    | _ => exact final.elim
  | exit status s' => rfl
  | undefined => rfl
  | unfinished => rfl

end Loop

/-! ## The main function -/

section Main

variable {p : Program} {size fuel : Nat} {free : List Word} {input : Bytes}

/-- What stands in the main function in front of the loop. -/
lemma exec_start (rest : Stmt) :
    (Stmt.ofList .lines
      [.declare .int64 [("pc", some (.word p.start))],
        .declare .int64 [("a", some (.num 0)), ("b", some (.num 0)), ("t", some (.num 0))],
        .ofList .line (["a", "b", "t"].map fun x => .expr (.cast .void (.name x))),
        .gap, rest]).exec (libraryScope size fuel) fuel none (memory [] free [] input [] []) =
      rest.exec (libraryScope size fuel) fuel none
        (memory [] free (mainVars p.start 0 0 0) input [] []) := by
  have zero : CType.int64.convert 0 = 0 := rfl
  simp [zero, mainVars]

/-- The body of the main function declares its variables and takes the turns of the loop. -/
lemma exec_main : (main p).body.exec (libraryScope size fuel) fuel none
    (memory [] free [] input [] []) =
      loop p size fuel fuel (memory [] free (mainVars p.start 0 0 0) input [] []) :=
  exec_start (.forever (turn p))

/-- What the main function makes of the end of its loop. -/
def returned : Result Flow → Result Value
  | .ok (.return v) s =>
    match v.convert? .int with
    | some w => .ok w { s with locals := [] }
    | none => .undefined
  | .ok _ _ => .undefined
  | .exit status s => .exit status s
  | .undefined => .undefined
  | .unfinished => .unfinished

/-- The main function returns what its loop returns. -/
lemma meaning_main : (main p).meaning (libraryScope size fuel) fuel []
    (memory [] free [] input [] []) =
      returned (loop p size fuel fuel (memory [] free (mainVars p.start 0 0 0) input [] [])) := by
  have given : parameters? (main p).params [] = some [] := rfl
  have result : (main p).result = .int := rfl
  rw [Function.meaning, Eval.bind_run, given]
  simp only [Eval.ofOption_some, Eval.bind_run, Eval.get_apply, modify_locals, exec_main,
    locals_memory, result]
  cases loop p size fuel fuel (memory [] free (mainVars p.start 0 0 0) input [] []) with
  | ok flow s =>
    cases flow with
    | «return» v =>
      show Eval.ofOption (v.convert? .int) { s with locals := [] } = _
      rw [returned]
      cases v.convert? .int <;> rfl
    | _ => rfl
  | _ => rfl

end Main

/-! ## The source file -/

section Declare

variable {fuel size : Nat} {input : Bytes} (visible : Scope) (items : Source)

/-- No items declare nothing. -/
lemma declare_nil : Source.declare fuel visible [] = pure visible := (rfl)

/-- Items are declared one after the other. -/
lemma declare_cons (item : Item) : Source.declare fuel visible (item :: items) = (do
    let visible ← item.declare fuel visible
    Source.declare fuel visible items) := (rfl)

/-- A comment declares nothing. -/
lemma declare_comment (text : String) :
    (Item.comment text).declare fuel visible = pure visible := (rfl)

/-- An empty line declares nothing. -/
lemma declare_gap : Item.gap.declare fuel visible = pure visible := (rfl)

/-- Headers declare nothing that is not in scope already. -/
lemma declare_include (header : String) :
    (Item.include header).declare fuel visible = pure visible := (rfl)

/-- A local function is in scope behind its definition. -/
lemma declare_local (f : Function) :
    (Item.local f).declare fuel visible = pure (visible.define f fuel) := (rfl)

/-- An exported function is in scope behind its definition. -/
lemma declare_exported (f : Function) :
    (Item.exported f).declare fuel visible = pure (visible.define f fuel) := (rfl)

/-- A constant is in scope behind its definition. -/
lemma declare_define (x : String) (n : Nat) : (Item.define x n).declare fuel visible =
    pure { visible with constants := (x, n) :: visible.constants } := (rfl)

/-- The array has room for a value even if the stack has none. -/
lemma declare_array (bound : size < 2 ^ 63) :
    (Item.array .int64 "stack" (.cond (.bin .gt (.name "STACK_SIZE") (.num 0)) (.name "STACK_SIZE")
        (.num 1))).declare fuel ⟨[("STACK_SIZE", size)], []⟩ (State.initial input) =
      .ok ⟨[("STACK_SIZE", size)], []⟩
        { State.initial input with array := List.replicate (max size 1) 0 } := by
  obtain ⟨t, type, holds, constant⟩ := Value.exists_ofNat? bound
  have test : BinOp.gt.apply (.int t size) (.int .int 0) = some (.ofBool (0 < size)) := by
    have common : t.common .int = t := by rcases type with rfl | rfl <;> rfl
    have zero : t.convert 0 = 0 := by rcases type with rfl | rfl <;> rfl
    rw [BinOp.apply, common, holds, zero]
    simp [BinOp.onCommon]
  have read : readName ⟨[("STACK_SIZE", size)], []⟩ "STACK_SIZE" (State.initial input) =
      .ok (.int t size) (State.initial input) := by
    have lookup : List.lookup "STACK_SIZE" [("STACK_SIZE", size)] = some size := rfl
    simp [readName, State.initial, lookup, constant]
  by_cases room : 0 < size
  · have most : max size 1 = size := Nat.max_eq_left room
    rw [decide_eq_true room] at test
    simp [Item.declare, read, test, Eval.modify, room, most]
  · have most : max size 1 = 1 := Nat.max_eq_right (by omega)
    rw [decide_eq_false room] at test
    simp [Item.declare, read, test, Eval.modify, most]

/-- The stack pointer is declared as a global variable with the value zero. -/
lemma declare_sp (s : State) :
    (Item.variable .int64 "sp" (.num 0)).declare fuel visible s =
      .ok visible { s with globals := ⟨"sp", .int64, some (.int .int64 0)⟩ :: s.globals } := (rfl)

/-- A source file begins with the functions of all compiled programs. -/
lemma declare_toC (p : Program) (bound : size < 2 ^ 63) :
    (p.toC size).declare fuel ⟨[], []⟩ (State.initial input) =
      .ok (scope size fuel (main p :: libraryFunctions))
        (memory [] (List.replicate (max size 1) 0) [] input [] []) := by
  simp only [Program.toC, library, List.cons_append, List.nil_append, declare_cons, declare_nil,
    declare_comment, declare_gap, declare_include, declare_define, Eval.bind_run, Eval.pure_run,
    declare_local, declare_exported, declare_array bound, declare_sp]
  have start : memory [] (List.replicate (max size 1) 0) [] input [] [] =
      ⟨[⟨"sp", .int64, some (.int .int64 0)⟩], List.replicate (max size 1) 0, [], input, [],
        []⟩ := by
    simp [memory]
  rw [start]
  rfl

end Declare

/-- A compiled program does what its loop does. -/
theorem run_toC {size fuel : Nat} {input : Bytes} (p : Program) (bound : size < 2 ^ 63) :
    (p.toC size).run fuel input = returned (loop p size fuel fuel
      (memory [] (List.replicate (max size 1) 0) (mainVars p.start 0 0 0) input [] [])) := by
  rw [Source.run, Eval.bind_run, declare_toC p bound]
  exact (congrFun (congrFun (callFunction_self size fuel (main p) libraryFunctions) [])
    (memory [] (List.replicate (max size 1) 0) [] input [] [])).trans meaning_main

end StackAsm.Compiler
