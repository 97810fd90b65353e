import StackAsm.Proofs.C.Evaluation

set_option autoImplicit false

/-!
# C programs under watch

The meaning of a program is what becomes of it in the end. What a program must not do, it does on
the way: a stack pointer leaves its range and comes back, an unsigned difference wraps. So here a
program is executed while notes are taken of each state that it reaches, of each operator that it
applies and of each element that it accesses. What becomes of the program is the same as without the
notes.

## Main definitions

* `StackAsm.C.Event` — a note: what a program does, and the state in which it does it.
* `StackAsm.C.Watched` — evaluations that take notes.
* `StackAsm.C.Expr.watch`, `StackAsm.C.Stmt.watch`, `StackAsm.C.Source.watch` — the meaning of
  expressions, statements and source files, with notes.

## Main results

* `StackAsm.C.Source.watch_eq` — the result of a program under watch is its result.

## Implementation notes

Of an evaluation that changes the state the new state is noted, and a program begins with a note of
its first state. Initial values of variables of file scope are constants in C, so nothing is noted
of them.
-/

namespace StackAsm.C

/-! ## Notes -/

/-- What a program does. -/
inductive Act where
  /-- It reaches a state. -/
  | arrive
  /-- It applies an operator, which stands in the expression `e`, to the values of the operands. -/
  | apply (e : Expr) (op : BinOp) (left right : Value)
  /-- It accesses the element of the array that an index names. -/
  | access (index : Value)

/-- A note on the execution of a program. -/
structure Event where
  /-- The state in which the program does something. -/
  state : State
  /-- What it does. -/
  act : Act

/-- The state in which an evaluation ends. -/
def Result.state? {α : Type} : Result α → Option State
  | .ok _ s | .exit _ s => some s
  | .undefined | .unfinished => none

/-- Evaluations that take notes. -/
def Watched (α : Type) := State → List Event × Result α

namespace Watched

variable {α β : Type}

/-- Goes on after an evaluation that ended with a value. -/
def bind (x : Watched α) (f : α → Watched β) : Watched β := fun s =>
  match x s with
  | (events, .ok a s) => (events ++ (f a s).1, (f a s).2)
  | (events, .exit status s) => (events, .exit status s)
  | (events, .undefined) => (events, .undefined)
  | (events, .unfinished) => (events, .unfinished)

instance : Monad Watched where
  pure a := fun s => ([], .ok a s)
  bind := bind

/-- Takes a note of what is done. -/
def note (act : Act) : Watched Unit := fun s => ([⟨s, act⟩], .ok () s)

/-- An evaluation of which nothing is noted, since it does not change the state. -/
def quiet (x : Eval α) : Watched α := fun s => ([], x s)

/-- An evaluation of which the new state is noted. -/
def lift (x : Eval α) : Watched α := fun s =>
  (((x s).state?.map fun after => ⟨after, .arrive⟩).toList, x s)

/-- An evaluation without its notes. -/
def erase (x : Watched α) : Eval α := fun s => (x s).2

end Watched

/-- What a program under watch refers to. -/
structure WatchedScope where
  /-- The constants defined in the file. -/
  constants : List (String × Nat)
  /-- The functions defined so far, the last one first. -/
  functions : List (String × (List Value → Watched Value))

/-- The scope without the notes that its functions take. -/
def WatchedScope.erase (scope : WatchedScope) : Scope :=
  ⟨scope.constants, scope.functions.map fun f => (f.1, fun args => (f.2 args).erase)⟩

/-! ## Expressions and statements -/

namespace Watched

/-- Adds a number to a variable, as the expression `e` says, and answers with its value before and
afterwards. -/
def addToName (scope : WatchedScope) (e : Expr) (x : String) (n : Int) :
    Watched (Value × Value) := do
  let before ← quiet (readName scope.erase x)
  note (.apply e .add before (.int .int n))
  let sum ← quiet (Eval.ofOption (BinOp.add.apply before (.int .int n)))
  let after ← lift (writeName x sum)
  return (before, after)

/-- Calls a function of the program, or of the library if the program has none of the name. -/
def callFunction (scope : WatchedScope) (f : String) (args : List Value) : Watched Value :=
  match scope.functions.lookup f with
  | some meaning => meaning args
  | none => lift (libraryCall f args)

/-- Executes `body` and then `step` as long as `test` holds, for fewer than `fuel` turns. -/
def iterate (test : Watched Bool) (body : Watched Flow) (step : Watched Unit) :
    (fuel : Nat) → Watched Flow
  | 0 => quiet fun _ => .unfinished
  | fuel + 1 => do
    if ← test then
      match ← body with
      | .leave => return .next
      | .return v => return .return v
      | .next | .again =>
        step
        iterate test body step fuel
    else return .next

/-- Drops the variables that were declared while a block was executed. -/
def inBlock (body : Watched Flow) : Watched Flow := do
  let before := (← quiet Eval.get).locals.length
  let flow ← body
  lift (Eval.modify fun s => { s with locals := s.locals.drop (s.locals.length - before) })
  return flow

end Watched

open Watched (note quiet lift)

namespace Expr

mutual

/-- The value of an expression. -/
def watch (scope : WatchedScope) : Expr → Watched Value
  | num n => quiet (Eval.ofOption (Value.ofNat? n))
  | word n => return .int .int64 n.toInt
  | char c => return .int .int c.toNat
  | str s => return .str s
  | format s constant => do
    return .str (s ++ (← quiet (Eval.ofOption (formatConstant? constant))))
  | name x => quiet (readName scope.erase x)
  | element _ index => do
    let i ← index.watch scope
    note (.access i)
    quiet (readElement i)
  | neg e => do
    let v ← e.watch scope
    note (.apply (neg e) .sub (.int .int 0) v)
    quiet (Eval.ofOption (BinOp.sub.apply (.int .int 0) v))
  | cast type e => do
    let v ← e.watch scope
    quiet (Eval.ofOption (v.convert? type))
  | bin op a b => do
    let v ← a.watch scope
    match op with
    | .and =>
      if ← quiet (Eval.ofOption v.truth?) then
        let w ← b.watch scope
        return .ofBool (← quiet (Eval.ofOption w.truth?))
      else return .ofBool false
    | .or =>
      if ← quiet (Eval.ofOption v.truth?) then return .ofBool true
      else
        let w ← b.watch scope
        return .ofBool (← quiet (Eval.ofOption w.truth?))
    | op =>
      let w ← b.watch scope
      note (.apply (bin op a b) op v w)
      quiet (Eval.ofOption (op.apply v w))
  | cond test a b => do
    let v ← test.watch scope
    if ← quiet (Eval.ofOption v.truth?) then a.watch scope else b.watch scope
  | assign (name x) e => do lift (writeName x (← e.watch scope))
  | assign (element _ index) e => do
    let i ← index.watch scope
    let v ← e.watch scope
    note (.access i)
    lift (writeElement i v)
  | assign _ _ => quiet Eval.undefined
  | postIncr x => do return (← Watched.addToName scope (postIncr x) x 1).1
  | preDecr x => do return (← Watched.addToName scope (preDecr x) x (-1)).2
  | call f args => do Watched.callFunction scope f (← watchAll scope args)

/-- The values of expressions, from left to right. -/
def watchAll (scope : WatchedScope) : List Expr → Watched (List Value)
  | [] => return []
  | e :: es => do
    let v ← e.watch scope
    return v :: (← watchAll scope es)

end

/-- Whether the value of an expression is true. -/
def watchTest (scope : WatchedScope) (e : Expr) : Watched Bool := do
  let v ← e.watch scope
  quiet (Eval.ofOption v.truth?)

end Expr

/-- Declares variables, from left to right. -/
def Watched.declareAll (scope : WatchedScope) (type : CType) :
    List (String × Option Expr) → Watched Unit
  | [] => return ()
  | (x, none) :: vars => do
    lift (Eval.modify fun s => { s with locals := ⟨x, type, none⟩ :: s.locals })
    declareAll scope type vars
  | (x, some e) :: vars => do
    let v ← e.watch scope
    let w ← quiet (Eval.ofOption (v.convert? type))
    lift (Eval.modify fun s => { s with locals := ⟨x, type, some w⟩ :: s.locals })
    declareAll scope type vars

/-- Executes a statement: from its beginning, or from a label in it. Each loop takes fewer than
`fuel` turns. -/
def Stmt.watch (scope : WatchedScope) (fuel : Nat) : (start : Option Label) → Stmt → Watched Flow
  | start, seq _ s t => do
    match start with
    | some label =>
      if s.hasLabel label then
        match ← s.watch scope fuel (some label) with
        | .next => t.watch scope fuel none
        | flow => return flow
      else t.watch scope fuel (some label)
    | none =>
      match ← s.watch scope fuel none with
      | .next => t.watch scope fuel none
      | flow => return flow
  | start, block _ s => Watched.inBlock (s.watch scope fuel start)
  | _, gap | _, caseLabel _ _ | _, defaultLabel => return .next
  | _, expr e => do
    let _ ← e.watch scope
    return .next
  | _, declare type vars => do
    Watched.declareAll scope type vars
    return .next
  | _, ifThen test body => do
    if ← test.watchTest scope then body.watch scope fuel none else return .next
  | _, .while test body =>
    Watched.iterate (test.watchTest scope) (body.watch scope fuel none) (pure ()) fuel
  | _, .for first test step body => do
    let _ ← first.watch scope
    Watched.iterate (test.watchTest scope) (body.watch scope fuel none)
      (do let _ ← step.watch scope) fuel
  | _, forever body => Watched.iterate (pure true) (body.watch scope fuel none) (pure ()) fuel
  | _, switch e body => do
    match ← e.watch scope with
    | .int _ n =>
      let label := if body.hasLabel (.value n) then .value n else .default
      if body.hasLabel label then
        match ← body.watch scope fuel (some label) with
        | .leave => return .next
        | flow => return flow
      else return .next
    | _ => quiet Eval.undefined
  | _, leave => return .leave
  | _, again => return .again
  | _, .return e => do return .return (← e.watch scope)

/-! ## Functions and source files -/

/-- The meaning of a function that sees what is in `scope`. -/
def Function.watch (f : Function) (scope : WatchedScope) (fuel : Nat) (args : List Value) :
    Watched Value := do
  let params ← quiet (Eval.ofOption (parameters? f.params args))
  let caller := (← quiet Eval.get).locals
  lift (Eval.modify fun s => { s with locals := params })
  let flow ← f.body.watch scope fuel none
  lift (Eval.modify fun s => { s with locals := caller })
  match flow with
  | .return v => quiet (Eval.ofOption (v.convert? f.result))
  | .next => if f.result = .void then return .void else quiet Eval.undefined
  | _ => quiet Eval.undefined

/-- Takes note of a function. -/
def WatchedScope.define (scope : WatchedScope) (f : Function) (fuel : Nat) : WatchedScope :=
  { scope with functions := (f.name, f.watch scope fuel) :: scope.functions }

/-- Takes note of an item. -/
def Item.watch (fuel : Nat) (scope : WatchedScope) : Item → Watched WatchedScope
  | .local f | exported f => return scope.define f fuel
  | item => do
    let declared ← quiet (item.declare fuel scope.erase)
    return { scope with constants := declared.constants }

/-- Takes note of the items of a source file. -/
def Source.watchItems (fuel : Nat) (scope : WatchedScope) : Source → Watched WatchedScope
  | [] => return scope
  | item :: items => do
    let scope ← item.watch fuel scope
    watchItems fuel scope items

/-- Executes a source file on an input: what is noted on the way, and what becomes of it. -/
def Source.watch (source : Source) (fuel : Nat) (input : Bytes) : List Event × Result Value :=
  (do
    let scope ← source.watchItems fuel ⟨[], []⟩
    note .arrive
    Watched.callFunction scope "main" []) (State.initial input)

/-! ## Taking notes changes nothing -/

namespace Watched

variable {α β : Type}

/-- Nothing is noted of a value at hand. -/
@[simp] lemma erase_pure (a : α) : (pure a : Watched α).erase = pure a := rfl

/-- Without the notes, a note does nothing. -/
@[simp] lemma erase_note (act : Act) : (note act).erase = pure () := rfl

/-- What notes nothing is the evaluation itself. -/
@[simp] lemma erase_quiet (x : Eval α) : (quiet x).erase = x := rfl

/-- Without the note of where it arrives, an evaluation is itself. -/
@[simp] lemma erase_lift (x : Eval α) : (lift x).erase = x := rfl

/-- Without the notes, what follows an evaluation follows it still. -/
@[simp] lemma erase_bind (x : Watched α) (f : α → Watched β) :
    (x >>= f).erase = x.erase >>= fun a => (f a).erase := by
  funext s
  show (Watched.bind x f s).2 = Eval.bind x.erase (fun a => (f a).erase) s
  unfold Watched.bind Eval.bind erase
  rcases x s with ⟨events, _ | _ | _ | _⟩ <;> rfl

/-- Without the notes, a choice is one between the same evaluations. -/
lemma erase_ite (c : Prop) [Decidable c] (x y : Watched α) :
    (if c then x else y).erase = if c then x.erase else y.erase := apply_ite ..

end Watched

-- not for the whole library: it changes how programs are simplified where they are executed
local instance : LawfulMonad Eval :=
  .mk' Eval
    (fun x => by
      funext s
      show Eval.bind x (fun a => pure a) s = x s
      unfold Eval.bind
      cases x s <;> rfl)
    (fun a f => rfl)
    (fun x f g => by
      funext s
      show Eval.bind (Eval.bind x f) g s = Eval.bind x (fun a => Eval.bind (f a) g) s
      unfold Eval.bind
      cases x s <;> rfl)

/-- An evaluation and what follows it end with a value exactly if both do. -/
lemma Eval.bind_eq_ok_iff {α β : Type} {x : Eval α} {f : α → Eval β} {s s' : State} {b : β} :
    (x >>= f) s = .ok b s' ↔ ∃ a t, x s = .ok a t ∧ f a t = .ok b s' := by
  rw [Eval.bind_run]
  cases x s <;> simp

/-- To look whether a value is there ends with a value exactly if it is there. -/
lemma Eval.ofOption_eq_ok_iff {α : Type} {o : Option α} {s s' : State} {a : α} :
    Eval.ofOption o s = .ok a s' ↔ o = some a ∧ s = s' := by
  cases o <;> simp

open Watched (erase_ite)

/-- Under watch, a variable is counted up or down as always. -/
lemma Watched.erase_addToName (scope : WatchedScope) (e : Expr) (x : String) (n : Int) :
    (addToName scope e x n).erase = C.addToName scope.erase x n := by
  simp [addToName, C.addToName]

/-- Under watch, a function is called as always. -/
lemma Watched.erase_callFunction (scope : WatchedScope) (f : String) (args : List Value) :
    (callFunction scope f args).erase = C.callFunction scope.erase f args := by
  unfold callFunction C.callFunction WatchedScope.erase
  induction scope.functions with
  | nil => rfl
  | cons g functions ih =>
    rw [List.map_cons, List.lookup_cons, List.lookup_cons]
    cases f == g.1 with
    | true => rfl
    | false => exact ih

/-- Two evaluations are the same if their beginnings are, and what follows them. -/
lemma Watched.erase_bind_eq {α β : Type} {x : Watched α} {y : Eval α} {f : α → Watched β}
    {g : α → Eval β} (first : x.erase = y) (next : ∀ a, (f a).erase = g a) :
    (x >>= f).erase = y >>= g := by
  rw [erase_bind, first]
  exact congrArg (y >>= ·) (funext next)

mutual

/-- The value of an expression under watch is its value. -/
lemma Expr.erase_watch (scope : WatchedScope) : (e : Expr) →
    (e.watch scope).erase = e.eval scope.erase
  | num _ | word _ | char _ | str _ | name _ => rfl
  | format _ _ => by simp [watch]
  | element _ index => by
    rw [watch, eval]
    exact Watched.erase_bind_eq (index.erase_watch scope) fun i => by simp
  | neg e => by
    rw [watch, eval]
    exact Watched.erase_bind_eq (e.erase_watch scope) fun v => by simp
  | cast _ e => by
    rw [watch, eval]
    exact Watched.erase_bind_eq (e.erase_watch scope) fun v => by simp
  | bin op a b => by
    rw [watch, eval]
    refine Watched.erase_bind_eq (a.erase_watch scope) fun v => ?_
    have right := b.erase_watch scope
    cases op <;> simp [erase_ite, right]
  | cond test a b => by
    rw [watch, eval]
    refine Watched.erase_bind_eq (test.erase_watch scope) fun v => ?_
    simp [erase_ite, a.erase_watch scope, b.erase_watch scope]
  | assign target e => by
    have value := e.erase_watch scope
    cases target with
    | name x => simp [watch, value]
    | element array index =>
      have place := index.erase_watch scope
      simp [watch, value, place]
    | _ => rfl
  | postIncr x => by simp [watch, Watched.erase_addToName]
  | preDecr x => by simp [watch, Watched.erase_addToName]
  | call f args => by
    rw [watch, eval]
    exact Watched.erase_bind_eq (Expr.erase_watchAll scope args)
      (Watched.erase_callFunction scope f)

/-- Under watch, arguments are evaluated as always. -/
lemma Expr.erase_watchAll (scope : WatchedScope) : (es : List Expr) →
    (watchAll scope es).erase = evalAll scope.erase es
  | [] => rfl
  | e :: es => by
    simp [watchAll, e.erase_watch scope, Expr.erase_watchAll scope es]

end

/-- Under watch, a condition is tested as always. -/
lemma Expr.erase_watchTest (scope : WatchedScope) (e : Expr) :
    (e.watchTest scope).erase = e.test scope.erase := by
  simp [watchTest, e.erase_watch scope]

/-- Under watch, a loop takes its turns as always. -/
lemma Watched.erase_iterate (test : Watched Bool) (body : Watched Flow) (step : Watched Unit)
    (fuel : Nat) : (iterate test body step fuel).erase =
      C.iterate test.erase body.erase step.erase fuel := by
  induction fuel with
  | zero => rfl
  | succ fuel ih =>
    rw [iterate, C.iterate]
    refine erase_bind_eq rfl fun goes => ?_
    rw [erase_ite]
    congr 1
    refine erase_bind_eq rfl fun flow => ?_
    cases flow <;> simp [ih]

/-- Under watch, a block is executed as always. -/
lemma Watched.erase_inBlock (body : Watched Flow) :
    (inBlock body).erase = C.inBlock body.erase := by
  simp [inBlock, C.inBlock]

/-- Under watch, variables are declared as always. -/
lemma Watched.erase_declareAll (scope : WatchedScope) (type : CType)
    (vars : List (String × Option Expr)) :
    (declareAll scope type vars).erase = C.declareAll scope.erase type vars := by
  induction vars with
  | nil => rfl
  | cons v vars ih =>
    obtain ⟨x, _ | e⟩ := v
    · simp [declareAll, C.declareAll, ih]
    · simp [declareAll, C.declareAll, ih, e.erase_watch scope]

/-- What becomes of a statement under watch is what becomes of it. -/
lemma Stmt.erase_watch (scope : WatchedScope) (fuel : Nat) (start : Option Label) (s : Stmt) :
    (s.watch scope fuel start).erase = s.exec scope.erase fuel start := by
  induction s generalizing start with
  | gap | caseLabel | defaultLabel | leave | again => rfl
  | expr e | «return» e =>
    rw [watch, exec]
    exact Watched.erase_bind_eq (e.erase_watch scope) fun v => rfl
  | declare type vars =>
    rw [watch, exec]
    exact Watched.erase_bind_eq (Watched.erase_declareAll scope type vars) fun v => rfl
  | seq layout s t first second =>
    have next (start : Option Label) : (do
        match ← s.watch scope fuel start with
        | .next => t.watch scope fuel none
        | flow => return flow : Watched Flow).erase = (do
        match ← s.exec scope.erase fuel start with
        | .next => t.exec scope.erase fuel none
        | flow => return flow) := by
      refine Watched.erase_bind_eq (first start) fun flow => ?_
      cases flow with
      | next => exact second none
      | _ => rfl
    cases start with
    | none =>
      rw [watch, exec]
      exact next none
    | some label =>
      rw [watch, exec, erase_ite]
      exact if_congr Iff.rfl (next _) (second _)
  | block layout s body =>
    rw [watch, exec, Watched.erase_inBlock, body]
  | ifThen test s body =>
    rw [watch, exec]
    refine Watched.erase_bind_eq (test.erase_watchTest scope) fun holds => ?_
    rw [erase_ite, body]
    rfl
  | «while» test s body =>
    rw [watch, exec, Watched.erase_iterate, test.erase_watchTest scope, body]
    rfl
  | «for» first test step s body =>
    rw [watch, exec]
    refine Watched.erase_bind_eq (first.erase_watch scope) fun v => ?_
    rw [Watched.erase_iterate, test.erase_watchTest scope, body]
    simp [step.erase_watch scope]
  | forever s body =>
    rw [watch, exec, Watched.erase_iterate, body]
    rfl
  | switch e s body =>
    rw [watch, exec]
    refine Watched.erase_bind_eq (e.erase_watch scope) fun v => ?_
    cases v with
    | int type n =>
      dsimp only
      rw [erase_ite]
      congr 1
      refine Watched.erase_bind_eq (body _) fun flow => ?_
      cases flow <;> rfl
    | _ => rfl

/-! ## Functions and source files -/

/-- Under watch, a function means what it always means. -/
lemma Function.erase_watch (f : Function) (scope : WatchedScope) (fuel : Nat)
    (args : List Value) : (f.watch scope fuel args).erase = f.meaning scope.erase fuel args := by
  rw [watch, meaning]
  refine Watched.erase_bind_eq rfl fun params => ?_
  refine Watched.erase_bind_eq rfl fun before => ?_
  refine Watched.erase_bind_eq rfl fun _ => ?_
  refine Watched.erase_bind_eq (f.body.erase_watch scope fuel none) fun flow => ?_
  refine Watched.erase_bind_eq rfl fun _ => ?_
  cases flow with
  | next =>
    rw [erase_ite]
    rfl
  | _ => rfl

/-- Under watch, a definition adds the function that it always adds. -/
lemma WatchedScope.erase_define (scope : WatchedScope) (f : Function) (fuel : Nat) :
    (scope.define f fuel).erase = scope.erase.define f fuel := by
  have meaning : (fun args => (f.watch scope fuel args).erase) = f.meaning scope.erase fuel :=
    funext (f.erase_watch scope fuel)
  simp [define, erase, Scope.define, meaning]

/-- What follows an item sees the same, with notes and without. -/
lemma Item.erase_watch_bind {α : Type} (item : Item) (fuel : Nat) (scope : WatchedScope)
    {f : WatchedScope → Watched α} {g : Scope → Eval α}
    (next : ∀ visible, (f visible).erase = g visible.erase) :
    (item.watch fuel scope >>= f).erase = item.declare fuel scope.erase >>= g := by
  have kept : (f { scope with constants := scope.erase.constants }).erase = g scope.erase :=
    next scope
  cases item with
  | «local» h | exported h =>
    show (f (scope.define h fuel)).erase = g (scope.erase.define h fuel)
    rw [next, scope.erase_define]
  | define constant value =>
    exact next { scope with constants := (constant, value) :: scope.constants }
  | gap | comment | «include» => exact kept
  | «variable» type x e =>
    simp only [watch, declare, Watched.erase_bind, Watched.erase_quiet, Watched.erase_pure, kept,
      bind_assoc, pure_bind]
  | array type x length =>
    simp only [watch, declare, Watched.erase_bind, Watched.erase_quiet, Watched.erase_pure,
      bind_assoc, pure_bind]
    refine bind_congr fun v => ?_
    cases v with
    | int t n =>
      by_cases positive : 0 < n
      · simp only [if_pos positive, bind_assoc, pure_bind, kept]
      · simp only [if_neg positive]
        rfl
    | _ => rfl

/-- Under watch, a source declares what it always declares. -/
lemma Source.erase_watchItems_bind {α : Type} (source : Source) (fuel : Nat)
    (scope : WatchedScope) {f : WatchedScope → Watched α} {g : Scope → Eval α}
    (next : ∀ visible, (f visible).erase = g visible.erase) :
    (source.watchItems fuel scope >>= f).erase = source.declare fuel scope.erase >>= g := by
  induction source generalizing scope with
  | nil => exact next scope
  | cons item items ih =>
    have rest : (item.watch fuel scope >>= fun visible => watchItems fuel visible items >>= f).erase
        = item.declare fuel scope.erase >>= fun visible => declare fuel visible items >>= g :=
      item.erase_watch_bind fuel scope ih
    simpa [watchItems, declare] using rest

/-- **Taking notes changes nothing.** What becomes of a program under watch is what becomes of it.
-/
theorem Source.watch_eq (source : Source) (fuel : Nat) (input : Bytes) :
    (source.watch fuel input).2 = source.run fuel input := by
  refine congrFun (source.erase_watchItems_bind fuel ⟨[], []⟩ fun visible => ?_)
    (State.initial input)
  rw [Watched.erase_bind, Watched.erase_note, pure_bind, Watched.erase_callFunction]

end StackAsm.C
