import StackAsm.Proofs.C.Watch

set_option autoImplicit false

/-!
# Assertions on C programs under watch

An evaluation that starts in some state ensures an assertion if it notes nothing but what is
allowed, has a meaning, and leaves a value and a state of which the assertion holds, unless it ends
the program or is given up. What a compound expression or statement ensures is said by what its
parts do, so assertions on programs are found by rewriting; for loops there is an invariant.

## Main definitions

* `StackAsm.C.Result.Meets` — a result has a meaning, and an assertion holds of it.
* `StackAsm.C.Watched.Ensures` — what an evaluation ensures.
* `StackAsm.C.Watched.Steady` — an evaluation that does not change the state.

## Main results

* `StackAsm.C.Watched.ensures_bind` — an evaluation and what follows it.
* `StackAsm.C.Watched.ensures_iterate` — the invariant of a loop.
-/

namespace StackAsm.C

section Meets

variable {α : Type} {post : α → State → Prop} {s : State}

/-- A result has a meaning, and an assertion holds of the value and the state with which it ends. -/
def Result.Meets (post : α → State → Prop) : Result α → Prop
  | .ok a s => post a s
  | .exit _ _ | .unfinished => True
  | .undefined => False

/-- A value meets an assertion that holds of it. -/
@[simp] lemma Result.meets_ok {a : α} : (Result.ok a s).Meets post ↔ post a s := Iff.rfl

/-- The end of a program meets every assertion. -/
@[simp] lemma Result.meets_exit {status : Int} : (Result.exit status s).Meets post :=
  True.intro

/-- An evaluation that is given up meets every assertion. -/
@[simp] lemma Result.meets_unfinished : (Result.unfinished : Result α).Meets post := True.intro

/-- What has no meaning meets no assertion. -/
@[simp] lemma Result.not_meets_undefined : ¬ (Result.undefined : Result α).Meets post := id

/-- A result that meets an assertion meets what follows from it. -/
lemma Result.Meets.mono {post' : α → State → Prop} {r : Result α} (meets : r.Meets post)
    (implies : ∀ a s, post a s → post' a s) : r.Meets post' := by
  cases r with
  | ok a s => exact implies a s meets
  | _ => exact meets

end Meets

namespace Watched

variable {α β : Type} {allowed : Event → Prop} {s : State} {post : α → State → Prop}

/-- From a state on, an evaluation notes nothing but what is allowed, and its result meets an
assertion. -/
def Ensures (allowed : Event → Prop) (x : Watched α) (s : State) (post : α → State → Prop) : Prop :=
  (∀ e ∈ (x s).1, allowed e) ∧ (x s).2.Meets post

/-- An evaluation that ensures an assertion ensures what follows from it. -/
lemma Ensures.mono {x : Watched α} {post' : α → State → Prop} (ensures : x.Ensures allowed s post)
    (implies : ∀ a s, post a s → post' a s) : x.Ensures allowed s post' :=
  ⟨ensures.1, ensures.2.mono implies⟩

/-- What ensures an assertion ensures it, too, where more is allowed. -/
lemma Ensures.weaken {x : Watched α} {more : Event → Prop} (ensures : x.Ensures allowed s post)
    (implies : ∀ e, allowed e → more e) : x.Ensures more s post :=
  ⟨fun e noted => implies e (ensures.1 e noted), ensures.2⟩

/-- A value that is at hand ensures what holds of it. -/
@[simp] lemma ensures_pure {a : α} : (pure a : Watched α).Ensures allowed s post ↔ post a s :=
  and_iff_right fun _ h => absurd h List.not_mem_nil

/-- An evaluation that notes nothing ensures what its result meets. -/
@[simp] lemma ensures_quiet {x : Eval α} :
    (quiet x).Ensures allowed s post ↔ (x s).Meets post :=
  and_iff_right fun _ h => absurd h List.not_mem_nil

/-- An evaluation that notes the state it arrives at ensures what its result meets, if it may
arrive there. -/
@[simp] lemma ensures_lift {x : Eval α} : (lift x).Ensures allowed s post ↔
    (∀ after, (x s).state? = some after → allowed ⟨after, .arrive⟩) ∧ (x s).Meets post := by
  simp [Ensures, lift]

/-- To note an act ensures what holds already, if the act is allowed. -/
@[simp] lemma ensures_note {act : Act} {post : Unit → State → Prop} :
    (note act).Ensures allowed s post ↔ allowed ⟨s, act⟩ ∧ post () s := by
  simp [Ensures, note]

/-- An evaluation ensures what it must for what follows it. -/
@[simp] theorem ensures_bind {x : Watched α} {f : α → Watched β} {post : β → State → Prop} :
    (x >>= f).Ensures allowed s post ↔
      x.Ensures allowed s fun a s => (f a).Ensures allowed s post := by
  show (Watched.bind x f).Ensures allowed s post ↔ _
  unfold Ensures Watched.bind
  rcases x s with ⟨events, _ | _ | _ | _⟩
  · simp [or_imp, forall_and, and_assoc]
  all_goals simp

/-- A choice ensures what the chosen evaluation ensures. -/
@[simp] lemma ensures_ite {c : Prop} [Decidable c] {x y : Watched α} :
    (if c then x else y).Ensures allowed s post ↔
      if c then x.Ensures allowed s post else y.Ensures allowed s post := by
  split <;> rfl

/-- **The invariant of a loop.** It holds before each test, and what the loop ensures holds where
the test fails or the body leaves the loop. -/
theorem ensures_iterate {test : Watched Bool} {body : Watched Flow} {step : Watched Unit}
    {post : Flow → State → Prop} (invariant : State → Prop)
    (turn : ∀ s, invariant s → test.Ensures allowed s fun goes s =>
      if goes then
        body.Ensures allowed s fun flow s =>
          match flow with
          | .leave => post .next s
          | .return v => post (.return v) s
          | .next | .again => step.Ensures allowed s fun _ s => invariant s
      else post .next s)
    (fuel : Nat) (start : invariant s) :
    (iterate test body step fuel).Ensures allowed s post := by
  induction fuel generalizing s with
  | zero => exact ensures_quiet.2 Result.meets_unfinished
  | succ fuel ih =>
    rw [iterate, ensures_bind]
    refine (turn s start).mono fun goes s after => ?_
    rw [ensures_ite]
    cases goes with
    | false => simpa using after
    | true =>
      rw [if_pos rfl] at after ⊢
      rw [ensures_bind]
      refine after.mono fun flow s after => ?_
      cases flow with
      | leave | «return» => simpa using after
      | next | again =>
        rw [ensures_bind]
        exact after.mono fun _ s holds => ih holds

/-! ## Evaluations that change nothing -/

/-- From a state on, an evaluation notes nothing but what is allowed, and it does not change the
state. It need not have a meaning. -/
def Steady (allowed : Event → Prop) (x : Watched α) (s : State) : Prop :=
  (∀ e ∈ (x s).1, allowed e) ∧ ∀ a t, (x s).2 = .ok a t → t = s

namespace Steady

/-- An evaluation that leaves the state as it is and notes nothing is steady. -/
lemma quiet {x : Eval α} (same : ∀ a t, x s = .ok a t → t = s) :
    (Watched.quiet x).Steady allowed s :=
  ⟨fun _ noted => absurd noted List.not_mem_nil, same⟩

/-- A value that is at hand is steady. -/
lemma pure (a : α) : (Pure.pure a : Watched α).Steady allowed s := by
  refine quiet fun b t ends => ?_
  cases ends
  rfl

/-- To look whether a value is there is steady. -/
lemma ofOption (o : Option α) : (Watched.quiet (Eval.ofOption o)).Steady allowed s :=
  quiet fun _ _ value => (Eval.ofOption_eq_ok_iff.1 value).2.symm

/-- To note what is allowed is steady. -/
lemma note {act : Act} (noted : allowed ⟨s, act⟩) : (Watched.note act).Steady allowed s := by
  refine ⟨fun e mem => List.mem_singleton.1 mem ▸ noted, fun a t ends => ?_⟩
  cases ends
  rfl

/-- A steady evaluation with a steady one behind it is steady. -/
lemma bind {x : Watched α} {f : α → Watched β} (first : x.Steady allowed s)
    (next : ∀ a, (f a).Steady allowed s) : (x >>= f).Steady allowed s := by
  obtain ⟨notes, same⟩ := first
  show (Watched.bind x f).Steady allowed s
  unfold Steady Watched.bind
  rcases ends : x s with ⟨events, ⟨a, t⟩ | _ | _ | _⟩
  · rw [ends] at notes same
    obtain rfl := same a t rfl
    refine ⟨fun e mem => ?_, (next a).2⟩
    exact (List.mem_append.1 mem).elim (notes e) ((next a).1 e)
  all_goals
    rw [ends] at notes
    exact ⟨notes, nofun⟩

/-- A choice between two steady evaluations is steady. -/
lemma ite {c : Prop} [Decidable c] {x y : Watched α} (yes : x.Steady allowed s)
    (no : y.Steady allowed s) : (if c then x else y).Steady allowed s := by
  split
  · exact yes
  · exact no

end Steady

end Watched

/-! ## Expressions -/

namespace Expr

open Watched

variable {allowed : Event → Prop} {s : State} {post : Value → State → Prop} {scope : WatchedScope}
  {a b e : Expr} {x text constant : String} {type : CType}

/-- A literal without a sign ensures what holds of its value, if it has one. -/
@[simp] lemma ensures_num {n : Nat} :
    ((num n).watch scope).Ensures allowed s post ↔
      (Eval.ofOption (Value.ofNat? n) s).Meets post := by
  rw [watch, ensures_quiet]

/-- A literal for a word ensures what holds of that word. -/
@[simp] lemma ensures_word {n : Word} :
    ((word n).watch scope).Ensures allowed s post ↔ post (.int .int64 n.toInt) s := by
  rw [watch, ensures_pure]

/-- A character constant ensures what holds of the code of the character. -/
@[simp] lemma ensures_char {c : Char} :
    ((char c).watch scope).Ensures allowed s post ↔ post (.int .int c.toNat) s := by
  rw [watch, ensures_pure]

/-- A string literal ensures what holds of its text. -/
@[simp] lemma ensures_str :
    ((str text).watch scope).Ensures allowed s post ↔ post (.str text) s := by
  rw [watch, ensures_pure]

/-- A format ensures what holds of its text with the text of the constant behind it. -/
@[simp] lemma ensures_format :
    ((format text constant).watch scope).Ensures allowed s post ↔
      (Eval.ofOption (formatConstant? constant) s).Meets
        fun more s => post (.str (text ++ more)) s := by
  rw [watch, ensures_bind, ensures_quiet]
  simp only [ensures_pure]

/-- A variable ensures what holds of the value read from it. -/
@[simp] lemma ensures_name :
    ((name x).watch scope).Ensures allowed s post ↔ (readName scope.erase x s).Meets post := by
  rw [watch, ensures_quiet]

/-- An element of the array is read behind its index, at which access must be allowed. -/
@[simp] lemma ensures_element :
    ((element x e).watch scope).Ensures allowed s post ↔
      (e.watch scope).Ensures allowed s fun i s =>
        allowed ⟨s, .access i⟩ ∧ (readElement i s).Meets post := by
  rw [watch, ensures_bind]
  simp only [ensures_bind, ensures_note, ensures_quiet]

/-- A negation is a subtraction from zero, which must be allowed. -/
@[simp] lemma ensures_neg :
    ((neg e).watch scope).Ensures allowed s post ↔
      (e.watch scope).Ensures allowed s fun v s =>
        allowed ⟨s, .apply (neg e) .sub (.int .int 0) v⟩ ∧
          (Eval.ofOption (BinOp.sub.apply (.int .int 0) v) s).Meets post := by
  rw [watch, ensures_bind]
  simp only [ensures_bind, ensures_note, ensures_quiet]

/-- A cast ensures what holds of the converted value. -/
@[simp] lemma ensures_cast :
    ((cast type e).watch scope).Ensures allowed s post ↔
      (e.watch scope).Ensures allowed s fun v s =>
        (Eval.ofOption (v.convert? type) s).Meets post := by
  rw [watch, ensures_bind]
  simp only [ensures_quiet]

/-- All operators but two evaluate both of their operands. -/
@[simp] lemma ensures_bin {op : BinOp} (strict : op ≠ .and ∧ op ≠ .or) :
    ((bin op a b).watch scope).Ensures allowed s post ↔
      (a.watch scope).Ensures allowed s fun v s =>
        (b.watch scope).Ensures allowed s fun w s =>
          allowed ⟨s, .apply (bin op a b) op v w⟩ ∧
            (Eval.ofOption (op.apply v w) s).Meets post := by
  rw [watch, ensures_bind]
  cases op with
  | and => exact absurd rfl strict.1
  | or => exact absurd rfl strict.2
  | _ => simp only [ensures_bind, ensures_note, ensures_quiet]

/-- The right side of a conjunction is evaluated only behind a left side that is true. -/
@[simp] lemma ensures_and :
    ((bin .and a b).watch scope).Ensures allowed s post ↔
      (a.watch scope).Ensures allowed s fun v s =>
        (Eval.ofOption v.truth? s).Meets fun holds s =>
          if holds then
            (b.watch scope).Ensures allowed s fun w s =>
              (Eval.ofOption w.truth? s).Meets fun holds s => post (.ofBool holds) s
          else post (.ofBool false) s := by
  rw [watch, ensures_bind]
  simp only [ensures_bind, ensures_ite, ensures_quiet, ensures_pure]

/-- The right side of a disjunction is evaluated only behind a left side that is false. -/
@[simp] lemma ensures_or :
    ((bin .or a b).watch scope).Ensures allowed s post ↔
      (a.watch scope).Ensures allowed s fun v s =>
        (Eval.ofOption v.truth? s).Meets fun holds s =>
          if holds then post (.ofBool true) s
          else
            (b.watch scope).Ensures allowed s fun w s =>
              (Eval.ofOption w.truth? s).Meets fun holds s => post (.ofBool holds) s := by
  rw [watch, ensures_bind]
  simp only [ensures_bind, ensures_ite, ensures_quiet, ensures_pure]

/-- A conditional expression ensures what the chosen side ensures. -/
@[simp] lemma ensures_cond :
    ((cond e a b).watch scope).Ensures allowed s post ↔
      (e.watch scope).Ensures allowed s fun v s =>
        (Eval.ofOption v.truth? s).Meets fun holds s =>
          if holds then (a.watch scope).Ensures allowed s post
          else (b.watch scope).Ensures allowed s post := by
  rw [watch, ensures_bind]
  simp only [ensures_bind, ensures_ite, ensures_quiet]

/-- An assignment writes the value to the variable, and must be allowed to arrive there. -/
@[simp] lemma ensures_assign_name :
    ((assign (name x) e).watch scope).Ensures allowed s post ↔
      (e.watch scope).Ensures allowed s fun v s =>
        (lift (writeName x v)).Ensures allowed s post := by
  rw [watch, ensures_bind]

/-- An assignment to an element evaluates the index before the value, and access at the index must
be allowed. -/
@[simp] lemma ensures_assign_element :
    ((assign (element x a) e).watch scope).Ensures allowed s post ↔
      (a.watch scope).Ensures allowed s fun i s =>
        (e.watch scope).Ensures allowed s fun v s =>
          allowed ⟨s, .access i⟩ ∧ (lift (writeElement i v)).Ensures allowed s post := by
  rw [watch, ensures_bind]
  simp only [ensures_bind, ensures_note]

/-- A postfix increment ensures what holds of the value before it. -/
@[simp] lemma ensures_postIncr :
    ((postIncr x).watch scope).Ensures allowed s post ↔
      (Watched.addToName scope (postIncr x) x 1).Ensures allowed s fun v s => post v.1 s := by
  rw [watch, ensures_bind]
  simp only [ensures_pure]

/-- A prefix decrement ensures what holds of the value after it. -/
@[simp] lemma ensures_preDecr :
    ((preDecr x).watch scope).Ensures allowed s post ↔
      (Watched.addToName scope (preDecr x) x (-1)).Ensures allowed s fun v s => post v.2 s := by
  rw [watch, ensures_bind]
  simp only [ensures_pure]

/-- A call evaluates its arguments and then calls the function. -/
@[simp] lemma ensures_call {args : List Expr} :
    ((call x args).watch scope).Ensures allowed s post ↔
      (watchAll scope args).Ensures allowed s fun vs s =>
        (Watched.callFunction scope x vs).Ensures allowed s post := by
  rw [watch, ensures_bind]

/-- No arguments ensure what holds already. -/
@[simp] lemma ensures_nil {post : List Value → State → Prop} :
    (watchAll scope []).Ensures allowed s post ↔ post [] s := by
  rw [watchAll, ensures_pure]

/-- Arguments are evaluated from left to right. -/
@[simp] lemma ensures_cons {es : List Expr} {post : List Value → State → Prop} :
    (watchAll scope (e :: es)).Ensures allowed s post ↔
      (e.watch scope).Ensures allowed s fun v s =>
        (watchAll scope es).Ensures allowed s fun vs s => post (v :: vs) s := by
  rw [watchAll, ensures_bind]
  simp only [ensures_bind, ensures_pure]

/-- A condition ensures what holds of the truth of its value. -/
@[simp] lemma ensures_watchTest {post : Bool → State → Prop} :
    (e.watchTest scope).Ensures allowed s post ↔
      (e.watch scope).Ensures allowed s fun v s => (Eval.ofOption v.truth? s).Meets post := by
  rw [watchTest, ensures_bind]
  simp only [ensures_quiet]

end Expr

/-! ## Statements -/

namespace Stmt

open Watched

variable {allowed : Event → Prop} {s : State} {post : Flow → State → Prop} {scope : WatchedScope}
  {fuel : Nat} {a b : Stmt} {e : Expr} {x : String} {type : CType}

/-- An evaluation that is followed by another one unless it goes elsewhere. -/
lemma ensures_followed {x y : Watched Flow} :
    (do
      match ← x with
      | .next => y
      | flow => return flow : Watched Flow).Ensures allowed s post ↔
      x.Ensures allowed s fun flow s =>
        match flow with
        | .next => y.Ensures allowed s post
        | flow => post flow s := by
  rw [ensures_bind]
  constructor
  · refine fun ensures => ensures.mono fun flow s after => ?_
    cases flow <;> simpa using after
  · refine fun ensures => ensures.mono fun flow s after => ?_
    cases flow <;> simpa using after

/-- The second statement is executed unless the first one goes elsewhere. -/
@[simp] lemma ensures_seq {layout : Layout} :
    ((seq layout a b).watch scope fuel none).Ensures allowed s post ↔
      (a.watch scope fuel none).Ensures allowed s fun flow s =>
        match flow with
        | .next => (b.watch scope fuel none).Ensures allowed s post
        | flow => post flow s := by
  rw [watch]
  exact ensures_followed

/-- A statement behind which the next one follows, and the next one. -/
lemma ensures_seq_of_next {layout : Layout} {between : State → Prop}
    (first : (a.watch scope fuel none).Ensures allowed s fun flow s => flow = .next ∧ between s)
    (second : ∀ s, between s → (b.watch scope fuel none).Ensures allowed s post) :
    ((seq layout a b).watch scope fuel none).Ensures allowed s post := by
  rw [ensures_seq]
  refine first.mono ?_
  rintro _ s ⟨rfl, holds⟩
  exact second s holds

/-- The first statement is executed from the label if the label is in it. -/
lemma ensures_seq_of_hasLabel {layout : Layout} {label : Label} (inside : a.hasLabel label) :
    ((seq layout a b).watch scope fuel (some label)).Ensures allowed s post ↔
      (a.watch scope fuel (some label)).Ensures allowed s fun flow s =>
        match flow with
        | .next => (b.watch scope fuel none).Ensures allowed s post
        | flow => post flow s := by
  rw [watch, if_pos inside]
  exact ensures_followed

/-- The first statement is passed over if the label is not in it. -/
lemma ensures_seq_of_not_hasLabel {layout : Layout} {label : Label}
    (outside : ¬ a.hasLabel label) :
    ((seq layout a b).watch scope fuel (some label)).Ensures allowed s post ↔
      (b.watch scope fuel (some label)).Ensures allowed s post := by
  rw [watch, if_neg outside]

/-- A block takes its local variables away at its end. -/
@[simp] lemma ensures_block {layout : Layout} {start : Option Label} :
    ((block layout a).watch scope fuel start).Ensures allowed s post ↔
      (a.watch scope fuel start).Ensures allowed s fun flow after =>
        (lift (Eval.modify fun t =>
          { t with locals := t.locals.drop (t.locals.length - s.locals.length) })).Ensures allowed
          after fun _ s => post flow s := by
  rw [watch, Watched.inBlock]
  simp only [ensures_bind, ensures_quiet, Eval.get_apply, Result.meets_ok, ensures_pure]

/-- An empty line does nothing. -/
@[simp] lemma ensures_gap :
    (gap.watch scope fuel none).Ensures allowed s post ↔ post .next s := by
  rw [watch, ensures_pure]

/-- A case label does nothing, from wherever it is come to. -/
@[simp] lemma ensures_caseLabel {n : Word} {comment : String} {start : Option Label} :
    ((caseLabel n comment).watch scope fuel start).Ensures allowed s post ↔ post .next s := by
  rw [watch, ensures_pure]

/-- The default label does nothing, from wherever it is come to. -/
@[simp] lemma ensures_defaultLabel {start : Option Label} :
    (defaultLabel.watch scope fuel start).Ensures allowed s post ↔ post .next s := by
  rw [watch, ensures_pure]

/-- An expression statement throws the value away. -/
@[simp] lemma ensures_expr :
    ((expr e).watch scope fuel none).Ensures allowed s post ↔
      (e.watch scope).Ensures allowed s fun _ s => post .next s := by
  rw [watch, ensures_bind]
  simp only [ensures_pure]

/-- A declaration declares its variables and goes on. -/
@[simp] lemma ensures_declare {vars : List (String × Option Expr)} :
    ((declare type vars).watch scope fuel none).Ensures allowed s post ↔
      (Watched.declareAll scope type vars).Ensures allowed s fun _ s => post .next s := by
  rw [watch, ensures_bind]
  simp only [ensures_pure]

/-- No declarations ensure what holds already. -/
@[simp] lemma ensures_declareAll_nil {post : Unit → State → Prop} :
    (Watched.declareAll scope type []).Ensures allowed s post ↔ post () s := by
  rw [Watched.declareAll, ensures_pure]

/-- A variable declared without a value is added to the local ones. -/
@[simp] lemma ensures_declareAll_none {vars : List (String × Option Expr)}
    {post : Unit → State → Prop} :
    (Watched.declareAll scope type ((x, none) :: vars)).Ensures allowed s post ↔
      (lift (Eval.modify fun t => { t with locals := ⟨x, type, none⟩ :: t.locals })).Ensures allowed
        s fun _ s => (Watched.declareAll scope type vars).Ensures allowed s post := by
  rw [Watched.declareAll, ensures_bind]

/-- A variable declared with a value is added to the local ones with the converted value. -/
@[simp] lemma ensures_declareAll_some {vars : List (String × Option Expr)}
    {post : Unit → State → Prop} :
    (Watched.declareAll scope type ((x, some e) :: vars)).Ensures allowed s post ↔
      (e.watch scope).Ensures allowed s fun v s =>
        (Eval.ofOption (v.convert? type) s).Meets fun w s =>
          (lift (Eval.modify fun t => { t with locals := ⟨x, type, some w⟩ :: t.locals })).Ensures
            allowed s fun _ s => (Watched.declareAll scope type vars).Ensures allowed s post := by
  rw [Watched.declareAll, ensures_bind]
  simp only [ensures_bind, ensures_quiet]

/-- A conditional statement ensures what its body ensures, or goes on. -/
@[simp] lemma ensures_ifThen :
    ((ifThen e a).watch scope fuel none).Ensures allowed s post ↔
      (e.watchTest scope).Ensures allowed s fun holds s =>
        if holds then (a.watch scope fuel none).Ensures allowed s post else post .next s := by
  rw [watch, ensures_bind]
  simp only [ensures_ite, ensures_pure]

/-- A while loop tests before each turn. -/
@[simp] lemma ensures_while :
    ((Stmt.while e a).watch scope fuel none).Ensures allowed s post ↔
      (Watched.iterate (e.watchTest scope) (a.watch scope fuel none) (pure ()) fuel).Ensures allowed
        s post := by
  rw [watch]

/-- A for loop is behind its first expression and takes its step behind each turn. -/
@[simp] lemma ensures_for {first step : Expr} :
    ((Stmt.for first e step a).watch scope fuel none).Ensures allowed s post ↔
      (first.watch scope).Ensures allowed s fun _ s =>
        (Watched.iterate (e.watchTest scope) (a.watch scope fuel none)
          (do let _ ← step.watch scope) fuel).Ensures allowed s post := by
  rw [watch, ensures_bind]

/-- An endless loop is one whose test always succeeds. -/
@[simp] lemma ensures_forever :
    ((forever a).watch scope fuel none).Ensures allowed s post ↔
      (Watched.iterate (pure true) (a.watch scope fuel none) (pure ()) fuel).Ensures allowed s
        post := by
  rw [watch]

/-- The label of the value is gone to, or the one for all other values. -/
lemma ensures_switch {type : CType} {n : Int} {label : Label}
    (value : (e.watch scope).Ensures allowed s fun v after => v = .int type n ∧ after = s)
    (chosen : label = if a.hasLabel (.value n) then .value n else .default)
    (inside : a.hasLabel label)
    (body : (a.watch scope fuel (some label)).Ensures allowed s fun flow s =>
      match flow with
      | .leave => post .next s
      | flow => post flow s) :
    ((switch e a).watch scope fuel none).Ensures allowed s post := by
  rw [watch, ensures_bind]
  refine value.mono ?_
  rintro _ _ ⟨rfl, rfl⟩
  dsimp only
  rw [← chosen, if_pos inside, ensures_bind]
  refine body.mono fun flow s after => ?_
  cases flow <;> simpa using after

/-- A break ensures what holds where the loop is left. -/
@[simp] lemma ensures_leave :
    (leave.watch scope fuel none).Ensures allowed s post ↔ post .leave s := by
  rw [watch, ensures_pure]

/-- A continue ensures what holds where the turn ends. -/
@[simp] lemma ensures_again :
    (again.watch scope fuel none).Ensures allowed s post ↔ post .again s := by
  rw [watch, ensures_pure]

/-- A return ensures what holds of the value it returns. -/
@[simp] lemma ensures_return :
    ((Stmt.return e).watch scope fuel none).Ensures allowed s post ↔
      (e.watch scope).Ensures allowed s fun v s => post (.return v) s := by
  rw [watch, ensures_bind]
  simp only [ensures_pure]

end Stmt

end StackAsm.C
