import StackAsm.Assembly
import StackAsm.Proofs.Effect
import StackAsm.Proofs.Reachable

set_option autoImplicit false

/-!
# Locations are for diagnostics only

Tokens and instructions carry the locations that they come from, and only messages quote them. So it
makes no difference whether locations are changed before or after an operation; and tokens, programs
and machines that differ in nothing but their locations are the same once all locations are changed
to one.

**Proof sketch.** Each function on the way from tokens to the end of a run commutes with a change of
the locations, by induction where it recurses. Two operations that are alike commute with the change
of all locations to one, which makes them the same operation on the same machine.

## Main definitions

* `StackAsm.Program.mapLocations`, `StackAsm.Machine.mapLocations`, `StackAsm.Error.mapLocations` —
  a program, a machine and an error with other locations.
* `StackAsm.Operation.perform` — what becomes of an operation; `StackAsm.Machine.history` — of a
  sequence of them.
* `StackAsm.Machine.DifferInLocations`, `StackAsm.Operation.Alike` — machines and operations
  that are the same but for locations.

## Main results

* `StackAsm.Resolution.resolve_mapLocations` — resolution commutes with a change of the locations.
* `StackAsm.Machine.step_mapLocations`, `StackAsm.Machine.runFrom_mapLocations` — so do steps and
  runs.
* `StackAsm.history_alike_of_differInLocations` — locations are for diagnostics only.
-/

namespace StackAsm

variable {f : Location → Location}

/-! ## Other locations -/

/-- A token at another location. -/
def SourceToken.mapLocations (f : Location → Location) (t : SourceToken) : SourceToken :=
  { t with location := f t.location }

/-- A label that is defined at another location. -/
def Label.mapLocations (f : Location → Location) (l : Label) : Label :=
  { l with location := f l.location }

/-- A program whose instructions come from other locations. -/
def Program.mapLocations (f : Location → Location) (p : Program) : Program :=
  { p with locations := p.locations.map f }

/-- A machine whose instructions come from other locations. -/
def Machine.mapLocations (f : Location → Location) (m : Machine) : Machine :=
  { m with code := m.code.mapLocations f }

/-- An error of resolution at other locations. -/
def ResolveError.mapLocations (f : Location → Location) : ResolveError → ResolveError
  | unknownLabel name l => unknownLabel name (f l)
  | duplicateLabel name l first => duplicateLabel name (f l) (f first)
  | addressOverflow l => addressOverflow (f l)

/-- An error of a machine at another location, if it is at one. -/
def RuntimeError.mapLocations (f : Location → Location) : RuntimeError → RuntimeError
  | stackUnderflow i l => stackUnderflow i (f l)
  | divisionByZero l => divisionByZero (f l)
  | invalidIndex index size l => invalidIndex index size (f l)
  | invalidInput fault l => invalidInput fault (f l)
  | endOfProgram pc => endOfProgram pc
  | addressMismatch start expected => addressMismatch start expected
  | addressOverflow start length => addressOverflow start length
  | stepLimitExceeded limit => stepLimitExceeded limit
  | stream fault => stream fault

/-- An error of any stage at other locations, if it is at one. -/
def Error.mapLocations (f : Location → Location) : Error → Error
  | source e => source { e with location := f e.location }
  | resolve e => resolve (e.mapLocations f)
  | image e => image e
  | runtime e => runtime (e.mapLocations f)

/-- The outcome of an operation at other locations. -/
def Outcome.mapLocations (f : Location → Location) : Outcome → Outcome
  | done m => done (m.mapLocations f)
  | failed e m => failed (e.mapLocations f) (m.mapLocations f)

/-- An operation that is given other locations. -/
def Operation.mapLocations (f : Location → Location) : Operation → Operation
  | load p => load (p.mapLocations f)
  | loadTokens tokens => loadTokens (tokens.map (SourceToken.mapLocations f))
  | step => step
  | run => run
  | interact => interact
  | debug => debug
  | goTo pc => goTo pc
  | feed bytes => feed bytes
  | reset => reset

/-- What becomes of an operation at other locations: the error, if there is one, and the machine. -/
def resultAt (f : Location → Location) (r : Option Error × Machine) : Option Error × Machine :=
  (r.1.map (Error.mapLocations f), r.2.mapLocations f)

/-- A result at other locations, whether it is a value or an error of resolution. -/
def Resolution.mapResult {α β : Type} (f : Location → Location) (g : α → β)
    (r : Except ResolveError α) : Except ResolveError β :=
  (r.mapError (ResolveError.mapLocations f)).map g

/-! ## Resolution -/

namespace Resolution

/-- A value is changed further where it is at other locations. -/
lemma map_mapResult {α β γ : Type} (f : Location → Location) (g : α → β) (h : β → γ)
    (r : Except ResolveError α) : (mapResult f g r).map h = mapResult f (h ∘ g) r := by
  cases r <;> rfl

/-- A label is looked up by its name, wherever it is defined. -/
lemma lookup?_mapLocations (f : Location → Location) (labels : List Label) (name : String) :
    lookup? (labels.map (Label.mapLocations f)) name =
      (lookup? labels name).map (Label.mapLocations f) := by
  unfold lookup?
  rw [List.find?_map]
  rfl

/-- Labels are collected alike from tokens at other locations. -/
lemma collect_mapLocations (f : Location → Location) (defined : List Label) (a : Address)
    (tokens : List SourceToken) :
    collect (defined.map (Label.mapLocations f)) a (tokens.map (SourceToken.mapLocations f)) =
      mapResult f (List.map (Label.mapLocations f)) (collect defined a tokens) := by
  induction tokens generalizing defined a with
  | nil => rfl
  | cons t tokens ih =>
    obtain ⟨token, l⟩ := t
    cases token with
    | define name =>
      simp only [List.map_cons, SourceToken.mapLocations, collect, lookup?_mapLocations]
      cases lookup? defined name with
      | some first => rfl
      | none => exact ih (⟨name, a, l⟩ :: defined) a
    | refer name =>
      simp only [List.map_cons, SourceToken.mapLocations, collect]
      cases Word.ofInt? (a.toInt + 1) with
      | some next => exact ih _ _
      | none => rfl
    | instr i =>
      simp only [List.map_cons, SourceToken.mapLocations, collect]
      cases Word.ofInt? (a.toInt + 1) with
      | some next => exact ih _ _
      | none => rfl

/-- The labels of tokens at other locations are the same labels at other locations. -/
lemma labels_mapLocations (f : Location → Location) (tokens : List SourceToken)
    (start : Address) :
    labels (tokens.map (SourceToken.mapLocations f)) start =
      mapResult f (List.map (Label.mapLocations f)) (labels tokens start) :=
  collect_mapLocations f [] start tokens

/-- Instructions are formed alike from tokens at other locations. -/
lemma code_mapLocations (f : Location → Location) (labels : List Label)
    (tokens : List SourceToken) :
    code (labels.map (Label.mapLocations f)) (tokens.map (SourceToken.mapLocations f)) =
      mapResult f (List.map (Prod.map id f)) (code labels tokens) := by
  induction tokens with
  | nil => rfl
  | cons t tokens ih =>
    obtain ⟨token, l⟩ := t
    cases token with
    | define name => exact ih
    | refer name =>
      simp only [List.map_cons, SourceToken.mapLocations, code, lookup?_mapLocations]
      cases lookup? labels name with
      | some label =>
        simp only [Option.map_some, ih]
        cases code labels tokens <;> rfl
      | none => rfl
    | instr i =>
      simp only [List.map_cons, SourceToken.mapLocations, code, ih]
      cases code labels tokens <;> rfl

/-- Tokens resolve if their labels can be collected and their instructions be formed with them. -/
lemma resolve_eq_bind (tokens : List SourceToken) (start : Address) :
    resolve tokens start =
      (labels tokens start).bind fun labels =>
        (code labels tokens).map (Program.ofList start) := by
  unfold resolve
  cases labels tokens start <;> rfl

/-- **Tokens at other locations resolve alike**: to the same program at other locations, or with the
same error at other locations. -/
theorem resolve_mapLocations (f : Location → Location) (tokens : List SourceToken)
    (start : Address) :
    resolve (tokens.map (SourceToken.mapLocations f)) start =
      mapResult f (Program.mapLocations f) (resolve tokens start) := by
  have program (table : List (Instruction × Location)) :
      Program.ofList start (table.map (Prod.map id f)) =
        (Program.ofList start table).mapLocations f := by
    simp [Program.ofList, Program.mapLocations, Function.comp_def]
  rw [resolve_eq_bind, resolve_eq_bind, labels_mapLocations]
  cases labels tokens start with
  | error e => rfl
  | ok labels =>
    change (code (labels.map _) _).map _ = mapResult f _ ((code labels tokens).map _)
    rw [code_mapLocations]
    cases code labels tokens with
    | error e => rfl
    | ok table => exact congrArg Except.ok (program table)

end Resolution

namespace Machine

variable {m n : Machine}

/-! ## Steps and runs -/

/-- Two parts behind each other do not look at locations if neither of them does. -/
lemma mapLocations_andThen {o : Outcome} {next next' : Machine → Outcome}
    (commutes : ∀ m, (next m).mapLocations f = next' (m.mapLocations f)) :
    (o.andThen next).mapLocations f = (o.mapLocations f).andThen next' := by
  cases o with
  | done m => exact commutes m
  | failed e m => rfl

/-- A write does not look at locations. -/
lemma write_mapLocations (f : Location → Location) (m : Machine) (bytes : Bytes) :
    (m.mapLocations f).write bytes = (m.write bytes).mapLocations f := by
  have output : (m.mapLocations f).output = m.output := rfl
  unfold write
  rw [output]
  split <;> rfl

/-- A report does not look at locations. -/
lemma report_mapLocations (f : Location → Location) (m : Machine) (bytes : Bytes) :
    (m.mapLocations f).report bytes = (m.report bytes).mapLocations f := by
  have diagnostics : (m.mapLocations f).diagnostics = m.diagnostics := rfl
  unfold report
  rw [diagnostics]
  split <;> rfl

/-- The error of an instruction quotes the location that it is given. -/
lemma mapLocations_of_compute {i : Instruction} {stack : List Word}
    {e : Location → RuntimeError} (computes : i.compute stack = .error e) (l : Location) :
    (e l).mapLocations f = e (f l) := by
  cases i with
  | push n => cases computes
  | op o =>
    unfold Instruction.compute at computes
    dsimp only at computes
    split at computes
    -- the opcodes with a test of their own, and the case of too few operands
    case h_4 | h_10 | h_11 =>
      split at computes <;> cases computes
      rfl
    case h_20 =>
      cases computes
      rfl
    all_goals cases computes

/-- An effect is carried out alike at other locations. -/
lemma carryOut_mapLocations (f : Location → Location) (m : Machine) (i : Instruction)
    (l : Location) :
    (m.mapLocations f).carryOut i (f l) (i.compute m.stack) =
      (m.carryOut i l (i.compute m.stack)).mapLocations f := by
  cases computes : i.compute m.stack with
  | error e => exact congrArg (Outcome.failed · _) (mapLocations_of_compute computes l).symm
  | ok effect =>
    have written : (((m.write (i.printed m.stack)).andThen fun m' =>
          m'.report (i.shown m.stack)).mapLocations f) =
        ((m.mapLocations f).write (i.printed m.stack)).andThen fun m' =>
          m'.report (i.shown m.stack) := by
      rw [write_mapLocations]
      exact mapLocations_andThen fun n => (report_mapLocations f n _).symm
    have stack : (m.mapLocations f).stack = m.stack := rfl
    have pc : (m.mapLocations f).pc = m.pc := rfl
    simp only [carryOut, stack, pc]
    rw [← written]
    exact (mapLocations_andThen fun n => rfl).symm

/-- An instruction does the same at another location. -/
lemma execute_mapLocations (f : Location → Location) (m : Machine) (i : Instruction)
    (l : Location) :
    (m.mapLocations f).execute i (f l) = (m.execute i l).mapLocations f := by
  have stack : (m.mapLocations f).stack = m.stack := rfl
  have input : (m.mapLocations f).input = m.input := rfl
  by_cases silent : i.reads
  · rcases i with n | o
    · cases silent
    cases o
    case read =>
      simp only [execute, readInteger, input]
      split <;> rfl
    case cread =>
      simp only [execute, readByte, input]
      split <;> rfl
    all_goals cases silent
  · rw [execute_eq_carryOut silent, execute_eq_carryOut silent, stack, carryOut_mapLocations]

/-- **A step does the same at other locations**: it leaves the same machine at other locations, and
fails with the same error at other locations if it fails. -/
theorem step_mapLocations (f : Location → Location) (m : Machine) :
    (m.mapLocations f).step = m.step.mapLocations f := by
  have instruction : (m.mapLocations f).instruction? = m.instruction? := rfl
  have location : (m.mapLocations f).location? = m.location?.map f := by
    have index : (m.code.mapLocations f).indexOf? m.pc = m.code.indexOf? m.pc := rfl
    change ((m.code.mapLocations f).indexOf? m.pc).bind (fun k => (m.code.locations.map f)[k]?) =
      ((m.code.indexOf? m.pc).bind fun k => m.code.locations[k]?).map f
    rw [index]
    cases m.code.indexOf? m.pc with
    | none => rfl
    | some k => exact Array.getElem?_map
  unfold step
  rw [instruction, location]
  cases m.instruction? with
  | none => rfl
  | some i =>
    cases m.location? with
    | none => rfl
    | some l => exact execute_mapLocations f m i l

/-- **A run does the same at other locations.** -/
theorem runFrom_mapLocations (f : Location → Location) (fuel taken : Nat) (m : Machine) :
    (m.mapLocations f).runFrom fuel taken =
      (m.runFrom fuel taken).map (Outcome.mapLocations f) := by
  induction fuel generalizing taken m with
  | zero => rfl
  | succ fuel ih =>
    have running : (m.mapLocations f).isRunning = m.isRunning := rfl
    have spent : (m.mapLocations f).spent? taken = m.spent? taken := rfl
    unfold runFrom
    rw [running, spent, step_mapLocations]
    split
    · cases m.spent? taken with
      | some limit => rfl
      | none =>
        cases m.step with
        | done next => exact ih (taken + 1) next
        | failed e last => rfl
    · rfl

/-! ## Loading -/

/-- A program is appended alike at other locations. -/
lemma append_mapLocations (f : Location → Location) (m : Machine) (p : Program) :
    (m.mapLocations f).append (p.mapLocations f) = (m.append p).mapLocations f := by
  simp [append, Program.append, mapLocations, Program.mapLocations]

/-- Loading tokens at other locations does the same at other locations. -/
lemma loadTokens_mapLocations (f : Location → Location) (m : Machine)
    (tokens : List SourceToken) :
    (m.mapLocations f).loadTokens (tokens.map (SourceToken.mapLocations f)) =
      Resolution.mapResult f (Machine.mapLocations f) (m.loadTokens tokens) := by
  have next : (m.mapLocations f).nextAddress = m.nextAddress := rfl
  unfold loadTokens
  rw [next, Resolution.resolve_mapLocations]
  cases Resolution.resolve tokens m.nextAddress with
  | error e => rfl
  | ok p => exact congrArg Except.ok (append_mapLocations f m p)

/-- Loading a program at other locations does the same at other locations. -/
lemma load_mapLocations (f : Location → Location) (m : Machine) (p : Program) :
    (m.mapLocations f).load (p.mapLocations f) =
      ((m.load p).mapError (RuntimeError.mapLocations f)).map (Machine.mapLocations f) := by
  have endAddress : (p.mapLocations f).endAddress? = p.endAddress? := rfl
  have empty : (m.mapLocations f).isEmpty = m.isEmpty := rfl
  have start : (p.mapLocations f).start = p.start := rfl
  have next : (m.mapLocations f).nextAddress = m.nextAddress := rfl
  unfold load
  rw [endAddress, empty, start, next]
  split
  · rfl
  · split
    · exact congrArg Except.ok (append_mapLocations f
        { m with code := { m.code with start := p.start }, pc := p.start } p)
    · split
      · exact congrArg Except.ok (append_mapLocations f m p)
      · rfl

/-- A machine is reset alike at other locations. -/
lemma reset_mapLocations (f : Location → Location) (m : Machine) :
    (m.mapLocations f).reset = m.reset.mapLocations f := by
  simp [reset, mapLocations, Program.mapLocations, Program.empty]

end Machine

/-! ## Sequences of operations -/

namespace Operation

/-- What becomes of an operation: the error with which it fails, if it does, and the machine that it
leaves. -/
def ofOutcome (o : Outcome) : Option Error × Machine := (o.error?.map .runtime, o.machine)

/-- An outcome at other locations is the result at them. -/
lemma ofOutcome_mapLocations (f : Location → Location) (o : Outcome) :
    ofOutcome (o.mapLocations f) = resultAt f (ofOutcome o) := by
  cases o <;> rfl

/-- What becomes of an operation on a machine: the error with which it fails, if it does, and the
machine that it leaves. A run, a session and the debugger look at `fuel` states at most, and there
is no answer if they are not over by then. -/
def perform (fuel : Nat) (m : Machine) : Operation → Option (Option Error × Machine)
  | load p =>
    match m.load p with
    | .ok loaded => some (none, loaded)
    | .error e => some (some (.runtime e), m)
  | loadTokens tokens =>
    match m.loadTokens tokens with
    | .ok loaded => some (none, loaded)
    | .error e => some (some (.resolve e), m)
  | step => some (ofOutcome m.step)
  | run => (m.run fuel).map ofOutcome
  | interact => (m.interact fuel).map ofOutcome
  | debug => (m.debug fuel).map ofOutcome
  | goTo pc => some (none, m.goTo pc)
  | feed bytes => some (none, m.feed bytes)
  | reset => some (none, m.reset)

/-- What is performed is what an operation leaves. -/
lemma leaves_of_perform {fuel : Nat} {m m' : Machine} {op : Operation} {e? : Option Error}
    (performs : op.perform fuel m = some (e?, m')) : op.Leaves m m' := by
  cases op with
  | load p =>
    rw [perform] at performs
    rw [Leaves]
    cases load : m.load p with
    | ok loaded | error e =>
      rw [load] at performs
      cases performs
      rfl
  | loadTokens tokens =>
    rw [perform] at performs
    rw [Leaves]
    cases load : m.loadTokens tokens with
    | ok loaded | error e =>
      rw [load] at performs
      cases performs
      rfl
  | run | interact | debug =>
    obtain ⟨o, ends, same⟩ := Option.map_eq_some_iff.1 performs
    exact ⟨fuel, o, ends, (congrArg Prod.snd same).symm⟩
  | step | goTo pc | feed bytes | reset =>
    cases performs
    rfl

/-- Whether an operation writes locations to the streams of the machine. -/
def writesLocations : Operation → Bool
  | interact | debug => true
  | load _ | loadTokens _ | step | run | goTo _ | feed _ | reset => false

/-- **An operation does the same at other locations**, if it does not write them. -/
theorem perform_mapLocations (f : Location → Location) (fuel : Nat) (m : Machine) {op : Operation}
    (quiet : ¬ op.writesLocations) :
    (op.mapLocations f).perform fuel (m.mapLocations f) =
      (op.perform fuel m).map (resultAt f) := by
  cases op with
  | load p =>
    simp only [mapLocations, perform, Machine.load_mapLocations]
    cases m.load p <;> rfl
  | loadTokens tokens =>
    simp only [mapLocations, perform, Machine.loadTokens_mapLocations]
    cases m.loadTokens tokens <;> rfl
  | step =>
    simp only [mapLocations, perform, Machine.step_mapLocations, ofOutcome_mapLocations,
      Option.map_some]
  | run =>
    simp only [mapLocations, perform, Machine.run, Machine.runFrom_mapLocations, Option.map_map,
      Function.comp_def, ofOutcome_mapLocations]
  | interact | debug => exact absurd rfl quiet
  | goTo pc | feed bytes => rfl
  | reset => exact congrArg (fun n => some (none, n)) (Machine.reset_mapLocations f m)

/-- The same operation but for locations. The operations that write locations to the output, which
are sessions and the debugger, are not among them. -/
inductive Alike : Operation → Operation → Prop where
  /-- Programs that differ in their locations are loaded. -/
  | load {p q : Program} (start : p.start = q.start)
      (instructions : p.instructions = q.instructions)
      (locations : p.locations.size = q.locations.size) : Alike (.load p) (.load q)
  /-- Tokens that differ in their locations are loaded. -/
  | loadTokens {ts us : List SourceToken}
      (same : ts.map SourceToken.token = us.map SourceToken.token) :
    Alike (.loadTokens ts) (.loadTokens us)
  /-- An instruction is executed. -/
  | step : Alike .step .step
  /-- The program is run. -/
  | run : Alike .run .run
  /-- The program counter is moved. -/
  | goTo (pc : Address) : Alike (.goTo pc) (.goTo pc)
  /-- Bytes are added to the input. -/
  | feed (bytes : Bytes) : Alike (.feed bytes) (.feed bytes)
  /-- The program, the program counter and the stack are dropped. -/
  | reset : Alike .reset .reset

end Operation

namespace Machine

/-- What becomes of a sequence of operations, one behind the other: after each of them the error, if
there is one, and the machine. It stops where an operation is not over. -/
def history (fuel : Nat) : Machine → List Operation → List (Option Error × Machine)
  | _, [] => []
  | m, op :: ops =>
    match op.perform fuel m with
    | none => []
    | some (e?, m') => (e?, m') :: m'.history fuel ops

/-- Two machines that differ in nothing but their tables of locations, both of the right length. -/
structure DifferInLocations (m n : Machine) : Prop where
  /-- The table of the first one has a location for each instruction. -/
  length : m.code.locations.size = m.code.length
  /-- The table of the second one has a location for each instruction. -/
  length' : n.code.locations.size = n.code.length
  /-- There is no other difference. -/
  same : n = { m with code := { m.code with locations := n.code.locations } }

end Machine

/-- One location for all. -/
def noLocation : Location → Location := fun _ => default

/-- After two operations there is no difference but in locations: the machines have equal stacks,
program counters and streams, and the errors are equal up to their locations. -/
structure AlikeAfter (p q : Option Error × Machine) : Prop where
  /-- Both operations succeed, or they fail with errors that are equal up to their locations. -/
  error : p.1.map (Error.mapLocations noLocation) = q.1.map (Error.mapLocations noLocation)
  /-- The stacks are equal. -/
  stack : p.2.stack = q.2.stack
  /-- The program counters are equal. -/
  pc : p.2.pc = q.2.pc
  /-- The outputs are equal. -/
  output : p.2.output = q.2.output
  /-- The diagnostics are equal. -/
  diagnostics : p.2.diagnostics = q.2.diagnostics
  /-- The inputs that are not read yet are equal. -/
  input : p.2.input = q.2.input

/-- Results that are equal without their locations are alike. -/
lemma AlikeAfter.of_resultAt {p q : Option Error × Machine}
    (same : resultAt noLocation p = resultAt noLocation q) : AlikeAfter p q := by
  have machine : p.2.mapLocations noLocation = q.2.mapLocations noLocation :=
    congrArg Prod.snd same
  exact
    { error := congrArg Prod.fst same
      stack := (congrArg Machine.stack machine :)
      pc := (congrArg Machine.pc machine :)
      output := (congrArg Machine.output machine :)
      diagnostics := (congrArg Machine.diagnostics machine :)
      input := (congrArg Machine.input machine :) }

/-- Tokens that are the same but for locations are equal at one location. -/
lemma map_mapLocations_noLocation {ts us : List SourceToken}
    (same : ts.map SourceToken.token = us.map SourceToken.token) :
    ts.map (SourceToken.mapLocations noLocation) =
      us.map (SourceToken.mapLocations noLocation) := by
  have factor (ts : List SourceToken) : ts.map (SourceToken.mapLocations noLocation) =
      (ts.map SourceToken.token).map fun token => ⟨token, default⟩ := by
    rw [List.map_map]
    rfl
  rw [factor, factor, same]

section Tokens

variable {ts us : List SourceToken} (same : ts.map SourceToken.token = us.map SourceToken.token)
  (start : Address)
include same

/-- Tokens that are the same but for locations have the same labels at the same addresses. -/
lemma Resolution.labels_alike :
    mapResult noLocation (List.map fun l => (l.name, l.address)) (labels ts start) =
      mapResult noLocation (List.map fun l => (l.name, l.address)) (labels us start) := by
  have alike := labels_mapLocations noLocation ts start
  rw [map_mapLocations_noLocation same, labels_mapLocations] at alike
  have addresses := congrArg (Except.map (List.map fun l => (l.name, l.address))) alike.symm
  have forget : (List.map fun l : Label => (l.name, l.address)) ∘
      List.map (Label.mapLocations noLocation) = List.map fun l => (l.name, l.address) := by
    funext labels
    rw [Function.comp_apply, List.map_map]
    rfl
  rwa [map_mapResult, map_mapResult, forget] at addresses

/-- Tokens that are the same but for locations resolve to the same instructions. -/
lemma Resolution.resolve_alike :
    mapResult noLocation (fun p => (p.start, p.instructions)) (resolve ts start) =
      mapResult noLocation (fun p => (p.start, p.instructions)) (resolve us start) := by
  have alike := resolve_mapLocations noLocation ts start
  rw [map_mapLocations_noLocation same, resolve_mapLocations] at alike
  have instructions := congrArg (Except.map fun p => (p.start, p.instructions)) alike.symm
  rwa [map_mapResult, map_mapResult] at instructions

end Tokens

/-- Programs that are the same but for locations are equal at one location. -/
lemma Program.mapLocations_noLocation {p q : Program} (start : p.start = q.start)
    (instructions : p.instructions = q.instructions)
    (locations : p.locations.size = q.locations.size) :
    p.mapLocations noLocation = q.mapLocations noLocation := by
  have tables : p.locations.map noLocation = q.locations.map noLocation := by
    refine Array.ext (by simpa using locations) fun k _ _ => ?_
    simp [noLocation]
  simp only [mapLocations, start, instructions, tables]

/-- Machines that differ in nothing but locations are equal at one location. -/
lemma Machine.DifferInLocations.mapLocations_eq {m n : Machine} (differ : m.DifferInLocations n) :
    m.mapLocations noLocation = n.mapLocations noLocation := by
  have instructions := congrArg (fun n => n.code.instructions) differ.same
  have code := Program.mapLocations_noLocation (p := m.code) (q := n.code)
    (congrArg (fun n => n.code.start) differ.same).symm instructions.symm
    (by rw [differ.length, differ.length', Program.length, Program.length, instructions])
  rw [Machine.mapLocations, code]
  exact congrArg (fun k : Machine => { k with code := n.code.mapLocations noLocation })
    differ.same.symm

section Alike

variable {op op' : Operation} {ops ops' : List Operation} {m n : Machine}

/-- Operations that are the same but for locations are equal at one location. -/
lemma Operation.Alike.mapLocations_eq (alike : op.Alike op') :
    ¬ op.writesLocations ∧ ¬ op'.writesLocations ∧
      op.mapLocations noLocation = op'.mapLocations noLocation := by
  cases alike with
  | load start instructions locations =>
    exact ⟨nofun, nofun,
      congrArg Operation.load (Program.mapLocations_noLocation start instructions locations)⟩
  | loadTokens same =>
    exact ⟨nofun, nofun, congrArg Operation.loadTokens (map_mapLocations_noLocation same)⟩
  | step | run | goTo pc | feed bytes | reset => exact ⟨nofun, nofun, rfl⟩

/-- **What is the same operation but for locations** does the same but for locations, on machines
that are equal at one location. -/
theorem Operation.Alike.perform (alike : op.Alike op')
    (same : m.mapLocations noLocation = n.mapLocations noLocation) (fuel : Nat) :
    (op.perform fuel m).map (resultAt noLocation) =
      (op'.perform fuel n).map (resultAt noLocation) := by
  obtain ⟨quiet, quiet', ops⟩ := alike.mapLocations_eq
  rw [← perform_mapLocations noLocation fuel m quiet, ops, same,
    perform_mapLocations noLocation fuel n quiet']

/-- Operations that are the same but for locations do the same but for locations, one behind the
other. -/
lemma Machine.history_alike (alike : List.Forall₂ Operation.Alike ops ops')
    (same : m.mapLocations noLocation = n.mapLocations noLocation) (fuel : Nat) :
    List.Forall₂ AlikeAfter (m.history fuel ops) (n.history fuel ops') := by
  induction alike generalizing m n with
  | nil => exact .nil
  | @cons op op' ops ops' first more ih =>
    have performs := first.perform same fuel
    unfold history
    cases performed : op.perform fuel m with
    | none =>
      rw [performed] at performs
      rw [Option.map_eq_none_iff.1 performs.symm]
      exact .nil
    | some r =>
      rw [performed] at performs
      obtain ⟨r', performed', same'⟩ := Option.map_eq_some_iff.1 performs.symm
      rw [performed']
      exact .cons (.of_resultAt same'.symm) (ih (congrArg Prod.snd same'.symm))

end Alike

/-- **Locations are for diagnostics only.** Tokens that differ in nothing but their locations have
the same labels at the same addresses and resolve to the same instructions, or have errors that are
equal up to their locations. And on machines that differ in nothing but the locations of their
instructions, operations that are the same but for locations leave equal stacks, program counters
and streams, each of them, and fail with errors that are equal up to their locations. -/
theorem history_alike_of_differInLocations :
    (∀ (ts us : List SourceToken) (start : Address),
      ts.map SourceToken.token = us.map SourceToken.token →
      Resolution.mapResult noLocation (List.map fun l => (l.name, l.address))
          (Resolution.labels ts start) =
        Resolution.mapResult noLocation (List.map fun l => (l.name, l.address))
          (Resolution.labels us start) ∧
      Resolution.mapResult noLocation (fun p => (p.start, p.instructions))
          (Resolution.resolve ts start) =
        Resolution.mapResult noLocation (fun p => (p.start, p.instructions))
          (Resolution.resolve us start)) ∧
    ∀ m n : Machine, m.DifferInLocations n → ∀ ops ops' : List Operation,
      List.Forall₂ Operation.Alike ops ops' → ∀ fuel : Nat,
        List.Forall₂ AlikeAfter (m.history fuel ops) (n.history fuel ops') := by
  refine ⟨fun ts us start same => ?_, fun m n differ ops ops' alike fuel => ?_⟩
  · exact ⟨Resolution.labels_alike same start, Resolution.resolve_alike same start⟩
  · exact Machine.history_alike alike differ.mapLocations_eq fuel

/-- The programs of two machines come from different files, and so do the tokens that are loaded
behind them. The first run fails in the old program, the second one is behind it. -/
theorem history_alike_of_differInLocations_two_files :
    ∃ (m n : Machine) (ts us : List SourceToken), m.DifferInLocations n ∧ m ≠ n ∧ ts ≠ us ∧
      Resolution.mapResult noLocation (fun p => (p.start, p.instructions))
          (Resolution.resolve ts 1) =
        Resolution.mapResult noLocation (fun p => (p.start, p.instructions))
          (Resolution.resolve us 1) ∧
      (m.history 9 [.loadTokens ts, .run, .goTo 1, .run]).map Prod.fst =
        [none, some (.runtime (.stackUnderflow (.op .add) ⟨"a", 1, 1⟩)), none, none] ∧
      List.Forall₂ AlikeAfter (m.history 9 [.loadTokens ts, .run, .goTo 1, .run])
        (n.history 9 [.loadTokens us, .run, .goTo 1, .run]) := by
  let m : Machine := ⟨⟨0, #[.op .add], #[⟨"a", 1, 1⟩]⟩, 0, [], none, [], {}, {}⟩
  let n : Machine := ⟨⟨0, #[.op .add], #[⟨"b", 7, 3⟩]⟩, 0, [], none, [], {}, {}⟩
  let ts : List SourceToken := [⟨.refer "x", ⟨"a", 1, 5⟩⟩, ⟨.define "x", ⟨"a", 2, 1⟩⟩]
  let us : List SourceToken := [⟨.refer "x", ⟨"b", 9, 1⟩⟩, ⟨.define "x", ⟨"b", 7, 7⟩⟩]
  have differ : m.DifferInLocations n := ⟨rfl, rfl, rfl⟩
  have same : ts.map SourceToken.token = us.map SourceToken.token := rfl
  have alike : List.Forall₂ Operation.Alike [.loadTokens ts, .run, .goTo 1, .run]
      [.loadTokens us, .run, .goTo 1, .run] :=
    .cons (.loadTokens same) (.cons .run (.cons (.goTo 1) (.cons .run .nil)))
  obtain ⟨tokens, operations⟩ := history_alike_of_differInLocations
  exact ⟨m, n, ts, us, differ, by decide, by decide, (tokens ts us 1 same).2, by decide +kernel,
    operations m n differ _ _ alike 9⟩

end StackAsm
