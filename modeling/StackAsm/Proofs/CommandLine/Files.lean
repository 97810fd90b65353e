import Mathlib
import StackAsm.CommandLine.Command
import StackAsm.Proofs.CommandLine.Arguments
import StackAsm.Proofs.CommandLine.Directory

set_option autoImplicit false

/-!
# The files that a command writes

A command decides what to write before it writes anything: `CommandLine.perform` leaves a report,
and the file of the report is written last. A report that tells of a failure has no file. So a
command that fails, be it that its file cannot be written, leaves all files and directories as they
are, and one that succeeds has written the file that its options ask for, if they ask for one, and
nothing else, wherever in the tree that file is.

## Main definitions

* `StackAsm.Directory.Rewrites` — what becomes of the tree when a file is written.
* `StackAsm.CommandLine.AsksFor` — the file that a command line asks for, and what it is to hold.
* `StackAsm.CommandLine.Hold` — the program of the input files.

## Main results

* `StackAsm.Directory.rewrites_of_write` — a write that succeeds changes the file that it names.
* `StackAsm.CommandLine.asksFor_iff` — what a command line asks for is told by its options.
* `StackAsm.CommandLine.performOn_file?`, `StackAsm.CommandLine.perform_file?` — the file of a
  report.
* `StackAsm.CommandLine.invoke_writes` — what a command leaves of the tree.
-/

namespace StackAsm

/-! ## One file of a tree -/

namespace Directory

variable {d d' : Directory} {path : String} {bytes : Bytes}

/-- The directory `d'` is what `d` becomes when bytes are written to the file that a path names. -/
structure Rewrites (d : Directory) (path : String) (bytes : Bytes) (d' : Directory) : Prop where
  /-- The bytes are written. -/
  written : d.write path bytes = .ok d'
  /-- The path leads to a place with a file or with nothing. The file that is there afterwards holds
  the bytes, and at all other places there is what was there before. -/
  file : ∃ p, d.LeadsTo path p ∧ d.node p ≠ .directory ∧ d'.node p = .file bytes ∧
    ∀ q, q ≠ p → d'.node q = d.node q
  /-- The path still leads to that file. -/
  found : d'.read path = .ok bytes
  /-- The working directory is the same one. -/
  working : d'.working = d.working

/-- **A write that succeeds changes the file that it names**, and nothing else. -/
theorem rewrites_of_write (written : d.write path bytes = .ok d') : d.Rewrites path bytes d' := by
  obtain ⟨p, leads, free, here, same, working⟩ := node_of_write written
  exact ⟨written, ⟨p, leads, free, here, same⟩, read_of_write written, working⟩

end Directory

namespace CommandLine

variable {fuel : Nat} {args files : List String} {d d' : Directory} {input : Bytes}
  {options : Options} {draft : Draft} {r : Report} {path : String} {content : Program → Bytes}

/-! ## What a command line asks for -/

/-- A command line names input files, and asks for a file to be written at a path. It is to hold the
image of their program, or the text of the program compiled for a stack size. -/
inductive AsksFor (args : List String) :
    (files : List String) → (path : String) → (content : Program → Bytes) → Prop where
  /-- It asks for an image. -/
  | image {draft : Draft} {path : String} (read : Draft.addArgs {} args = .ok draft)
    (files : draft.files ≠ []) (emitImage : draft.emitImage = some path) :
    AsksFor args draft.files path Program.image
  /-- It asks for a compiled program, and names a file for it. -/
  | compiled {draft : Draft} {path : String} (read : Draft.addArgs {} args = .ok draft)
    (files : draft.files ≠ []) (compile : .compile ∈ draft.flags)
    (output : draft.output = some path) :
    AsksFor args draft.files path fun p =>
      Utf8.encode (p.cText (draft.stackSize.getD Compiler.defaultStackSize))

/-- The input files hold a program: they are an image of it, or sources that resolve to it. -/
def Hold (d : Directory) (files : List String) (p : Program) : Prop :=
  ∃ content, readFiles d.read files = .ok content ∧ load content = .ok p

/-- The file that options ask for, and what it is to hold of a program. -/
def Options.file? (options : Options) : Option (String × (Program → Bytes)) :=
  match options.action with
  | .emitImage path => some (path, Program.image)
  | .compile => options.output.map fun path =>
      (path, fun p => Utf8.encode (p.cText options.stackSize))
  | _ => none

namespace Draft

/-- What is asked for is an action that the command line names, or a run if it names none. -/
lemma action_cases (asked : draft.options = .ok options) :
    draft.actions = [] ∧ options.action = .run false false ∨
      draft.actions = [options.action] := by
  rw [options_eq] at asked
  split at asked
  · rename_i none
    cases asked
    exact .inl ⟨none, rfl⟩
  · rename_i action only
    cases asked
    exact .inr only
  · cases asked

/-- The only action that a command line names is what is asked for. -/
lemma action_eq_iff (asked : draft.options = .ok options) {action : Action}
    (other : action ≠ .run false false) : options.action = action ↔ action ∈ draft.actions := by
  rcases action_cases asked with ⟨none, run⟩ | only
  · simp [none, run, other.symm]
  · simp [only, eq_comm]

/-- An image at a path is an action exactly if the path is given for it. -/
lemma emitImage_mem_actions : .emitImage path ∈ draft.actions ↔ draft.emitImage = some path := by
  simp [actions]

/-- To compile is an action exactly if its flag is set. -/
lemma compile_mem_actions : .compile ∈ draft.actions ↔ .compile ∈ draft.flags := by
  simp [actions]

/-- All but the action is taken over from the command line. -/
lemma fields_of_options (asked : draft.options = .ok options) :
    options.files = draft.files ∧ options.output = draft.output ∧
      options.stackSize = draft.stackSize.getD Compiler.defaultStackSize := by
  rw [options_eq] at asked
  split at asked <;> cases asked <;> exact ⟨rfl, rfl, rfl⟩

end Draft

/-- **What a command line asks for is told by its options.** -/
theorem asksFor_iff (read : Draft.addArgs {} args = .ok draft)
    (asked : draft.options = .ok options) :
    AsksFor args files path content ↔
      files = options.files ∧ files ≠ [] ∧ options.file? = some (path, content) := by
  obtain ⟨names, output, stackSize⟩ := Draft.fields_of_options asked
  constructor
  · intro asks
    cases asks with
    | image read' nonempty emitImage =>
      cases read.symm.trans read'
      have action : options.action = .emitImage path :=
        (Draft.action_eq_iff asked (by simp)).2 (Draft.emitImage_mem_actions.2 emitImage)
      exact ⟨names.symm, nonempty, by rw [Options.file?, action]⟩
    | compiled read' nonempty compile named =>
      cases read.symm.trans read'
      have action : options.action = .compile :=
        (Draft.action_eq_iff asked (by simp)).2 (Draft.compile_mem_actions.2 compile)
      exact ⟨names.symm, nonempty, by rw [Options.file?, action, output, named, stackSize]; rfl⟩
  · rintro ⟨rfl, nonempty, file⟩
    rw [names] at nonempty ⊢
    unfold Options.file? at file
    split at file
    · rename_i action
      cases file
      exact .image read nonempty
        (Draft.emitImage_mem_actions.1 ((Draft.action_eq_iff asked (by simp)).1 action))
    · rename_i action
      obtain ⟨_, named, same⟩ := Option.map_eq_some_iff.1 file
      cases same
      rw [stackSize]
      exact .compiled read nonempty
        (Draft.compile_mem_actions.1 ((Draft.action_eq_iff asked (by simp)).1 action))
        (output ▸ named)
    · cases file

/-! ## The file of a report -/

/-- A report has no file, and if it tells of no failure, there is none to be written; or it has the
file that options ask for, which holds what they say of a program. -/
def Report.FileFits (r : Report) (file? : Option (String × (Program → Bytes)))
    (holds : Program → Prop) : Prop :=
  r.file? = none ∧ (r.failure? = none → file? = none) ∨
    ∃ path content p failure, file? = some (path, content) ∧ holds p ∧ r.failure? = none ∧
      r.file? = some (path, content p, failure)

/-- The report of a failure has no file, whatever is asked for. -/
lemma Report.fileFits_failed (f : Failure) (file? : Option (String × (Program → Bytes)))
    (holds : Program → Prop) : (Report.failed f).FileFits file? holds :=
  .inl ⟨rfl, nofun⟩

/-- Tokens are shown without a file. -/
lemma showTokens_file? (path : String) (held : Content) :
    (showTokens path held).file? = none := by
  unfold showTokens
  split <;> rfl

/-- The file of a report about a program fits if it does for the program that the input files
hold. -/
lemma withProgram_file? {held : Content} {use : Program → Option Report}
    {file? : Option (String × (Program → Bytes))} (done : withProgram held use = some r)
    (fits : ∀ p, use p = some r → r.FileFits file? (· = p)) :
    r.FileFits file? fun p => load held = .ok p := by
  unfold withProgram at done
  split at done
  · cases done
    exact Report.fileFits_failed ..
  · rename_i p loaded
    rcases fits p done with none | ⟨path, content, _, failure, asked, rfl, file⟩
    · exact .inl none
    · exact .inr ⟨path, content, _, failure, asked, loaded, file⟩

/-- **The file of a report is the one that the options ask for**, with what they say of the program
of the input files. -/
theorem performOn_file? {machine : Machine} {held : Content}
    (done : performOn fuel options machine held = some r) :
    r.FileFits options.file? fun p => load held = .ok p := by
  unfold performOn at done
  unfold Options.file?
  cases action : options.action <;> rw [action] at done
  case tokens =>
    cases done
    exact .inl ⟨showTokens_file? _ held, fun _ => rfl⟩
  case listing =>
    refine withProgram_file? done fun p listed => ?_
    cases listed
    exact .inl ⟨rfl, fun _ => rfl⟩
  case compile =>
    refine withProgram_file? done fun p compiled => ?_
    cases compiled
    unfold CommandLine.compile
    cases options.output with
    | none => exact .inl ⟨rfl, fun _ => rfl⟩
    | some path => exact .inr ⟨path, _, p, .write path, rfl, rfl, rfl, rfl⟩
  case emitImage path =>
    refine withProgram_file? done fun p emitted => ?_
    cases emitted
    exact .inr ⟨path, _, p, .writeImage path, rfl, rfl, rfl, rfl⟩
  case run debug interpret =>
    refine withProgram_file? done fun p ran => ?_
    split at ran
    · cases ran
      exact Report.fileFits_failed ..
    · obtain ⟨o, -, rfl⟩ := Option.map_eq_some_iff.1 ran
      exact .inl ⟨rfl, fun _ => rfl⟩

/-- Without input files there is no file to be written. -/
theorem perform_file? (done : perform fuel d.read options input = some r) :
    r.FileFits (if options.files = [] then none else options.file?)
      fun p => Hold d options.files p := by
  unfold perform at done
  split_ifs at done ⊢
  · obtain ⟨o, -, rfl⟩ := Option.map_eq_some_iff.1 done
    exact .inl ⟨rfl, fun _ => rfl⟩
  · split at done
    · cases done
      exact Report.fileFits_failed ..
    · rename_i held found
      rcases performOn_file? done with none | ⟨path, content, p, failure, asked, loaded, file⟩
      · exact .inl none
      · exact .inr ⟨path, content, p, failure, asked, ⟨held, found, loaded⟩, file⟩

/-! ## The whole command -/

/-- A report is answered with success exactly if it tells of no failure. -/
lemma Report.status_answer (r : Report) : r.answer.status = 0 ↔ r.failure? = none := by
  unfold Report.answer
  cases r.failure? <;> simp

/-- **A report is settled by writing its file**, if there is one and it can be written. -/
theorem settle_writes {file? : Option (String × (Program → Bytes))} {holds : Program → Prop}
    (fits : r.FileFits file? holds) :
    ((settle d r).1.status ≠ 0 → (settle d r).2 = d) ∧
      ((settle d r).1.status = 0 →
        (∀ path content, file? = some (path, content) →
          ∃ p, holds p ∧ d.Rewrites path (content p) (settle d r).2) ∧
        (file? = none → (settle d r).2 = d)) := by
  rcases fits with ⟨noFile, unasked⟩ | ⟨path, content, p, failure, rfl, held, success, file⟩
  · have settled : settle d r = (r.answer, d) := by rw [settle, noFile]
    rw [settled]
    refine ⟨fun _ => rfl, fun status => ⟨fun path content asked => ?_, fun _ => rfl⟩⟩
    cases asked.symm.trans (unasked (r.status_answer.1 status))
  · cases written : d.write path (content p) with
    | ok d' =>
      have settled : settle d r = (r.answer, d') := by
        simp only [settle, file, written]
      rw [settled]
      refine ⟨fun status => absurd (r.status_answer.2 success) status, fun _ => ⟨?_, ?_⟩⟩
      · rintro _ _ ⟨⟩
        exact ⟨p, held, Directory.rewrites_of_write written⟩
      · rintro ⟨⟩
    | error fault =>
      have settled : settle d r = ({ r with failure? := some (failure fault) }.answer, d) := by
        simp only [settle, file, written]
      rw [settled]
      refine ⟨fun _ => rfl, ?_⟩
      rintro ⟨⟩

/-! ## Command lines that ask for nothing -/

namespace Draft

/-- Reading a command line settles an answer only where nothing is to be done. -/
def Idle {α : Type} (reading : Reading α) : Prop := ∀ options, reading ≠ .error (.perform options)

/-- A reading that goes on settles no answer. -/
lemma idle_ok {α : Type} (a : α) : Idle (.ok a) := nofun

/-- A reading that is refused has nothing to be done. -/
lemma idle_refuse {α : Type} (e : UsageError) : Idle (refuse e : Reading α) := nofun

/-- Two idle readings, one behind the other, are idle. -/
lemma Idle.bind {α β : Type} {reading : Reading α} {next : α → Reading β} (first : Idle reading)
    (second : ∀ a, Idle (next a)) : Idle (reading >>= next) := by
  cases reading with
  | ok a => exact second a
  | error settled =>
    rintro options ⟨⟩
    exact first options rfl

/-- To read the name of a file is idle. -/
lemma idle_addFile (d : Draft) (name : String) : Idle (d.addFile name) := by
  unfold addFile
  split_ifs
  · exact idle_refuse _
  · exact idle_ok _

/-- To read a flag is idle. -/
lemma idle_addFlag (d : Draft) (flag : Flag) : Idle (d.addFlag flag) := by
  unfold addFlag
  split
  · nofun
  · nofun
  · split_ifs
    · exact idle_refuse _
    · exact idle_ok _

/-- To read a setting that is a name is idle. -/
lemma idle_name (before : Option String) (setting : Setting) (value : String) :
    Idle (name before setting value) := by
  unfold name
  split_ifs
  · exact idle_refuse _
  · exact idle_refuse _
  · exact idle_ok _

/-- To read a setting that is a number is idle. -/
lemma idle_number (before : Option Nat) (setting : Setting) (value : String) :
    Idle (number before setting value) := by
  unfold number
  split
  · exact idle_refuse _
  · split_ifs
    · exact idle_refuse _
    · exact idle_ok _

/-- To read a setting is idle. -/
lemma idle_set (d : Draft) (setting : Setting) (value : String) :
    Idle (d.set setting value) := by
  cases setting with
  | output | emitImage => exact (idle_name _ _ _).bind fun _ => idle_ok _
  | stackSize | maxSteps => exact (idle_number _ _ _).bind fun _ => idle_ok _

/-- To read options of one letter is idle. -/
lemma idle_addLetters (d : Draft) (letters : List Char) : Idle (d.addLetters letters) := by
  induction letters generalizing d with
  | nil => exact idle_ok _
  | cons c cs ih =>
    unfold addLetters
    split
    · exact idle_refuse _
    · exact (idle_addFlag _ _).bind ih
    · split
      · exact idle_ok _
      · exact (idle_set _ _ _).bind fun _ => idle_ok _
      · exact (idle_set _ _ _).bind fun _ => idle_ok _

/-- To read an option written out is idle. -/
lemma idle_addLong (d : Draft) (text : List Char) : Idle (d.addLong text) := by
  unfold addLong
  dsimp only
  split
  · exact idle_refuse _
  · exact (idle_addFlag _ _).bind fun _ => idle_ok _
  · exact idle_refuse _
  · exact idle_ok _
  · exact (idle_set _ _ _).bind fun _ => idle_ok _

/-- To read an argument is idle. -/
lemma idle_addArg (d : Draft) (arg : String) : Idle (d.addArg arg) := by
  unfold addArg
  split
  · exact idle_addLong _ _
  · exact idle_addLetters _ _
  · exact (idle_addFile _ _).bind fun _ => idle_ok _

/-- To read the names of files is idle. -/
lemma idle_foldlM_addFile (d : Draft) (names : List String) : Idle (names.foldlM addFile d) := by
  induction names generalizing d with
  | nil => exact idle_ok _
  | cons name names ih =>
    rw [List.foldlM_cons]
    exact (idle_addFile _ _).bind ih

/-- To read arguments is idle. -/
lemma idle_addArgs (d : Draft) (args : List String) : Idle (d.addArgs args) := by
  fun_induction addArgs d args with
  | case1 d => exact idle_ok _
  | case2 d args => exact idle_foldlM_addFile _ _
  | case3 d arg args other settled taken =>
    rintro options ⟨⟩
    exact idle_addArg d arg options taken
  | case4 d arg other d' args taken ih => exact ih
  | case5 => exact idle_refuse _
  | case6 => exact idle_refuse _
  | case7 d arg other d' setting value args taken plain settled set =>
    rintro options ⟨⟩
    exact idle_set d' setting value options set
  | case8 d arg other d' setting value args taken plain d'' set ih => exact ih

/-- The only thing wrong with options that are read are actions that exclude each other. -/
lemma eq_of_options_error {settled : Invocation} (asked : draft.options = .error settled) :
    settled = .refuse .conflict := by
  rw [options_eq] at asked
  split at asked <;> cases asked
  rfl

end Draft

/-- Arguments that are read come to what their options come to. -/
lemma Invocation.ofArgs_of_read (read : Draft.addArgs {} args = .ok draft) :
    ofArgs args =
      match draft.options with
      | .ok options => .perform options
      | .error settled => settled := by
  unfold ofArgs
  rw [read]
  rfl

/-- **What arguments come to**: to options that are read from them, or to an answer with nothing to
be done. In the second case they may have been read, but contradict each other. -/
theorem Invocation.ofArgs_cases (args : List String) :
    (∃ draft options, Draft.addArgs {} args = .ok draft ∧ draft.options = .ok options ∧
      ofArgs args = .perform options) ∨
    (∀ options, ofArgs args ≠ .perform options) ∧
      ∀ draft, Draft.addArgs {} args = .ok draft → ofArgs args = .refuse .conflict := by
  cases read : Draft.addArgs {} args with
  | error settled =>
    refine .inr ⟨fun options same => ?_, nofun⟩
    unfold ofArgs at same
    rw [read] at same
    exact Draft.idle_addArgs {} args options (read.trans (congrArg Except.error same))
  | ok draft =>
    have come := ofArgs_of_read read
    cases asked : draft.options with
    | ok options =>
      rw [asked] at come
      exact .inl ⟨draft, options, rfl, asked, come⟩
    | error settled =>
      rw [asked, Draft.eq_of_options_error asked] at come
      rw [come]
      exact .inr ⟨nofun, fun _ _ => rfl⟩

/-! ## The whole command -/

/-- **A command writes files only on success, and only where it is told to.** Let the command with
some arguments and some input come to an end in a directory of a tree. If its status tells of a
failure, the whole tree is as it was. If it tells of success, and the arguments name input files and
ask for a file to be written, then the input files hold a program, and the file that is asked for
holds the image of that program, or its text compiled for the stack size given, while everything
else in the tree is as it was. And if the arguments ask for no file, the tree is as it was, too. -/
theorem invoke_writes {answer : Answer}
    (ended : invoke fuel args d input = some (answer, d')) :
    (answer.status ≠ 0 → d' = d) ∧
      (answer.status = 0 →
        (∀ files path content, AsksFor args files path content →
          ∃ p, Hold d files p ∧ d.Rewrites path (content p) d') ∧
        ((∀ files path content, ¬ AsksFor args files path content) → d' = d)) := by
  rcases Invocation.ofArgs_cases args with ⟨draft, options, read, asked, come⟩ | ⟨idle, refused⟩
  · rw [invoke, come] at ended
    obtain ⟨r, done, settled⟩ := Option.map_eq_some_iff.1 ended
    obtain ⟨fails, succeeds⟩ := settle_writes (d := d) (perform_file? done)
    rw [settled] at fails succeeds
    refine ⟨fails, fun status => ?_⟩
    obtain ⟨writes, leaves⟩ := succeeds status
    constructor
    · intro files path content asks
      obtain ⟨rfl, nonempty, file⟩ := (asksFor_iff read asked).1 asks
      exact writes path content (by rw [if_neg nonempty, file])
    · intro unasked
      refine leaves (Option.eq_none_iff_forall_ne_some.2 ?_)
      rintro ⟨path, content⟩ file
      split_ifs at file with none
      exact unasked _ path content ((asksFor_iff read asked).2 ⟨rfl, none, file⟩)
  · have settled : ∃ settled, settledAnswer (Invocation.ofArgs args) = some settled ∧
        (settled, d) = (answer, d') := by
      unfold invoke at ended
      split at ended
      · exact absurd ‹_› (idle _)
      · exact Option.map_eq_some_iff.1 ended
    obtain ⟨_, answered, same⟩ := settled
    obtain ⟨rfl, rfl⟩ := Prod.mk.inj same
    refine ⟨fun _ => rfl, fun status => ⟨fun files path content asks => ?_, fun _ => rfl⟩⟩
    -- arguments that ask for a file and settle an answer contradict each other
    have conflict : Invocation.ofArgs args = .refuse .conflict := by
      cases asks with
      | image read => exact refused _ read
      | compiled read => exact refused _ read
    rw [conflict] at answered
    cases answered
    cases status

/-- A source that is named from the root is compiled into a directory beside the working directory,
in which there was nothing; the source stays as it is. -/
theorem invoke_writes_compiled :
    let d : Directory := ⟨.directory
      [("home", .directory [("a.src", .file (Utf8.encode "1 print"))]), ("lib", .directory [])],
      ["home"]⟩
    let p : Program := ⟨0, #[.push 1, .op .print], #[⟨"/home/a.src", 1, 1⟩, ⟨"/home/a.src", 1, 3⟩]⟩
    ∃ d', invoke 0 ["-cs8", "-o", "../lib/out.c", "/home/a.src"] d [] = some (⟨0, [], []⟩, d') ∧
      d'.read "../lib/out.c" = .ok (Utf8.encode (p.cText 8)) ∧
      d'.node ["lib", "out.c"] = .file (Utf8.encode (p.cText 8)) ∧
      d'.node ["home", "a.src"] = .file (Utf8.encode "1 print") := by
  intro d p
  let draft : Draft := { files := ["/home/a.src"], flags := [.compile],
                         output := some "../lib/out.c", stackSize := some 8 }
  have read : Draft.addArgs {} ["-cs8", "-o", "../lib/out.c", "/home/a.src"] = .ok draft := by cbv
  have come : Invocation.ofArgs ["-cs8", "-o", "../lib/out.c", "/home/a.src"] =
      .perform ⟨["/home/a.src"], .compile, some "../lib/out.c", 8, none⟩ :=
    Invocation.ofArgs_of_read read
  have found : readFiles d.read ["/home/a.src"] =
      .ok (.tokens [⟨.instr (.push 1), "/home/a.src", 1, 1⟩,
        ⟨.instr (.op .print), "/home/a.src", 1, 3⟩]) := by
    cbv
  have loaded : load (.tokens [⟨.instr (.push 1), "/home/a.src", 1, 1⟩,
      ⟨.instr (.op .print), "/home/a.src", 1, 3⟩]) = .ok p := by cbv
  have below : d.LeadsTo "../lib/out.c" ["lib", "out.c"] := by decide
  have written : d.write "../lib/out.c" (Utf8.encode (p.cText 8)) =
      .ok (d.put (Utf8.encode (p.cText 8)) ["lib", "out.c"]) := rfl
  have ended : invoke 0 ["-cs8", "-o", "../lib/out.c", "/home/a.src"] d [] =
      some (⟨0, [], []⟩, d.put (Utf8.encode (p.cText 8)) ["lib", "out.c"]) := by
    simp only [invoke, come, perform, List.cons_ne_nil, if_false, found, performOn, withProgram,
      loaded, compile, Option.map_some, settle, written]
    rfl
  obtain ⟨-, succeeds⟩ := invoke_writes ended
  obtain ⟨p', ⟨content, found', loaded'⟩, rewrites⟩ :=
    (succeeds rfl).1 _ _ _ (.compiled read (List.cons_ne_nil _ _) (List.mem_singleton_self _) rfl)
  obtain rfl := Except.ok.inj (found.symm.trans found')
  obtain rfl : p = p' := Except.ok.inj (loaded.symm.trans loaded')
  obtain ⟨place, leads, -, here, others⟩ := rewrites.file
  obtain rfl := below.unique leads
  exact ⟨_, ended, rewrites.found, here, (others _ (by decide)).trans rfl⟩

end CommandLine

end StackAsm
