import Mathlib.Tactic.Lemma
import StackAsm.CommandLine.Options

set_option autoImplicit false

/-!
# Arguments that name files

Arguments are read one after the other, so files may be named behind the arguments that say what is
to be done with them. Which files these are makes no difference to what is to be done.

## Main definitions

* `StackAsm.CommandLine.NamesFile` — an argument that names a file wherever it stands.

## Main results

* `StackAsm.CommandLine.Draft.addArgs_append` — files named behind other arguments.
* `StackAsm.CommandLine.Draft.options_files` — what is asked for with other files.
* `StackAsm.CommandLine.Invocation.ofArgs_append` — what arguments and files come to.
-/

namespace StackAsm.CommandLine

/-- An argument names a file wherever it stands: it is not empty and holds no options. -/
def NamesFile (arg : String) : Prop := arg ≠ "" ∧ ¬ Draft.holdsOptions arg

/-- The name of a file does not start with a dash that has something behind it. -/
lemma NamesFile.toList_ne {arg : String} (names : NamesFile arg) {c : Char} {cs : List Char} :
    arg.toList ≠ '-' :: c :: cs := by
  intro same
  refine names.2 ?_
  have minus : arg ≠ "-" := by
    rintro rfl
    simp at same
  simp [Draft.holdsOptions, same, minus]

namespace Draft

variable {d d' : Draft} {args files : List String}

/-! ## Reading the names of files -/

/-- A name that is not empty is added to the files. -/
lemma addFile_of_ne {name : String} (nonempty : name ≠ "") (d : Draft) :
    d.addFile name = .ok { d with files := d.files ++ [name] } := if_neg nonempty

/-- Names that are not empty are added to the files in their order. -/
lemma foldlM_addFile (d : Draft) (nonempty : ∀ f ∈ files, f ≠ "") :
    files.foldlM addFile d = .ok { d with files := d.files ++ files } := by
  induction files generalizing d with
  | nil => simp [pure, Except.pure]
  | cons f files ih =>
    rw [List.forall_mem_cons] at nonempty
    rw [List.foldlM_cons, addFile_of_ne nonempty.1]
    refine (ih _ nonempty.2).trans ?_
    simp

/-- An argument that names a file wherever it stands is added to the files. -/
lemma addArg_of_namesFile {arg : String} (names : NamesFile arg) (d : Draft) :
    d.addArg arg = .ok ({ d with files := d.files ++ [arg] }, none) := by
  unfold addArg
  split
  · exact absurd ‹_› names.toList_ne
  · exact absurd ‹_› names.toList_ne
  · rw [addFile_of_ne names.1]
    rfl

/-- One argument is read after the other. -/
lemma addArgs_cons (d : Draft) (arg : String) (args : List String) :
    d.addArgs (arg :: args) =
      if arg = "--" then args.foldlM addFile d
      else
        match d.addArg arg, args with
        | .error settled, _ => .error settled
        | .ok (d, none), args => addArgs d args
        | .ok (_, some setting), [] => refuse (.missingValue setting)
        | .ok (d, some setting), value :: args =>
          if holdsOptions value then refuse (.missingValue setting)
          else
            match d.set setting value with
            | .error settled => .error settled
            | .ok d => addArgs d args :=
  addArgs.eq_def d (arg :: args)

/-- Arguments that name files are added to the files in their order. -/
lemma addArgs_files (d : Draft) (names : ∀ f ∈ files, NamesFile f) :
    d.addArgs files = .ok { d with files := d.files ++ files } := by
  induction files generalizing d with
  | nil => rw [addArgs, List.append_nil]
  | cons f files ih =>
    rw [List.forall_mem_cons] at names
    have separator : f ≠ "--" := by
      rintro rfl
      exact names.1.toList_ne rfl
    rw [addArgs_cons, if_neg separator, addArg_of_namesFile names.1]
    refine (ih _ names.2).trans ?_
    simp

/-- **Files named behind other arguments** are added to what these ask for. -/
theorem addArgs_append (read : d.addArgs args = .ok d') (names : ∀ f ∈ files, NamesFile f) :
    d.addArgs (args ++ files) = .ok { d' with files := d'.files ++ files } := by
  -- what an argument is read as depends on what is in front of it alone
  fun_induction addArgs d args with
  | case1 d =>
    cases read
    exact addArgs_files _ names
  | case2 d args =>
    -- behind `--` all arguments are names
    have more := foldlM_addFile d' fun f mem => (names f mem).1
    rw [List.cons_append, addArgs_cons, if_pos rfl, List.foldlM_append, read]
    exact more
  | case3 => cases read
  | case4 d arg other e args taken ih =>
    rw [List.cons_append, addArgs_cons, if_neg other, taken]
    exact ih read
  | case5 => cases read
  | case6 => cases read
  | case7 => cases read
  | case8 d arg other e setting value args taken plain e' set ih =>
    rw [List.cons_append, List.cons_append, addArgs_cons, if_neg other, taken]
    dsimp only
    rw [if_neg plain, set]
    exact ih read

/-! ## What is asked for -/

/-- What options come to is told by the number of actions among them. -/
lemma options_eq (d : Draft) :
    d.options =
      match d.actions with
      | [] => .ok ⟨d.files, .run false false, d.output,
          d.stackSize.getD Compiler.defaultStackSize, d.maxSteps⟩
      | [action] => .ok ⟨d.files, action, d.output,
          d.stackSize.getD Compiler.defaultStackSize, d.maxSteps⟩
      | _ => refuse .conflict := rfl

/-- The files make no difference to what is to be done with them. -/
theorem options_files (d : Draft) (files : List String) :
    { d with files := files }.options = d.options.map fun options =>
      { options with files := files } := by
  have actions : { d with files := files }.actions = d.actions := rfl
  simp only [options_eq, actions]
  split <;> rfl

/-- The tokens are an action exactly if their flag is set. -/
lemma tokens_mem_actions (d : Draft) : .tokens ∈ d.actions ↔ .tokens ∈ d.flags := by
  simp [actions]

/-- Without its flag the tokens are not asked for. -/
lemma action_of_options {options : Options} (read : d.options = .ok options)
    (noTokens : .tokens ∉ d.flags) : options.action ≠ .tokens := by
  rw [← tokens_mem_actions] at noTokens
  rw [options_eq] at read
  split at read
  · cases read
    exact Action.noConfusion
  · rename_i action only
    cases read
    rintro rfl
    simp [only] at noTokens
  · cases read

end Draft

/-- **What arguments and the files behind them come to.** -/
theorem Invocation.ofArgs_append {args files : List String} {d : Draft}
    (read : Draft.addArgs {} args = .ok d) (noFile : d.files = [])
    (names : ∀ f ∈ files, NamesFile f) :
    Invocation.ofArgs (args ++ files) =
      match d.options with
      | .ok options => .perform { options with files := files }
      | .error settled => settled := by
  rw [ofArgs, Draft.addArgs_append read names, noFile, List.nil_append]
  change (match { d with files := files }.options with | .ok o => _ | .error s => _) = _
  rw [Draft.options_files]
  cases d.options <;> rfl

end StackAsm.CommandLine
