import StackAsm.Assembly
import StackAsm.CommandLine.Directory
import StackAsm.CommandLine.Options
import StackAsm.Listing
import StackAsm.Session.Debugger
import StackAsm.Session.Interactive

set_option autoImplicit false

/-!
# The command

The command reads its files, which are either one image or any number of sources, and does with the
program what the options say. Without files it holds a session, whatever the options say. It fails
at the first error, of which it tells on the diagnostics; what was written until then stays.

## Main definitions

* `StackAsm.CommandLine.load` — the program of the files.
* `StackAsm.CommandLine.perform` — what the options ask for, up to the file that is to be written.
* `StackAsm.CommandLine.invoke` — the whole command in a directory.

## Implementation notes

`perform` takes the reading of files as a function and leaves a file that is to be written to its
caller, so it can be put to work on a `Directory` as well as on the files of the system.
-/

namespace StackAsm.CommandLine

/-- Why a command fails. -/
inductive Failure where
  /-- A file cannot be read. -/
  | read (path : String) (fault : FileFault)
  /-- The bytes of a source are no text. -/
  | notText (path : String)
  /-- There is an image among several files. -/
  | imageAmongFiles
  /-- The bytes of a file are no image. -/
  | image (path : String) (error : ImageError)
  /-- The tokens of an image are asked for. -/
  | imageHasNoTokens (path : String)
  /-- The program cannot be read or does not go on. -/
  | program (error : Error)
  /-- An image cannot be written. -/
  | writeImage (path : String) (fault : FileFault)
  /-- A compiled program cannot be written. -/
  | write (path : String) (fault : FileFault)
  deriving DecidableEq, Repr

/-- The wording of an error, and behind it once more the wording of the fault that it passes on, if
it passes one on. -/
def errorChain (e : Error) : String :=
  match e with
  | .image (.decode fault) => e.message ++ ": " ++ fault.message
  | .runtime (.stream fault) => e.message ++ ": " ++ fault.message
  | _ => e.message

/-- The message of a failure. -/
def Failure.message : Failure → String
  | read path fault => "could not read file " ++ path ++ ": " ++ fault.message
  | notText path =>
    "could not read file " ++ path ++ ": " ++ StreamFault.message .invalidUtf8
  | imageAmongFiles => "a program image cannot be combined with other input files"
  | image path e => "could not load image " ++ path ++ ": " ++ errorChain (.image e)
  | imageHasNoTokens path => path ++ " is a program image and has no tokens"
  | program e => errorChain e
  | writeImage path fault => "could not write image " ++ path ++ ": " ++ fault.message
  | write path fault => "could not write " ++ path ++ ": " ++ fault.message

/-! ## Reading files -/

/-- How files are read. -/
abbrev FileReader := String → Except FileFault Bytes

/-- Whether a path names an image. -/
def isImage (path : String) : Bool := hasExtension "tsti" path

/-- What the files hold. -/
inductive Content where
  /-- The tokens of sources. -/
  | tokens (tokens : List SourceToken)
  /-- The program of an image. -/
  | program (program : Program)
  deriving DecidableEq, Repr

/-- Reads an image. -/
def readImage (read : FileReader) (path : String) : Except Failure Program := do
  let bytes ← (read path).mapError (.read path)
  (Program.ofImage bytes).mapError (.image path)

/-- Reads sources one after the other. -/
def readSources (read : FileReader) : List String → Except Failure (List SourceToken)
  | [] => .ok []
  | path :: paths => do
    let bytes ← (read path).mapError (.read path)
    match Utf8.decode? bytes with
    | none => .error (.notText path)
    | some text =>
      let these ← (Source.tokens path text).mapError fun e => .program (.source e)
      return these ++ (← readSources read paths)

/-- Reads the files: one image, or any number of sources. -/
def readFiles (read : FileReader) (paths : List String) : Except Failure Content :=
  match paths.find? isImage with
  | none => (readSources read paths).map .tokens
  | some path =>
    if paths.length > 1 then .error .imageAmongFiles else (readImage read path).map .program

/-- The program of the files. -/
def load : Content → Except Failure Program
  | .program p => .ok p
  | .tokens tokens => (Resolution.resolve tokens 0).mapError fun e => .program (.resolve e)

/-! ## Doing what the options say -/

/-- What a command leaves, up to the file that it is to write. -/
structure Report where
  /-- What it wrote to the output. -/
  output : Bytes := []
  /-- What it wrote to the diagnostics, other than that it failed. -/
  diagnostics : Bytes := []
  /-- Why it failed, if it failed. -/
  failure? : Option Failure := none
  /-- The file that it is to write, and how it fails if the file cannot be written. -/
  file? : Option (String × Bytes × (FileFault → Failure)) := none

/-- A command that fails at once. -/
def Report.failed (f : Failure) : Report := { failure? := some f }

/-- What is left of a command that ended with a machine. -/
def Report.ofOutcome (o : Outcome) : Report where
  output := o.machine.output.written.toList
  diagnostics := o.machine.diagnostics.written.toList
  failure? := o.error?.map fun e => .program (.runtime e)

/-- Goes on with a machine unless it failed. -/
def continueWith (o : Option Outcome) (next : Machine → Option Outcome) : Option Outcome :=
  match o with
  | none => none
  | some (.failed e m) => some (.failed e m)
  | some (.done m) => next m

/-- Runs a program and holds a session afterwards, as asked. -/
def runProgram (fuel : Nat) (m : Machine) (debug interpret : Bool) : Option Outcome :=
  continueWith (if debug then m.debug fuel else m.run fuel) fun m =>
    if interpret then m.interact fuel else some (.done m)

/-- Shows the tokens of the files. -/
def showTokens (path : String) : Content → Report
  | .tokens tokens => { output := Utf8.encode (SourceToken.dump tokens) }
  | .program _ => .failed (.imageHasNoTokens path)

/-- Compiles a program, for a file or for the output. -/
def compile (p : Program) (stackSize : Nat) (path? : Option String) : Report :=
  let text := Utf8.encode (p.cText stackSize)
  match path? with
  | some path => { file? := some (path, text, .write path) }
  | none => { output := text }

/-- Does something with the program of the files. -/
def withProgram (content : Content) (use : Program → Option Report) : Option Report :=
  match load content with
  | .error f => some (.failed f)
  | .ok p => use p

/-- Does what the options say with what the files hold. -/
def performOn (fuel : Nat) (options : Options) (machine : Machine) (content : Content) :
    Option Report :=
  match options.action with
  | .tokens => some (showTokens (options.files.headD "") content)
  | .listing => withProgram content fun p => some { output := Utf8.encode p.listing }
  | .compile => withProgram content fun p => some (compile p options.stackSize options.output)
  | .emitImage path =>
    withProgram content fun p => some { file? := some (path, p.image, .writeImage path) }
  | .run debug interpret => withProgram content fun p =>
    match machine.load p with
    | .error e => some (.failed (.program (.runtime e)))
    | .ok m => (runProgram fuel m debug interpret).map Report.ofOutcome

/-- What the options ask for. There is no answer if a run looks at more than `fuel` states. -/
def perform (fuel : Nat) (read : FileReader) (options : Options) (input : Bytes) : Option Report :=
  let machine := Machine.fresh options.maxSteps input {} {}
  if options.files = [] then (machine.interact fuel).map Report.ofOutcome
  else
    match readFiles read options.files with
    | .error f => some (.failed f)
    | .ok content => performOn fuel options machine content

/-! ## The whole command -/

/-- The answer of a command. -/
structure Answer where
  /-- The exit status: 0 for success, 1 for a failure, 2 for a command line that is refused. -/
  status : Nat
  /-- What was written to the output. -/
  output : Bytes
  /-- What was written to the diagnostics. -/
  diagnostics : Bytes
  deriving DecidableEq, Repr

/-- The answer of a command that left the given report and wrote its file. -/
def Report.answer (r : Report) : Answer :=
  match r.failure? with
  | none => ⟨0, r.output, r.diagnostics⟩
  | some f => ⟨1, r.output, r.diagnostics ++ Utf8.encode ("error: " ++ f.message ++ "\n")⟩

/-- What a command that is refused says last. -/
def helpHint : String := "For more information, try '--help'.\n"

/-- The answer to a command line that asks for nothing to be done. -/
def settledAnswer : Invocation → Option Answer
  | .perform _ => none
  | .help => some ⟨0, Utf8.encode helpText, []⟩
  | .version => some ⟨0, Utf8.encode versionText, []⟩
  | .refuse e =>
    some ⟨2, [], Utf8.encode ("error: " ++ e.message ++ "\n\n" ++ helpHint)⟩

/-- Writes the file of a report, if it has one. -/
def settle (d : Directory) (r : Report) : Answer × Directory :=
  match r.file? with
  | none => (r.answer, d)
  | some (path, bytes, failure) =>
    match d.write path bytes with
    | .ok d => (r.answer, d)
    | .error fault => ({ r with failure? := some (failure fault) }.answer, d)

/-- The command with the given arguments and input in a directory: its answer, and the directory
afterwards. There is no answer if a run looks at more than `fuel` states. -/
def invoke (fuel : Nat) (args : List String) (d : Directory) (input : Bytes) :
    Option (Answer × Directory) :=
  match Invocation.ofArgs args with
  | .perform options => (perform fuel d.read options input).map (settle d)
  | settled => (settledAnswer settled).map fun answer => (answer, d)

end StackAsm.CommandLine
