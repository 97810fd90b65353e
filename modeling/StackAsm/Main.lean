import StackAsm.CommandLine.Command

set_option autoImplicit false

/-!
# The command line program

The program around `CommandLine.perform`: it reads the files and the standard input, writes what the
command leaves, and ends with its status.

## Implementation notes

The standard input is read before the command starts, and what the command writes appears when it
ends.
-/

namespace StackAsm.Main

open CommandLine

/-- The number of states that a run may look at. No run that ends in a lifetime looks at so many. -/
def fuel : Nat := 0x4000000000000000

/-- All that is left of a stream, behind what was read before. -/
partial def readAll (stream : IO.FS.Stream) (before : ByteArray) : IO ByteArray := do
  let chunk ← stream.read 65536
  if chunk.isEmpty then return before else readAll stream (before ++ chunk)

/-- What an error of the system means for a file. The number of the error comes with either sign. -/
def faultOf : IO.Error → FileFault
  | .noFileOrDirectory _ _ _ | .noSuchThing _ _ _ => .missing
  | .inappropriateType _ code _ =>
    if code = 20 ∨ code + 20 = 0 then .notDirectory else .isDirectory
  | e => .other (toString e)

/-- Reads a file. -/
def readFile (path : String) : IO (Except FileFault Bytes) := do
  try
    return .ok (← IO.FS.readBinFile path).toList
  catch e => return .error (faultOf e)

/-- Writes a file. -/
def writeFile (path : String) (bytes : Bytes) : IO (Except FileFault Unit) := do
  try
    IO.FS.writeBinFile path bytes.toByteArray
    return .ok ()
  catch e => return .error (faultOf e)

/-- Writes an answer and returns its status. -/
def deliver (answer : Answer) : IO UInt32 := do
  (← IO.getStdout).write answer.output.toByteArray
  (← IO.getStderr).write answer.diagnostics.toByteArray
  (← IO.getStdout).flush
  return UInt32.ofNat answer.status

/-- Reads the files that the options name, up to the first that cannot be read. -/
def readFiles (options : Options) : IO FileReader := do
  let mut contents : List (String × Except FileFault Bytes) := []
  for path in options.files do
    contents := contents ++ [(path, ← readFile path)]
  let found := contents
  return fun path => ((found.find? fun file => file.1 = path).map (·.2)).getD (.error .missing)

/-- Writes the file of a report, if it has one, and then the answer. -/
def finish (report : Report) : IO UInt32 :=
  match report.file? with
  | none => deliver report.answer
  | some (path, bytes, failure) => do
    match ← writeFile path bytes with
    | .ok () => deliver report.answer
    | .error fault => deliver { report with failure? := some (failure fault) }.answer

/-- Whether a command reads its standard input. -/
def readsInput (options : Options) : Bool :=
  options.files.isEmpty || options.action matches .run _ _

/-- Does what the options say. -/
def performOptions (options : Options) : IO UInt32 := do
  let read ← readFiles options
  let input ←
    if readsInput options then readAll (← IO.getStdin) .empty else pure ByteArray.empty
  match perform fuel read options input.toList with
  | some report => finish report
  | none => return 1

end StackAsm.Main

open StackAsm.Main StackAsm.CommandLine in
/-- The program: does what its arguments say. -/
def main (args : List String) : IO UInt32 :=
  match Invocation.ofArgs args with
  | .perform options => performOptions options
  | settled => ((settledAnswer settled).map deliver).getD (return 0)
