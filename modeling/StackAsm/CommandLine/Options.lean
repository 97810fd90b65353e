import StackAsm.Compiler

set_option autoImplicit false

/-!
# Command line arguments

Arguments are read from left to right. An argument that begins with a minus sign and goes on holds
options: one long option behind two signs, or any number of letters behind one. Every other
argument names a file, and so does every argument behind a lone `--`. An option with a value takes
it from its own argument, behind an equals sign or directly behind its letter, or from the next one.
The first argument that cannot be read, or that asks for help or the version, settles the answer.

## Main definitions

* `StackAsm.CommandLine.Options` — what a command line asks for.
* `StackAsm.CommandLine.UsageError` — why it cannot be read.
* `StackAsm.CommandLine.Invocation.ofArgs` — reading the arguments.

## Implementation notes

At most one of the four actions other than running may be chosen, and none of them together with the
two ways of running. This is looked at when all arguments are read.
-/

namespace StackAsm.CommandLine

/-- Options without a value. -/
inductive Flag where
  /-- Compile to C. -/
  | compile
  /-- Step through the program. -/
  | debug
  /-- Hold a session, after the program if there is one. -/
  | interpret
  /-- Show the program. -/
  | listing
  /-- Show the tokens. -/
  | tokens
  /-- Show the options. -/
  | help
  /-- Show the version. -/
  | version
  deriving DecidableEq, Repr

/-- Options with a value. -/
inductive Setting where
  /-- The file that a compiled program is written to. -/
  | output
  /-- The number of values on the stack of a compiled program. -/
  | stackSize
  /-- The file that an image is written to. -/
  | emitImage
  /-- The number of instructions that one run may execute. -/
  | maxSteps
  deriving DecidableEq, Repr

/-- The long name of a flag. -/
def Flag.name : Flag → String
  | compile => "compile"
  | debug => "debug"
  | interpret => "interpret"
  | listing => "listing"
  | tokens => "tokens"
  | help => "help"
  | version => "version"

/-- The long name of an option with a value. -/
def Setting.name : Setting → String
  | output => "output"
  | stackSize => "stack-size"
  | emitImage => "emit-image"
  | maxSteps => "max-steps"

/-- The options that have a long name. -/
def long? (name : String) : Option (Flag ⊕ Setting) :=
  match [Flag.compile, .debug, .interpret, .listing, .tokens, .help, .version].find?
      (·.name = name) with
  | some flag => some (.inl flag)
  | none =>
    ([Setting.output, .stackSize, .emitImage, .maxSteps].find? (·.name = name)).map .inr

/-- The option that a letter stands for. -/
def short? : Char → Option (Flag ⊕ Setting)
  | 'c' => some (.inl .compile)
  | 'd' => some (.inl .debug)
  | 'i' => some (.inl .interpret)
  | 'h' => some (.inl .help)
  | 'V' => some (.inl .version)
  | 'o' => some (.inr .output)
  | 's' => some (.inr .stackSize)
  | _ => none

/-- Why a command line cannot be read. -/
inductive UsageError where
  /-- There is no option of this name. -/
  | unknownOption (text : String)
  /-- An option without a value is given one. -/
  | unexpectedValue (flag : Flag)
  /-- An option has no value. -/
  | missingValue (setting : Setting)
  /-- A value is no number of 64 bits. -/
  | invalidNumber (setting : Setting) (text : String)
  /-- The name of a file is empty. -/
  | emptyName
  /-- An option is given twice. -/
  | repeated (name : String)
  /-- Two options exclude each other. -/
  | conflict
  deriving DecidableEq, Repr

/-- The message of an error in a command line. -/
def UsageError.message : UsageError → String
  | unknownOption text => "unexpected argument '" ++ text ++ "' found"
  | unexpectedValue flag =>
    "unexpected value for '--" ++ flag.name ++ "' found; no more were expected"
  | missingValue setting =>
    "a value is required for '--" ++ setting.name ++ "' but none was supplied"
  | invalidNumber setting text => "invalid value '" ++ text ++ "' for '--" ++ setting.name ++ "'"
  | emptyName => "a value is required for a file name but none was supplied"
  | repeated name => "the argument '--" ++ name ++ "' cannot be used multiple times"
  | conflict => "the arguments exclude each other"

/-- What is to be done with the program. -/
inductive Action where
  /-- Run it, step by step if `debug`, and hold a session afterwards if `interpret`. -/
  | run (debug interpret : Bool)
  /-- Compile it to C. -/
  | compile
  /-- Show it. -/
  | listing
  /-- Show its tokens. -/
  | tokens
  /-- Write its image to a file. -/
  | emitImage (path : String)
  deriving DecidableEq, Repr

/-- What a command line asks for. -/
structure Options where
  /-- The files of the program. -/
  files : List String
  /-- What is to be done with the program. -/
  action : Action
  /-- The file that a compiled program is written to. -/
  output : Option String
  /-- The number of values on the stack of a compiled program. -/
  stackSize : Nat
  /-- The number of instructions that one run may execute. -/
  maxSteps : Option Nat
  deriving DecidableEq, Repr

/-- What was read of a command line so far. -/
structure Draft where
  /-- The files, in order. -/
  files : List String := []
  /-- The flags given, the last one first. -/
  flags : List Flag := []
  /-- The value of `output`. -/
  output : Option String := none
  /-- The value of `stackSize`. -/
  stackSize : Option Nat := none
  /-- The value of `emitImage`. -/
  emitImage : Option String := none
  /-- The value of `maxSteps`. -/
  maxSteps : Option Nat := none
  deriving DecidableEq, Repr

/-- What a command line comes to. -/
inductive Invocation where
  /-- Do what the options say. -/
  | perform (options : Options)
  /-- Show the options. -/
  | help
  /-- Show the version. -/
  | version
  /-- Refuse the command line. -/
  | refuse (error : UsageError)
  deriving DecidableEq, Repr

/-- The number that a value spells: digits behind an optional plus sign, less than 2^64. -/
def number? (text : String) : Option Nat :=
  let digits :=
    match text.toList with
    | '+' :: rest => rest
    | cs => cs
  let n := Nat.ofDigitChars 10 digits 0
  if digits ≠ [] ∧ digits.all Char.isDigit ∧ n < UInt64.size then some n else none

namespace Draft

/-- Reading a command line goes on, or settles the answer. -/
abbrev Reading := Except Invocation

/-- Refuses a command line. -/
def refuse {α : Type} (e : UsageError) : Reading α := .error (.refuse e)

/-- Adds a file. -/
def addFile (d : Draft) (name : String) : Reading Draft :=
  if name = "" then refuse .emptyName else .ok { d with files := d.files ++ [name] }

/-- Adds a flag. -/
def addFlag (d : Draft) (flag : Flag) : Reading Draft :=
  match flag with
  | .help => .error .help
  | .version => .error .version
  | flag =>
    if flag ∈ d.flags then refuse (.repeated flag.name)
    else .ok { d with flags := flag :: d.flags }

/-- Gives a setting a value that must be the name of a file. -/
def name (before : Option String) (setting : Setting) (value : String) : Reading (Option String) :=
  if value = "" then refuse .emptyName
  else if before.isSome then refuse (.repeated setting.name)
  else .ok (some value)

/-- Gives a setting a value that must be a number. -/
def number (before : Option Nat) (setting : Setting) (value : String) : Reading (Option Nat) :=
  match number? value with
  | none => refuse (.invalidNumber setting value)
  | some n => if before.isSome then refuse (.repeated setting.name) else .ok (some n)

/-- Gives a setting a value. -/
def set (d : Draft) (setting : Setting) (value : String) : Reading Draft :=
  match setting with
  | .output => do return { d with output := ← name d.output setting value }
  | .stackSize => do return { d with stackSize := ← number d.stackSize setting value }
  | .emitImage => do return { d with emitImage := ← name d.emitImage setting value }
  | .maxSteps => do return { d with maxSteps := ← number d.maxSteps setting value }

/-- Reads letters behind a minus sign. The value of the last one, if it has one, may be to come. -/
def addLetters (d : Draft) : List Char → Reading (Draft × Option Setting)
  | [] => .ok (d, none)
  | c :: cs =>
    match short? c with
    | none => refuse (.unknownOption (String.ofList ['-', c]))
    | some (.inl flag) => do addLetters (← d.addFlag flag) cs
    | some (.inr setting) =>
      match cs with
      | [] => .ok (d, some setting)
      | '=' :: value => do return (← d.set setting (String.ofList value), none)
      | value => do return (← d.set setting (String.ofList value), none)

/-- Reads what is behind two minus signs: a long name, and a value if there is an equals sign. -/
def addLong (d : Draft) (text : List Char) : Reading (Draft × Option Setting) :=
  let name := String.ofList (text.takeWhile (· ≠ '='))
  let value? :=
    match text.dropWhile (· ≠ '=') with
    | [] => none
    | _ :: value => some (String.ofList value)
  match long? name, value? with
  | none, _ => refuse (.unknownOption ("--" ++ name))
  | some (.inl flag), none => do return (← d.addFlag flag, none)
  | some (.inl flag), some _ => refuse (.unexpectedValue flag)
  | some (.inr setting), none => .ok (d, some setting)
  | some (.inr setting), some value => do return (← d.set setting value, none)

/-- Reads one argument. A setting that it ends with takes its value from the next one. -/
def addArg (d : Draft) (arg : String) : Reading (Draft × Option Setting) :=
  match arg.toList with
  | '-' :: '-' :: text => d.addLong text
  | '-' :: c :: cs => d.addLetters (c :: cs)
  | _ => do return (← d.addFile arg, none)

/-- Whether an argument holds options, and so is no value of the option before it. -/
def holdsOptions (arg : String) : Bool := arg.startsWith "-" && arg ≠ "-"

/-- Reads arguments. -/
def addArgs (d : Draft) : List String → Reading Draft
  | [] => .ok d
  | arg :: args =>
    if arg = "--" then args.foldlM addFile d
    else
      match d.addArg arg, args with
      | .error settled, _ => .error settled
      | .ok (d, none), args => addArgs d args
      | .ok (_, some setting), [] => refuse (.missingValue setting)
      | .ok (d, some setting), value :: args =>
        if holdsOptions value then refuse (.missingValue setting)
        else
          match d.set setting value with
          | .error settled => .error settled
          | .ok d => addArgs d args

/-- The actions that a command line names. -/
def actions (d : Draft) : List Action :=
  (if .debug ∈ d.flags ∨ .interpret ∈ d.flags then
    [Action.run (.debug ∈ d.flags) (.interpret ∈ d.flags)] else [])
  ++ (if .compile ∈ d.flags then [.compile] else [])
  ++ (if .listing ∈ d.flags then [.listing] else [])
  ++ (if .tokens ∈ d.flags then [.tokens] else [])
  ++ (d.emitImage.map .emitImage).toList

/-- What a command line asks for, once all of it is read: to run the program if it names no
action. -/
def options (d : Draft) : Reading Options :=
  let settle (action : Action) : Options :=
    ⟨d.files, action, d.output, d.stackSize.getD Compiler.defaultStackSize, d.maxSteps⟩
  match d.actions with
  | [] => .ok (settle (.run false false))
  | [action] => .ok (settle action)
  | _ => refuse .conflict

end Draft

/-- What the arguments come to. -/
def Invocation.ofArgs (args : List String) : Invocation :=
  match Draft.addArgs {} args >>= Draft.options with
  | .ok options => .perform options
  | .error settled => settled

/-- The answer to a question for the version. -/
def versionText : String := "tstk 0.1.0\n"

/-- The answer to a question for help. -/
def helpText : String :=
  "Interpreter, debugger and C compiler for the tstk stack language\n" ++
  "\n" ++
  "Usage: tstk [OPTIONS] [FILES]...\n" ++
  "\n" ++
  "Arguments:\n" ++
  "  [FILES]...  Source files (resolved together) or a single .tsti program image\n" ++
  "\n" ++
  "Options:\n" ++
  "  -c, --compile            Compile to C instead of interpreting\n" ++
  "  -d, --debug              Run the step-wise debugger\n" ++
  "  -i, --interpret          Start the REPL (after running files, if any)\n" ++
  "  -o, --output <FILE>      Output file for compilation (stdout by default)\n" ++
  "  -s, --stack-size <N>     Stack capacity of the generated C program [default: 1024]\n" ++
  "      --listing            Print the resolved program and exit\n" ++
  "      --tokens             Print the token stream and exit\n" ++
  "      --emit-image <FILE>  Write the resolved program as a binary image\n" ++
  "      --max-steps <N>      Abort the interpreter after N instructions\n" ++
  "  -h, --help               Print help\n" ++
  "  -V, --version            Print version\n"

end StackAsm.CommandLine
