import StackAsm.Image
import StackAsm.Machine.Basic
import StackAsm.Source

set_option autoImplicit false

/-!
# Assembling

Assembling is reading source text and resolving its labels. What can go wrong on the way from source
text to the end of a run is collected here in one type, with one message and at most one location
each.

## Main definitions

* `StackAsm.Error` — the errors of all stages.
* `StackAsm.assemble` — the program of a source text, at address 0.
-/

namespace StackAsm

/-- An error of any stage. -/
inductive Error where
  /-- The source text is no sequence of tokens. -/
  | source (error : LexError)
  /-- The tokens stand for no program. -/
  | resolve (error : ResolveError)
  /-- The bytes are no image of a program. -/
  | image (error : ImageError)
  /-- The machine does not go on. -/
  | runtime (error : RuntimeError)
  deriving DecidableEq, Repr

namespace Error

/-- The message of an error. -/
def message : Error → String
  | source e => e.message
  | resolve e => e.message
  | image e => e.message
  | runtime e => e.message

/-- The place in the source that the error is about, if it is about one. -/
def location? : Error → Option Location
  | source e => some e.location
  | resolve e => some e.location
  | image _ => none
  | runtime e => e.location?

end Error

/-- The program of a source text, which messages call `file`, at address 0. -/
def assemble (file text : String) : Except Error Program := do
  let tokens ← (Source.tokens file text).mapError .source
  (Resolution.resolve tokens 0).mapError .resolve

end StackAsm
