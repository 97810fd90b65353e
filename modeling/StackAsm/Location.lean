import StackAsm.Decimal

set_option autoImplicit false

/-!
# Positions and locations

A *position* is a line and a column within one text, both counted from 1; a *location* is a
position in a named file. Every token and every loaded instruction carries its location, and
messages quote it.

## Main definitions

* `StackAsm.Position` — a line and a column; `StackAsm.Position.after` — the position behind a
  stretch of text.
* `StackAsm.Location` — a position in a named file.
* `StackAsm.Location.text`, `StackAsm.Location.tag` — the two ways of writing one: in messages
  (`a.src at line 1, column 5`) and in listings (`a.src:1:5`).

## Main results

* `StackAsm.Position.after_append` — positions compose along a text.
-/

namespace StackAsm

/-- A place in a text: the line and the column, both counted from 1. -/
structure Position where
  /-- The number of the line. -/
  line : Nat
  /-- The number of the character within its line. -/
  column : Nat
  deriving DecidableEq, Repr

namespace Position

/-- The first position of every text. -/
def first : Position := ⟨1, 1⟩

/-- The position behind the character `c`: a line feed begins a new line, every other character
takes one column. -/
def next (p : Position) (c : Char) : Position :=
  if c = '\n' then ⟨p.line + 1, 1⟩ else ⟨p.line, p.column + 1⟩

/-- The position behind a stretch of text that begins at `p`. -/
def after (p : Position) (cs : List Char) : Position := cs.foldl next p

/-- No text moves no position. -/
@[simp] theorem after_nil (p : Position) : p.after [] = p := rfl

/-- The position after a text is found character by character. -/
@[simp] theorem after_cons (p : Position) (c : Char) (cs : List Char) :
    p.after (c :: cs) = (p.next c).after cs := rfl

/-- The position after two texts is the one after the second, from the one after the first. -/
@[simp] theorem after_append (p : Position) (cs ds : List Char) :
    p.after (cs ++ ds) = (p.after cs).after ds := by
  simp [after]

end Position

/-- Where a token begins: a line and a column, counted from 1, in a file that is only named. -/
structure Location where
  /-- The name of the file. -/
  file : String
  /-- The number of the line. -/
  line : Nat
  /-- The number of the character within its line. -/
  column : Nat
  deriving DecidableEq, Repr, Inhabited

/-- The location of a position in the named file. -/
def Position.inFile (p : Position) (file : String) : Location := ⟨file, p.line, p.column⟩

namespace Location

/-- A location as messages quote it. -/
def text (l : Location) : String :=
  l.file ++ " at line " ++ Decimal.text l.line ++ ", column " ++ Decimal.text l.column

/-- A location as listings and comments quote it. -/
def tag (l : Location) : String :=
  l.file ++ ":" ++ Decimal.text l.line ++ ":" ++ Decimal.text l.column

end Location

end StackAsm
