import StackAsm.Decimal

set_option autoImplicit false

/-!
# A part of C

The part of C in which compiled programs are written: integers of a few types, one-dimensional
arrays of file scope, functions with parameters, loops, and a `switch` whose labels stand among its
statements. The syntax trees say how a program is laid out on lines, since the text of a compiled
program is fixed to the character.

## Main definitions

* `StackAsm.C.Expr`, `StackAsm.C.Stmt` — expressions and statements.
* `StackAsm.C.Function`, `StackAsm.C.Item` — definitions of file scope.
* `StackAsm.C.Source` — a whole source file.

## Implementation notes

`Stmt.seq` joins two statements, so a sequence is a tree and a `switch` finds its label by a walk
over the tree. Names of variables, of functions and of constants of the C library are strings, as
they are in C.
-/

namespace StackAsm.C

/-- The types of compiled programs. -/
inductive CType where
  /-- The type of integer constants and of truth values. -/
  | int
  /-- Signed integers of 64 bits. -/
  | int64
  /-- Unsigned integers of 64 bits. -/
  | uint64
  /-- Bytes. -/
  | uchar
  /-- The type without values. -/
  | void
  /-- Constant strings. -/
  | string
  deriving DecidableEq, Repr

/-- The operators between two operands. -/
inductive BinOp where
  /-- The product. -/
  | mul
  /-- The quotient, rounded toward zero. -/
  | div
  /-- The sum. -/
  | add
  /-- The difference. -/
  | sub
  /-- Whether the left operand is less. -/
  | lt
  /-- Whether the left operand is greater. -/
  | gt
  /-- Whether the left operand is at most the right one. -/
  | le
  /-- Whether the left operand is at least the right one. -/
  | ge
  /-- Whether the operands are equal. -/
  | eq
  /-- Whether the operands differ. -/
  | ne
  /-- Whether both operands are true; the right one is evaluated only if the left one is. -/
  | and
  /-- Whether an operand is true; the right one is evaluated only if the left one is not. -/
  | or
  deriving DecidableEq, Repr

/-- Expressions. -/
inductive Expr where
  /-- A decimal constant. -/
  | num (n : Nat)
  /-- A constant of type `int64_t`. -/
  | word (n : Word)
  /-- The code of a character. -/
  | char (c : Char)
  /-- A string. -/
  | str (s : String)
  /-- A string and, joined to it, the one that a constant of the library stands for. -/
  | format (s constant : String)
  /-- A variable, a constant of the library or a stream. -/
  | name (x : String)
  /-- An element of an array. -/
  | element (array : String) (index : Expr)
  /-- The operand with the opposite sign. -/
  | neg (e : Expr)
  /-- The operand, converted to a type. -/
  | cast (type : CType) (e : Expr)
  /-- An operator between two operands. -/
  | bin (op : BinOp) (left right : Expr)
  /-- The second operand if the first is true, else the third. -/
  | cond (test yes no : Expr)
  /-- Assigns a value to a variable or an element. -/
  | assign (target value : Expr)
  /-- The value of a variable, which becomes greater by one afterwards. -/
  | postIncr (x : String)
  /-- The value of a variable after it has become less by one. -/
  | preDecr (x : String)
  /-- Calls a function. -/
  | call (function : String) (args : List Expr)
  deriving Repr

/-- Whether the parts of a sequence stand on one line or on lines of their own. -/
inductive Layout where
  /-- All on one line. -/
  | line
  /-- Each on lines of its own. -/
  | lines
  deriving DecidableEq, Repr

/-- Statements. -/
inductive Stmt where
  /-- A blank line. -/
  | gap
  /-- Evaluates an expression and drops its value. -/
  | expr (e : Expr)
  /-- Declares variables of a type, some with initial values. -/
  | declare (type : CType) (vars : List (String × Option Expr))
  /-- One statement after another. -/
  | seq (layout : Layout) (first second : Stmt)
  /-- A block, the scope of the variables declared in it. -/
  | block (layout : Layout) (body : Stmt)
  /-- Executes the body if the test is true. -/
  | ifThen (test : Expr) (body : Stmt)
  /-- Executes the body as long as the test is true. -/
  | while (test : Expr) (body : Stmt)
  /-- Evaluates `first`, then executes the body and `step` as long as the test is true. -/
  | for (first test step : Expr) (body : Stmt)
  /-- Executes the body again and again. -/
  | forever (body : Stmt)
  /-- Goes to the label in the body that carries the value of an expression. -/
  | switch (e : Expr) (body : Stmt)
  /-- The label of a constant, with a comment. -/
  | caseLabel (n : Word) (comment : String)
  /-- The label for all other values. -/
  | defaultLabel
  /-- Leaves the innermost loop or `switch`. -/
  | leave
  /-- Goes on with the next turn of the innermost loop. -/
  | again
  /-- Returns from the function. -/
  | return (e : Expr)
  deriving Repr

/-- Functions. -/
structure Function where
  /-- The type of the result. -/
  result : CType
  /-- The name. -/
  name : String
  /-- The parameters. -/
  params : List (CType × String)
  /-- Whether the body stands on the line of the name. -/
  layout : Layout
  /-- The body. -/
  body : Stmt
  deriving Repr

/-- What stands in a source file. -/
inductive Item where
  /-- A blank line. -/
  | gap
  /-- A comment. -/
  | comment (text : String)
  /-- Gives a constant a name. -/
  | define (constant : String) (value : Nat)
  /-- Declares a part of the library. -/
  | include (header : String)
  /-- A variable that only this file uses. -/
  | variable (type : CType) (x : String) (value : Expr)
  /-- An array that only this file uses, its elements zero at first. -/
  | array (type : CType) (x : String) (length : Expr)
  /-- A function that only this file uses. -/
  | local (f : Function)
  /-- A function that may be called from outside. -/
  | exported (f : Function)
  deriving Repr

/-- A source file. -/
abbrev Source := List Item

/-- Statements one after the other, laid out as given; without any, a blank line. -/
def Stmt.ofList (layout : Layout) : List Stmt → Stmt
  | [] => .gap
  | [s] => s
  | s :: rest => .seq layout s (ofList layout rest)

end StackAsm.C
