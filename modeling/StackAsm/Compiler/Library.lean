import StackAsm.C.Syntax

set_option autoImplicit false

/-!
# The functions that compiled programs share

Every compiled program begins with the same functions: a stack in an array of fixed length with its
depth in `sp`, arithmetic that wraps, and the input and output of the machine. A function that
cannot do its work calls `fail`, which ends the program.

## Main definitions

* `StackAsm.Compiler.push`, `StackAsm.Compiler.pop`, `StackAsm.Compiler.checkedIndex` — access to
  the stack.
* `StackAsm.Compiler.wrapAdd`, `StackAsm.Compiler.wrapSub`, `StackAsm.Compiler.wrapMul`,
  `StackAsm.Compiler.wrapDiv` — arithmetic.
* `StackAsm.Compiler.readInt`, `StackAsm.Compiler.readChar`, `StackAsm.Compiler.dumpStack` — input
  and output.
* `StackAsm.Compiler.library` — all of them, in order.

## Implementation notes

Signed arithmetic that leaves its type has no meaning in C, so sums, differences and products are
formed unsigned, and the one quotient that is no word is answered without dividing.
-/

namespace StackAsm.Compiler

open C

/-- Ends a program with a message. -/
def fail : Function :=
  ⟨.void, "fail", [(.string, "message")], .lines, .ofList .lines
    [.expr (.call "fflush" [.name "stdout"]),
      .expr (.call "fprintf" [.name "stderr", .str "Error: %s\n", .name "message"]),
      .expr (.call "exit" [.num 1])]⟩

/-- Ends a program with the given message. -/
def failWith (message : String) : Stmt := .expr (.call "fail" [.str message])

/-- Puts a value on the stack. -/
def push : Function :=
  ⟨.void, "push", [(.int64, "value")], .lines, .ofList .lines
    [.ifThen (.bin .ge (.name "sp") (.name "STACK_SIZE")) (failWith "stack overflow"),
      .expr (.assign (.element "stack" (.postIncr "sp")) (.name "value"))]⟩

/-- Takes the top of the stack. -/
def pop : Function :=
  ⟨.int64, "pop", [], .lines, .ofList .lines
    [.ifThen (.bin .le (.name "sp") (.num 0)) (failWith "stack underflow"),
      .return (.element "stack" (.preDecr "sp"))]⟩

/-- Answers with an index, if it is one of an array of the given size. -/
def checkedIndex : Function :=
  ⟨.int64, "checked_index", [(.int64, "index"), (.int64, "size")], .lines, .ofList .lines
    [.ifThen
        (.bin .or (.bin .lt (.name "index") (.num 0)) (.bin .ge (.name "index") (.name "size")))
        (failWith "invalid stack index"),
      .return (.name "index")]⟩

/-- An operation on words that is performed on unsigned integers. -/
def wrapping (name : String) (op : BinOp) : Function :=
  ⟨.int64, name, [(.int64, "a"), (.int64, "b")], .line,
    .return (.cast .int64 (.bin op (.cast .uint64 (.name "a")) (.cast .uint64 (.name "b"))))⟩

/-- The sum, wrapped. -/
def wrapAdd : Function := wrapping "wrap_add" .add

/-- The difference, wrapped. -/
def wrapSub : Function := wrapping "wrap_sub" .sub

/-- The product, wrapped. -/
def wrapMul : Function := wrapping "wrap_mul" .mul

/-- The quotient, wrapped. -/
def wrapDiv : Function :=
  ⟨.int64, "wrap_div", [(.int64, "a"), (.int64, "b")], .lines, .ofList .lines
    [.ifThen (.bin .eq (.name "b") (.num 0)) (failWith "division by zero"),
      .ifThen (.bin .and (.bin .eq (.name "a") (.name "INT64_MIN"))
          (.bin .eq (.name "b") (.neg (.num 1))))
        (.return (.name "INT64_MIN")),
      .return (.bin .div (.name "a") (.name "b"))]⟩

/-- Writes the stack to the diagnostics. -/
def dumpStack : Function :=
  ⟨.void, "dump_stack", [], .lines, .ofList .lines
    [.declare .int64 [("i", none)],
      .expr (.call "fputc" [.char '[', .name "stderr"]),
      .for (.assign (.name "i") (.num 0)) (.bin .lt (.name "i") (.name "sp")) (.postIncr "i")
        (.block .lines (.ofList .lines
          [.ifThen (.bin .gt (.name "i") (.num 0))
              (.expr (.call "fputs" [.str ", ", .name "stderr"])),
            .expr (.call "fprintf"
              [.name "stderr", .format "%" "PRId64", .element "stack" (.name "i")])])),
      .expr (.call "fputs" [.str "]\n", .name "stderr"])]⟩

/-- Whether `c` is one of the given characters. -/
def isOneOf (c : String) : List Char → Expr
  | [] => .num 0
  | first :: more =>
    more.foldl (fun e x => .bin .or e (.bin .eq (.name c) (.char x)))
      (.bin .eq (.name c) (.char first))

/-- Whether `c` is a digit. -/
def isDigit (c : String) : Expr :=
  .bin .and (.bin .ge (.name c) (.char '0')) (.bin .le (.name c) (.char '9'))

/-- Reads the next byte of the input into `c`. -/
def nextByte (c : String) : Stmt := .expr (.assign (.name c) (.call "getchar" []))

/-- Whether a byte is a blank. -/
def isSpace : Function :=
  ⟨.int, "is_space", [(.int, "c")], .lines,
    .return (isOneOf "c" [' ', '\t', '\n', '\r', '\x0b', '\x0c'])⟩

/-- Reads an integer: blanks, a sign, and digits, which must not exceed what the sign permits. -/
def readInt : Function :=
  ⟨.int64, "read_int", [], .lines, .ofList .lines
    [.declare .int [("c", some (.call "getchar" []))],
      .declare .int [("negative", some (.num 0))],
      .declare .uint64 [("limit", none)],
      .declare .uint64 [("n", some (.num 0))],
      .gap,
      .while (.call "is_space" [.name "c"]) (nextByte "c"),
      .ifThen (isOneOf "c" ['-', '+']) (.block .lines (.ofList .lines
        [.expr (.assign (.name "negative") (.bin .eq (.name "c") (.char '-'))), nextByte "c"])),
      .ifThen (.bin .or (.bin .lt (.name "c") (.char '0')) (.bin .gt (.name "c") (.char '9')))
        (failWith "invalid input"),
      .gap,
      .expr (.assign (.name "limit") (.cond (.name "negative")
        (.bin .add (.cast .uint64 (.name "INT64_MAX")) (.num 1))
        (.cast .uint64 (.name "INT64_MAX")))),
      .while (isDigit "c") (.block .lines (.ofList .lines
        [.declare .uint64 [("digit", some (.cast .uint64 (.bin .sub (.name "c") (.char '0'))))],
          .ifThen (.bin .gt (.name "n")
              (.bin .div (.bin .sub (.name "limit") (.name "digit")) (.num 10)))
            (failWith "invalid input"),
          .expr (.assign (.name "n") (.bin .add (.bin .mul (.name "n") (.num 10)) (.name "digit"))),
          nextByte "c"])),
      .ifThen (.bin .ne (.name "c") (.name "EOF"))
        (.expr (.call "ungetc" [.name "c", .name "stdin"])),
      .gap,
      .return (.cond (.name "negative") (.cast .int64 (.bin .sub (.num 0) (.name "n")))
        (.cast .int64 (.name "n")))]⟩

/-- Reads a byte, or -1 at the end of the input. -/
def readChar : Function :=
  ⟨.int64, "read_char", [], .lines, .ofList .lines
    [.declare .int [("c", some (.call "getchar" []))],
      .return (.cond (.bin .eq (.name "c") (.name "EOF")) (.neg (.num 1))
        (.cast .int64 (.name "c")))]⟩

/-- What every compiled program begins with, after the definition of its stack size. -/
def library : Source :=
  [.include "inttypes.h", .include "stdint.h", .include "stdio.h", .include "stdlib.h", .gap,
    .array .int64 "stack"
      (.cond (.bin .gt (.name "STACK_SIZE") (.num 0)) (.name "STACK_SIZE") (.num 1)),
    .variable .int64 "sp" (.num 0), .gap,
    .local fail, .gap, .local push, .gap, .local pop, .gap, .local checkedIndex, .gap,
    .local wrapAdd, .local wrapSub, .local wrapMul, .gap, .local wrapDiv, .gap,
    .local dumpStack, .gap, .local isSpace, .gap, .local readInt, .gap, .local readChar]

end StackAsm.Compiler
