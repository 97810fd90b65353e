import StackAsm.C.Text
import StackAsm.Compiler.Library
import StackAsm.Program

set_option autoImplicit false

/-!
# Compiling to C

A compiled program is one loop around a `switch` over the program counter. Each address has a case
that does what the machine does there; every other value of the program counter ends the program. A
jump sets the program counter and goes on with the next turn of the loop; all else leaves the
`switch` and moves on by one address.

## Main definitions

* `StackAsm.Compiler.opcodeBody` — the statements of an opcode.
* `StackAsm.Compiler.entryCase` — the case of an instruction.
* `StackAsm.Program.toC` — the source file of a program.
* `StackAsm.Program.cText` — its text.

## Main results

* `StackAsm.Compiler.commentSafe_not_closing` — no comment is closed by the text in it.

## Implementation notes

The program counter is `pc`; `a`, `b` and `t` hold operands while an instruction is executed.
-/

namespace StackAsm

namespace Compiler

open C

/-! ## Comments -/

/-- A text in which a space parts every asterisk from a slash behind it, so that it closes no
comment. -/
def commentSafe : List Char → List Char
  | '*' :: '/' :: cs => '*' :: ' ' :: '/' :: commentSafe cs
  | c :: cs => c :: commentSafe cs
  | [] => []

/-- Making a text safe for a comment leaves its first character as it is. -/
@[simp] theorem head?_commentSafe (cs : List Char) : (commentSafe cs).head? = cs.head? := by
  fun_cases commentSafe cs <;> rfl

/-- A text made safe for a comment holds no mark that closes one. -/
theorem commentSafe_not_closing (cs : List Char) : ¬ ['*', '/'] <:+: commentSafe cs := by
  fun_induction commentSafe cs with
  | case1 cs ih => simp [List.infix_cons_iff, ih]
  | case2 c cs open_ ih =>
    rw [List.infix_cons_iff]
    rintro (starts | inside)
    · rw [List.cons_prefix_cons] at starts
      obtain ⟨rfl, slash⟩ := starts
      have head := head?_commentSafe cs
      cases cs with
      | nil => simp [commentSafe] at slash
      | cons d cs =>
        rw [List.singleton_prefix_iff_head?_eq_some] at slash
        rw [slash] at head
        exact open_ cs rfl (by simpa using head.symm)
    · exact ih inside
  | case3 => simp

/-- The comment at the case of an instruction: its text and where it comes from. -/
def caseComment (e : Program.Entry) : String :=
  e.instruction.text ++ " @ " ++ String.ofList (commentSafe e.location.tag.toList)

/-! ## Instructions -/

/-- Takes the top of the stack into a variable. -/
def popInto (x : String) : Stmt := .expr (.assign (.name x) (.call "pop" []))

/-- Takes the values on top of the stack into variables, the top first. -/
def popAll (xs : List String) : Stmt := .ofList .line (xs.map popInto)

/-- Puts the value of an expression on the stack. -/
def pushValue (e : Expr) : Stmt := .expr (.call "push" [e])

/-- Takes two operands and pushes the result of a function. -/
def binary (function : String) : Stmt :=
  .ofList .lines
    [.ofList .line
      [popInto "b", popInto "a", pushValue (.call function [.name "a", .name "b"])],
    .leave]

/-- Takes a target and two operands, and jumps if the operands compare. -/
def branch (op : BinOp) : Stmt :=
  .ofList .lines
    [popAll ["t", "b", "a"],
      .ifThen (.bin op (.name "a") (.name "b"))
        (.block .line (.ofList .line [.expr (.assign (.name "pc") (.name "t")), .again])),
      .leave]

/-- Checks that the index in `t` names a value of the stack. -/
def checkIndex : Stmt :=
  .expr (.assign (.name "t") (.call "checked_index" [.name "t", .name "sp"]))

/-- The statements of an opcode. -/
def opcodeBody : Opcode → Stmt
  | .add => binary "wrap_add"
  | .sub => binary "wrap_sub"
  | .mul => binary "wrap_mul"
  | .div => binary "wrap_div"
  | .jmp => .ofList .lines [.expr (.assign (.name "pc") (.call "pop" [])), .again]
  | .jeq => branch .eq
  | .jnq => branch .ne
  | .jgt => branch .gt
  | .jlt => branch .lt
  | .get =>
    .ofList .lines [popInto "t", checkIndex, pushValue (.element "stack" (.name "t")), .leave]
  | .set =>
    .ofList .lines
      [popAll ["t", "a"], checkIndex,
        .expr (.assign (.element "stack" (.name "t")) (.name "a")), .leave]
  | .dup =>
    .ofList .lines
      [.ofList .line [popInto "a", pushValue (.name "a"), pushValue (.name "a")], .leave]
  | .pop => .ofList .lines [.expr (.cast .void (.call "pop" [])), .leave]
  | .ppos | .size => .ofList .lines [pushValue (.name "sp"), .leave]
  | .swap =>
    .ofList .lines
      [.ofList .line [popInto "b", popInto "a", pushValue (.name "b"), pushValue (.name "a")],
        .leave]
  | .dbg => .ofList .lines [.expr (.call "dump_stack" []), .leave]
  | .print =>
    .ofList .lines [.expr (.call "printf" [.format "%" "PRId64", .call "pop" []]), .leave]
  | .cprint =>
    .ofList .lines [.expr (.call "putchar" [.cast .uchar (.call "pop" [])]), .leave]
  | .read => .ofList .lines [pushValue (.call "read_int" []), .leave]
  | .cread => .ofList .lines [pushValue (.call "read_char" []), .leave]

/-- The statements of an instruction. -/
def instructionBody : Instruction → Stmt
  | .push n => .ofList .lines [pushValue (.word n), .leave]
  | .op o => opcodeBody o

/-! ## Programs -/

/-- The case of an instruction. -/
def entryCase (e : Program.Entry) : Stmt :=
  .seq .lines (.caseLabel e.address (caseComment e)) (instructionBody e.instruction)

/-- What happens at all addresses without an instruction: the program ends. -/
def defaultCase : Stmt :=
  .ofList .lines
    [.defaultLabel, .expr (.call "fflush" [.name "stdout"]), .return (.num 0)]

/-- The cases of a program, in the order of its instructions, and that of all other addresses. -/
def cases (entries : List Program.Entry) : Stmt :=
  entries.foldr (fun e rest => .seq .lines (entryCase e) rest) defaultCase

/-- The main function of a program. -/
def main (p : Program) : Function :=
  ⟨.int, "main", [], .lines, .ofList .lines
    [.declare .int64 [("pc", some (.word p.start))],
      .declare .int64 [("a", some (.num 0)), ("b", some (.num 0)), ("t", some (.num 0))],
      .ofList .line (["a", "b", "t"].map fun x => .expr (.cast .void (.name x))),
      .gap,
      .forever (.block .lines (.ofList .lines
        [.switch (.name "pc") (.block .lines (cases p.entries)),
          .expr (.postIncr "pc")]))]⟩

/-- The stack size of a compiled program if no other is asked for. -/
def defaultStackSize : Nat := 1024

end Compiler

namespace Program

open C Compiler

/-- The C source file of a program whose stack holds `stackSize` values. -/
def toC (p : Program) (stackSize : Nat) : Source :=
  [.comment "Generated by tstk.", .define "STACK_SIZE" stackSize, .gap] ++ library
    ++ [.gap, .exported (main p)]

/-- The text of the C source file of a program whose stack holds `stackSize` values. -/
def cText (p : Program) (stackSize : Nat) : String := (p.toC stackSize).text

end Program

end StackAsm
