import StackAsm.C.Syntax

set_option autoImplicit false

/-!
# The text of C programs

Expressions are written with as few parentheses as the binding of their operators permits, and
statements four columns further in with each block. Labels of a `switch` stand where the `switch`
does.

## Main definitions

* `StackAsm.C.Expr.text` — the text of an expression.
* `StackAsm.C.Stmt.lines` — a statement, laid out on lines.
* `StackAsm.C.Source.text` — a source file.

## Implementation notes

Within string constants braces are spelled as `\x7b` and `\x7d`.
-/

namespace StackAsm.C

/-- The name of a type. -/
def CType.text : CType → String
  | int => "int"
  | int64 => "int64_t"
  | uint64 => "uint64_t"
  | uchar => "unsigned char"
  | void => "void"
  | string => "const char *"

/-- The declaration of a name with a type. -/
def CType.declaration (type : CType) (declarator : String) : String :=
  if type = .string then type.text ++ declarator else type.text ++ " " ++ declarator

namespace BinOp

/-- The sign of an operator. -/
def text : BinOp → String
  | mul => "*"
  | div => "/"
  | add => "+"
  | sub => "-"
  | lt => "<"
  | gt => ">"
  | le => "<="
  | ge => ">="
  | eq => "=="
  | ne => "!="
  | and => "&&"
  | or => "||"

/-- How tightly an operator binds. -/
def level : BinOp → Nat
  | mul | div => 13
  | add | sub => 12
  | lt | gt | le | ge => 10
  | eq | ne => 9
  | and => 5
  | or => 4

end BinOp

/-- A character within a character constant or a string. -/
def escape (c : Char) : String :=
  if c = '\n' then "\\n"
  else if c = '\t' then "\\t"
  else if c = '\r' then "\\r"
  else if c = '\x0b' then "\\v"
  else if c = '\x0c' then "\\f"
  else if c = '"' then "\\\""
  else if c = '\\' then "\\\\"
  else String.singleton c

/-- A string constant. -/
def quoted (s : String) : String := "\"" ++ String.join (s.toList.map escape) ++ "\""

/-- The constant of type `int64_t` with the value `n`. The least word has a name of its own, because
its absolute value is no word. -/
def wordText (n : Word) : String :=
  if n = Int64.minValue then "INT64_MIN" else "INT64_C(" ++ n.text ++ ")"

namespace Expr

/-- How tightly the outermost operator of an expression binds. -/
def level : Expr → Nat
  | assign _ _ => 2
  | cond _ _ _ => 3
  | bin op _ _ => op.level
  | neg _ | cast _ _ | preDecr _ => 14
  | num _ | word _ | char _ | str _ | format _ _ | name _ => 15
  | element _ _ | postIncr _ | call _ _ => 15

/-- Puts text in parentheses unless it binds as tightly as its place asks. -/
def fenced (asked actual : Nat) (text : String) : String :=
  if asked ≤ actual then text else "(" ++ text ++ ")"

mutual

/-- The text of an expression. -/
def text : Expr → String
  | num n => n.repr
  | word n => wordText n
  | char c => "'" ++ escape c ++ "'"
  | str s => quoted s
  | format s constant => quoted s ++ " " ++ constant
  | name x => x
  | element a i => a ++ "[" ++ i.text ++ "]"
  | neg e => "-" ++ fenced 14 e.level e.text
  | cast t e => "(" ++ t.text ++ ")" ++ fenced 14 e.level e.text
  | bin op a b =>
    fenced op.level a.level a.text ++ " " ++ op.text ++ " " ++ fenced (op.level + 1) b.level b.text
  | cond c a b =>
    fenced 4 c.level c.text ++ " ? " ++ a.text ++ " : " ++ fenced 3 b.level b.text
  | assign x e => fenced 14 x.level x.text ++ " = " ++ e.text
  | postIncr x => x ++ "++"
  | preDecr x => "--" ++ x
  | call f args => f ++ "(" ++ ", ".intercalate (texts args) ++ ")"

/-- The texts of expressions. -/
def texts : List Expr → List String
  | [] => []
  | e :: es => e.text :: texts es

end

end Expr

/-- White space at the beginning of a line. -/
def indent (columns : Nat) : String := String.ofList (List.replicate columns ' ')

/-- A variable in its declaration. -/
def declarator : String × Option Expr → String
  | (x, none) => x
  | (x, some e) => x ++ " = " ++ e.text

namespace Stmt

/-- What stands before the body of a statement that has one. -/
def head : Stmt → String
  | ifThen test _ => "if (" ++ test.text ++ ") "
  | .while test _ => "while (" ++ test.text ++ ") "
  | .for first test step _ =>
    "for (" ++ first.text ++ "; " ++ test.text ++ "; " ++ step.text ++ ") "
  | forever _ => "for (;;) "
  | switch e _ => "switch (" ++ e.text ++ ") "
  | _ => ""

/-- A statement on one line. -/
def onLine : Stmt → String
  | gap => ""
  | expr e => e.text ++ ";"
  | declare type vars => type.declaration (", ".intercalate (vars.map declarator)) ++ ";"
  | seq _ s t => s.onLine ++ " " ++ t.onLine
  | block _ s => "\x7b " ++ s.onLine ++ " \x7d"
  | s@(ifThen _ body) | s@(.while _ body) | s@(.for _ _ _ body) | s@(forever body)
  | s@(switch _ body) => s.head ++ body.onLine
  | caseLabel n comment => "case " ++ wordText n ++ ": /* " ++ comment ++ " */"
  | defaultLabel => "default:"
  | leave => "break;"
  | again => "continue;"
  | .return e => "return " ++ e.text ++ ";"

/-- A statement on lines of its own, `columns` columns in; what stands before it on its first line
is `before`. -/
def linesAfter (columns : Nat) (before : String) : Stmt → String
  | gap => "\n"
  | seq .lines s t => linesAfter columns before s ++ linesAfter columns "" t
  | block .lines s =>
    indent columns ++ before ++ "\x7b\n" ++ linesAfter (columns + 4) "" s
      ++ indent columns ++ "\x7d\n"
  | s@(ifThen _ body) | s@(.while _ body) | s@(.for _ _ _ body) | s@(forever body)
  | s@(switch _ body) => linesAfter columns (before ++ s.head) body
  | s@(caseLabel _ _) | s@defaultLabel => indent (columns - 4) ++ s.onLine ++ "\n"
  | s => indent columns ++ before ++ s.onLine ++ "\n"

/-- A statement on lines of its own, `columns` columns in. -/
def lines (columns : Nat) (s : Stmt) : String := s.linesAfter columns ""

end Stmt

namespace Function

/-- The first part of a definition: the type of the result, the name and the parameters. -/
def head (f : Function) : String :=
  let params :=
    match f.params with
    | [] => "void"
    | params => ", ".intercalate (params.map fun (type, x) => type.declaration x)
  f.result.declaration f.name ++ "(" ++ params ++ ") "

/-- The text of a definition. -/
def text (f : Function) : String := (Stmt.block f.layout f.body).linesAfter 0 f.head

end Function

/-- The text of an item, which ends with a line feed. -/
def Item.text : Item → String
  | gap => "\n"
  | comment s => "/* " ++ s ++ " */\n"
  | define constant value => "#define " ++ constant ++ " " ++ value.repr ++ "\n"
  | .include header => "#include <" ++ header ++ ">\n"
  | .variable type x value => "static " ++ type.declaration x ++ " = " ++ value.text ++ ";\n"
  | array type x length => "static " ++ type.declaration x ++ "[" ++ length.text ++ "];\n"
  | .local f => "static " ++ f.text
  | exported f => f.text

/-- The text of a source file. -/
def Source.text (source : Source) : String := String.join (source.map Item.text)

end StackAsm.C
