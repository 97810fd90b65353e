import StackAsm.Token

set_option autoImplicit false

/-!
# Reading source text

Source text is a sequence of tokens with blanks and comments anywhere between them. Blanks are the
space, the tab, the carriage return and the line feed; a comment runs from `#` through the next
line feed, or to the end of the text. Letters and digits are those of ASCII. Every token is the
longest that its text allows, so blanks are needed only where two words, or two numbers without a
sign, would run together.

## Main definitions

* `StackAsm.LexError` — why a text is no sequence of tokens, and where.
* `StackAsm.Source.splitBlank` — the blanks and comments that a text begins with, and the rest.
* `StackAsm.Source.lexeme` — the token that a text begins with.
* `StackAsm.Source.tokens` — the tokens of a text, each with its location.

## Main results

* `StackAsm.Source.splitBlank_append` — nothing is lost between the two parts.

## Implementation notes

`Source.lexeme` knows nothing of positions: it answers with lengths, and `Source.tokensFrom`
carries the position along. The scan is over the list of characters, each step on a shorter one.
-/

namespace StackAsm

/-- What can be wrong with the text of a token. -/
inductive LexFault where
  /-- No letter follows the mark of a label. -/
  | expectedLabelName
  /-- The name in a label definition is not closed. -/
  | expectedColon
  /-- No digit follows a minus sign. -/
  | expectedDigit
  /-- A number that is no word. -/
  | integerOutOfRange (text : String)
  /-- A word that is no mnemonic. -/
  | unexpectedCommand (word : String)
  /-- A character that begins no token. -/
  | unexpectedCharacter (c : Char)
  deriving DecidableEq, Repr

/-- The wording of a fault. -/
def LexFault.message : LexFault → String
  | expectedLabelName => "expected a label name"
  | expectedColon => "expected ':'"
  | expectedDigit => "expected a digit (0-9)"
  | integerOutOfRange text => "integer literal out of range: " ++ text
  | unexpectedCommand word => "unexpected command '" ++ word ++ "'"
  | unexpectedCharacter c => "unexpected character '" ++ String.singleton c ++ "'"

/-- A fault in source text and where it is. -/
structure LexError where
  /-- What is wrong. -/
  fault : LexFault
  /-- Where it is. -/
  location : Location
  deriving DecidableEq, Repr

/-- The message of an error in source text. -/
def LexError.message (e : LexError) : String := e.fault.message ++ " in " ++ e.location.text

namespace Source

/-! ## Blanks and comments -/

/-- The characters that separate tokens. -/
def isBlank (c : Char) : Bool := c = ' ' || c = '\t' || c = '\r' || c = '\n'

/-- Splits a text behind the blanks and comments that it begins with; `inComment` tells whether it
begins within a comment. -/
def splitBlank (inComment : Bool) : List Char → List Char × List Char
  | [] => ([], [])
  | c :: cs =>
    if inComment then
      let (blank, rest) := splitBlank (c ≠ '\n') cs
      (c :: blank, rest)
    else if isBlank c || c = '#' then
      let (blank, rest) := splitBlank (c = '#') cs
      (c :: blank, rest)
    else ([], c :: cs)

/-- The blank space a text starts with and what follows it are the text. -/
theorem splitBlank_append (inComment : Bool) (cs : List Char) :
    (splitBlank inComment cs).1 ++ (splitBlank inComment cs).2 = cs := by
  induction cs generalizing inComment with
  | nil => rfl
  | cons c cs ih =>
    unfold splitBlank
    split
    · simp [ih]
    · split <;> simp [ih]

/-- What follows the first character after the blank space is shorter than the text. -/
theorem length_lt_of_splitBlank {inComment : Bool} {cs blank rest : List Char} {c : Char}
    (h : splitBlank inComment cs = (blank, c :: rest)) : rest.length < cs.length := by
  have whole := congrArg List.length (splitBlank_append inComment cs)
  rw [h, List.length_append, List.length_cons] at whole
  omega

/-! ## Tokens -/

/-- The token of a number: it must be a word. -/
def number (negative : Bool) (digits : List Char) : Except LexFault Token :=
  match Word.ofInt? (Decimal.value negative digits) with
  | some n => .ok (.instr (.push n))
  | none =>
    .error (.integerOutOfRange (String.ofList (if negative then '-' :: digits else digits)))

/-- The token of a word: it must be a mnemonic. -/
def command (word : List Char) : Except LexFault Token :=
  match Opcode.ofMnemonic? (String.ofList word) with
  | some op => .ok (.instr (.op op))
  | none => .error (.unexpectedCommand (String.ofList word))

/-- The token that begins with the character `c` and goes on in `cs`, with the number of characters
that it takes from `cs`. A fault comes with the number of characters, `c` included, before the place
where it is. -/
def lexeme (c : Char) (cs : List Char) : Except (LexFault × Nat) (Token × Nat) :=
  if c = ':' then
    let name := cs.takeWhile Char.isAlpha
    if name = [] then .error (.expectedLabelName, 1)
    else if cs[name.length]? = some ':' then
      .ok (.define (String.ofList name), name.length + 1)
    else .error (.expectedColon, name.length + 1)
  else if c = '@' then
    let name := cs.takeWhile Char.isAlpha
    if name = [] then .error (.expectedLabelName, 1)
    else .ok (.refer (String.ofList name), name.length)
  else if c = '-' then
    let digits := cs.takeWhile Char.isDigit
    if digits = [] then .error (.expectedDigit, 1)
    else
      match number true digits with
      | .ok token => .ok (token, digits.length)
      | .error fault => .error (fault, 0)
  else if c.isDigit then
    let digits := cs.takeWhile Char.isDigit
    match number false (c :: digits) with
    | .ok token => .ok (token, digits.length)
    | .error fault => .error (fault, 0)
  else if c.isAlpha then
    let letters := cs.takeWhile Char.isAlpha
    match command (c :: letters) with
    | .ok token => .ok (token, letters.length)
    | .error fault => .error (fault, 0)
  else .error (.unexpectedCharacter c, 0)

/-- The tokens of the text `cs`, which stands in `file` from the position `p` on. -/
def tokensFrom (file : String) (p : Position) (cs : List Char) :
    Except LexError (List SourceToken) :=
  match h : splitBlank false cs with
  | (_, []) => .ok []
  | (blank, c :: rest) =>
    have := length_lt_of_splitBlank h
    let here := p.after blank
    match lexeme c rest with
    | .error (fault, n) => .error ⟨fault, (here.after ((c :: rest).take n)).inFile file⟩
    | .ok (token, n) =>
      match tokensFrom file (here.after (c :: rest.take n)) (rest.drop n) with
      | .error e => .error e
      | .ok tokens => .ok (⟨token, here.inFile file⟩ :: tokens)
termination_by cs.length
decreasing_by
  rw [List.length_drop]
  omega

/-- The tokens of a source text, which messages call `file`. -/
def tokens (file text : String) : Except LexError (List SourceToken) :=
  tokensFrom file Position.first text.toList

/-- The tokens of several files, given by name and text, one after the other; of several faults the
first counts. -/
def tokensOfFiles : List (String × String) → Except LexError (List SourceToken)
  | [] => .ok []
  | (file, text) :: files => do
    let these ← tokens file text
    let others ← tokensOfFiles files
    return these ++ others

end Source

end StackAsm
