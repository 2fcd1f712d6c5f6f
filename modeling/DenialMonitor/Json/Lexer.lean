import DenialMonitor.Json.Number

set_option autoImplicit false

/-!
# JSON tokens

A text is cut into tokens by a machine that reads one byte at a time. Strings and numbers become
literals: their form is checked, what they mean is not. A string literal keeps its bytes and its
four-digit code units apart, so that a reader which needs the string can decode it and one which
does not need it can leave it alone.

## Main definitions

* `Token` — a token.
* `Lexer.step` — the machine.
* `tokens?` — the tokens of a text, or `none` if the text has none.
-/

namespace DenialMonitor

/-- A piece of a string literal. -/
inductive Piece where
  /-- A byte that stands for itself, or the byte that a two-letter escape stands for. -/
  | byte (b : UInt8)
  /-- A code unit written with four hexadecimal digits. -/
  | unit (u : Nat)
  deriving DecidableEq, Repr

/-- What stands between the quotation marks of a string. -/
abbrev StringLiteral := List Piece

/-- A token of a text. -/
inductive Token where
  | openArray
  | closeArray
  | openObject
  | closeObject
  | colon
  | comma
  | null
  | bool (b : Bool)
  | string (s : StringLiteral)
  | number (n : NumberLiteral)
  deriving DecidableEq, Repr

namespace Lexer

/-- How far a number has been read. -/
inductive NumberStage where
  /-- After the minus sign. -/
  | sign
  /-- After a leading zero. -/
  | zero
  /-- Among the whole digits. -/
  | whole
  /-- After the point. -/
  | point
  /-- Among the digits after the point. -/
  | fraction
  /-- After the exponent mark. -/
  | mark
  /-- After the sign of the exponent. -/
  | exponentSign
  /-- Among the digits of the exponent. -/
  | exponent
  deriving DecidableEq, Repr

/-- Whether a number may end at the stage. -/
def NumberStage.complete : NumberStage → Bool
  | .zero | .whole | .fraction | .exponent => true
  | .sign | .point | .mark | .exponentSign => false

/-- What the machine is in the middle of. Pieces and digits are kept latest first. -/
inductive Lexeme where
  | gap
  /-- Inside a word: its next byte, the bytes after that, and the token the word is. -/
  | word (next : UInt8) (rest : List UInt8) (token : Token)
  | string (pieces : List Piece)
  /-- After a backslash. -/
  | escape (pieces : List Piece)
  /-- Among the digits of a code unit of which `missing + 1` are to come. -/
  | unit (pieces : List Piece) (value missing : Nat)
  | number (stage : NumberStage) (literal : NumberLiteral)
  deriving DecidableEq, Repr

/-- The machine between two bytes: the tokens read, latest first, and the open lexeme. -/
structure State where
  read : List Token
  lexeme : Lexeme
  deriving DecidableEq, Repr

/-- The value of a decimal digit. -/
def digit? (b : UInt8) : Option Nat :=
  if 0x30 ≤ b ∧ b ≤ 0x39 then some (b.toNat - 0x30) else none

/-- The value of a hexadecimal digit. -/
def hexDigit? (b : UInt8) : Option Nat :=
  if 0x30 ≤ b ∧ b ≤ 0x39 then some (b.toNat - 0x30)
  else if 0x41 ≤ b ∧ b ≤ 0x46 then some (b.toNat - 0x37)
  else if 0x61 ≤ b ∧ b ≤ 0x66 then some (b.toNat - 0x57)
  else none

/-- The byte that a two-letter escape with second letter `b` stands for. -/
def escaped? (b : UInt8) : Option UInt8 :=
  if b = 0x22 ∨ b = 0x5C ∨ b = 0x2F then some b
  else if b = 0x62 then some 0x08
  else if b = 0x66 then some 0x0C
  else if b = 0x6E then some 0x0A
  else if b = 0x72 then some 0x0D
  else if b = 0x74 then some 0x09
  else none

/-- Whether `b` may stand between tokens. -/
def isSpace (b : UInt8) : Bool :=
  b = 0x20 ∨ b = 0x09 ∨ b = 0x0A ∨ b = 0x0D

/-- A number of which the first byte is the digit `d`. -/
def startNumber (negative : Bool) (d : Nat) : Lexeme :=
  .number (if d = 0 then .zero else .whole) ⟨negative, [d], [], none⟩

/-- Reads the first byte of a token. -/
def startToken (read : List Token) (b : UInt8) : Option State :=
  if isSpace b then some ⟨read, .gap⟩
  else if b = 0x5B then some ⟨.openArray :: read, .gap⟩
  else if b = 0x5D then some ⟨.closeArray :: read, .gap⟩
  else if b = 0x7B then some ⟨.openObject :: read, .gap⟩
  else if b = 0x7D then some ⟨.closeObject :: read, .gap⟩
  else if b = 0x3A then some ⟨.colon :: read, .gap⟩
  else if b = 0x2C then some ⟨.comma :: read, .gap⟩
  else if b = 0x22 then some ⟨read, .string []⟩
  else if b = 0x6E then some ⟨read, .word 0x75 [0x6C, 0x6C] .null⟩
  else if b = 0x74 then some ⟨read, .word 0x72 [0x75, 0x65] (.bool true)⟩
  else if b = 0x66 then some ⟨read, .word 0x61 [0x6C, 0x73, 0x65] (.bool false)⟩
  else if b = 0x2D then some ⟨read, .number .sign ⟨true, [], [], none⟩⟩
  else (digit? b).map fun d => ⟨read, startNumber false d⟩

/-- The literal with its digits in order. -/
def finishNumber (l : NumberLiteral) : Token :=
  .number ⟨l.negative, l.whole.reverse, l.fraction.reverse,
    l.exponent.map fun e => (e.1, e.2.reverse)⟩

/-- The literal with one more digit in its exponent. -/
def pushExponent (l : NumberLiteral) (d : Nat) : NumberLiteral :=
  { l with exponent := l.exponent.map fun e => (e.1, d :: e.2) }

/-- Reads a byte inside a number, or `none` if the byte cannot go on with it. -/
def continueNumber (stage : NumberStage) (l : NumberLiteral) (b : UInt8) : Option Lexeme :=
  let mark := b = 0x65 ∨ b = 0x45
  let openExponent := Lexeme.number .mark { l with exponent := some (false, []) }
  match stage with
  | .sign => (digit? b).map (startNumber l.negative)
  | .zero =>
    if b = 0x2E then some (.number .point l)
    else if mark then some openExponent
    else none
  | .whole =>
    if b = 0x2E then some (.number .point l)
    else if mark then some openExponent
    else (digit? b).map fun d => .number .whole { l with whole := d :: l.whole }
  | .point => (digit? b).map fun d => .number .fraction { l with fraction := [d] }
  | .fraction =>
    if mark then some openExponent
    else (digit? b).map fun d => .number .fraction { l with fraction := d :: l.fraction }
  | .mark =>
    if b = 0x2B then some (.number .exponentSign l)
    else if b = 0x2D then some (.number .exponentSign { l with exponent := some (true, []) })
    else (digit? b).map fun d => .number .exponent (pushExponent l d)
  | .exponentSign => (digit? b).map fun d => .number .exponent (pushExponent l d)
  | .exponent => (digit? b).map fun d => .number .exponent (pushExponent l d)

/-- Reads one byte, or `none` if the text cannot go on with it. A byte that cannot go on with a
complete number ends the number and starts the next token; a digit after a leading zero does
not. -/
def step (s : State) (b : UInt8) : Option State :=
  match s.lexeme with
  | .gap => startToken s.read b
  | .word next rest token =>
    if b ≠ next then none
    else
      match rest with
      | [] => some ⟨token :: s.read, .gap⟩
      | c :: rest => some ⟨s.read, .word c rest token⟩
  | .string pieces =>
    if b = 0x22 then some ⟨.string pieces.reverse :: s.read, .gap⟩
    else if b = 0x5C then some ⟨s.read, .escape pieces⟩
    else if b < 0x20 then none
    else some ⟨s.read, .string (.byte b :: pieces)⟩
  | .escape pieces =>
    if b = 0x75 then some ⟨s.read, .unit pieces 0 3⟩
    else (escaped? b).map fun c => ⟨s.read, .string (.byte c :: pieces)⟩
  | .unit pieces value missing =>
    (hexDigit? b).map fun d =>
      match missing with
      | 0 => ⟨s.read, .string (.unit (16 * value + d) :: pieces)⟩
      | n + 1 => ⟨s.read, .unit pieces (16 * value + d) n⟩
  | .number stage l =>
    match continueNumber stage l b with
    | some lexeme => some ⟨s.read, lexeme⟩
    | none =>
      if stage.complete ∧ (digit? b).isNone then startToken (finishNumber l :: s.read) b
      else none

/-- The tokens in order, if the text may end here. -/
def State.finish (s : State) : Option (List Token) :=
  match s.lexeme with
  | .gap => some s.read.reverse
  | .number stage l => if stage.complete then some (finishNumber l :: s.read).reverse else none
  | _ => none

end Lexer

/-- The tokens of a text, or `none` if it cannot be cut into tokens. -/
def tokens? (text : List UInt8) : Option (List Token) :=
  (text.foldlM Lexer.step ⟨[], .gap⟩).bind Lexer.State.finish

end DenialMonitor
