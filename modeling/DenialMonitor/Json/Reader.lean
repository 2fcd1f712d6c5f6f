import DenialMonitor.Json.Lexer
import DenialMonitor.Json.Tree
import DenialMonitor.Text.Utf8

set_option autoImplicit false

/-!
# Reading JSON

Tokens are assembled into a tree by a machine with a stack of the arrays and objects that are
open, so a text may nest as deeply as a caller allows. The tree keeps the literals; decoding its
strings and numbers is a second step, which fails where a literal denotes nothing: malformed
UTF-8, a surrogate that is not one of a pair, or a float that overflows.

## Main definitions

* `Reader.step` — the machine.
* `Literals` — a tree of literals.
* `Literals.parse?` — the tree of a text.
* `StringLiteral.value?` — the string that a literal denotes.
* `Literals.value?` — the document of values that a tree denotes.
-/

namespace DenialMonitor

/-- A tree of literals. -/
abbrev Literals := Tree StringLiteral NumberLiteral

namespace Reader

/-- An array or object that is open; what it holds so far is kept latest first. -/
inductive Frame where
  | array (items : List Literals)
  | object (members : Members StringLiteral NumberLiteral)
  /-- An object in which the value of `key` is to come. -/
  | member (members : Members StringLiteral NumberLiteral) (key : StringLiteral)

/-- What may come next. -/
inductive Expect where
  | value
  /-- The first item of an array, or its end. -/
  | itemOrEnd
  /-- The first key of an object, or its end. -/
  | keyOrEnd
  | key
  | colon
  /-- After a value inside an array or object: a comma, or the end. -/
  | commaOrEnd
  /-- After the document. -/
  | nothing
  deriving DecidableEq, Repr

/-- The machine between two tokens. -/
structure State where
  stack : List Frame
  expect : Expect
  /-- The document, once it is complete. -/
  result : Option Literals

/-- Before the first token. -/
def State.init : State :=
  ⟨[], .value, none⟩

/-- Puts a complete value into the innermost open array or object. -/
def complete (stack : List Frame) (v : Literals) : State :=
  match stack with
  | .array items :: rest => ⟨.array (v :: items) :: rest, .commaOrEnd, none⟩
  | .member members key :: rest => ⟨.object ((key, v) :: members) :: rest, .commaOrEnd, none⟩
  | _ => ⟨stack, .nothing, some v⟩

/-- Opens an array or object unless `limit` of them are open. -/
def enter (limit : Option Nat) (stack : List Frame) (frame : Frame) (expect : Expect) :
    Option State :=
  match limit with
  | none => some ⟨frame :: stack, expect, none⟩
  | some n => if stack.length < n then some ⟨frame :: stack, expect, none⟩ else none

/-- Reads the first token of a value. -/
def startValue (limit : Option Nat) (stack : List Frame) : Token → Option State
  | .openArray => enter limit stack (.array []) .itemOrEnd
  | .openObject => enter limit stack (.object []) .keyOrEnd
  | .null => some (complete stack .null)
  | .bool b => some (complete stack (.bool b))
  | .string s => some (complete stack (.string s))
  | .number n => some (complete stack (.number n))
  | _ => none

/-- Reads one token, or `none` if it cannot come here. -/
def step (limit : Option Nat) (s : State) (t : Token) : Option State :=
  match s.expect, s.stack, t with
  | .value, stack, t => startValue limit stack t
  | .itemOrEnd, .array items :: rest, .closeArray => some (complete rest (.array items.reverse))
  | .itemOrEnd, stack, t => startValue limit stack t
  | .keyOrEnd, .object members :: rest, .closeObject =>
    some (complete rest (.object members.reverse))
  | .keyOrEnd, .object members :: rest, .string key =>
    some ⟨.member members key :: rest, .colon, none⟩
  | .key, .object members :: rest, .string key => some ⟨.member members key :: rest, .colon, none⟩
  | .colon, stack, .colon => some ⟨stack, .value, none⟩
  | .commaOrEnd, .array items :: rest, .comma => some ⟨.array items :: rest, .value, none⟩
  | .commaOrEnd, .array items :: rest, .closeArray => some (complete rest (.array items.reverse))
  | .commaOrEnd, .object members :: rest, .comma => some ⟨.object members :: rest, .key, none⟩
  | .commaOrEnd, .object members :: rest, .closeObject =>
    some (complete rest (.object members.reverse))
  | _, _, _ => none

end Reader

namespace StringLiteral

/-- Whether `u` is the first unit of a surrogate pair. -/
def isHigh (u : Nat) : Bool :=
  0xD800 ≤ u && u < 0xDC00

/-- Whether `u` is the second unit of a surrogate pair. -/
def isLow (u : Nat) : Bool :=
  0xDC00 ≤ u && u < 0xE000

/-- The bytes decoded so far, latest first, and the first unit of a pair that is open. -/
structure Decoder where
  bytes : List UInt8
  high : Option Nat

/-- Appends the character with scalar value `n`. -/
def Decoder.push (bytes : List UInt8) (n : Nat) : Decoder :=
  ⟨(String.utf8EncodeChar (Char.ofNat n)).reverse ++ bytes, none⟩

/-- Decodes one piece, or `none` where a surrogate is not one of a pair. -/
def Decoder.step (d : Decoder) (p : Piece) : Option Decoder :=
  match d.high, p with
  | none, .byte b => some ⟨b :: d.bytes, none⟩
  | none, .unit u =>
    if isHigh u then some ⟨d.bytes, some u⟩
    else if isLow u then none
    else some (.push d.bytes u)
  | some _, .byte _ => none
  | some h, .unit u =>
    if isLow u then some (.push d.bytes (0x10000 + (h - 0xD800) * 0x400 + (u - 0xDC00)))
    else none

/-- The bytes that a literal denotes. -/
def bytes? (l : StringLiteral) : Option (List UInt8) := do
  let d ← l.foldlM Decoder.step ⟨[], none⟩
  if d.high.isNone then some d.bytes.reverse else none

/-- The string that a literal denotes, or `none` if it denotes none. -/
def value? (l : StringLiteral) : Option String :=
  (bytes? l).bind Utf8.decode?

end StringLiteral

namespace Literals

/-- The tree that a text spells, with at most `limit` arrays and objects inside each other. -/
def parse? (limit : Option Nat) (text : List UInt8) : Option Literals := do
  let ts ← tokens? text
  let s ← ts.foldlM (Reader.step limit) Reader.State.init
  s.result

mutual

/-- The document that a tree of literals denotes, or `none` if a literal denotes nothing. Of the
members of an object with the same key the first gives the place and the last the value. -/
def value? : Literals → Option Json
  | .null => some .null
  | .bool b => some (.bool b)
  | .number n => n.value?.map .number
  | .string s => (StringLiteral.value? s).map .string
  | .array items => (valueItems? items).map .array
  | .object members => (valueMembers? [] members).map .object

/-- The documents that the items of an array denote. -/
def valueItems? : List Literals → Option (List Json)
  | [] => some []
  | v :: vs => do
    let v ← value? v
    let vs ← valueItems? vs
    some (v :: vs)

/-- The members that the members of an object denote, after the members `acc`. -/
def valueMembers? (acc : Members String Number) :
    Members StringLiteral NumberLiteral → Option (Members String Number)
  | [] => some acc
  | (k, v) :: ms => do
    let k ← StringLiteral.value? k
    let v ← value? v
    valueMembers? (Members.insert k v acc) ms

end

/-- The members of an object with their keys decoded, or `none` if it is no object or a key
denotes no string. -/
def members? : Literals → Option (List (String × Literals))
  | .object members => members.mapM fun m => (StringLiteral.value? m.1).map (·, m.2)
  | _ => none

end Literals

end DenialMonitor
