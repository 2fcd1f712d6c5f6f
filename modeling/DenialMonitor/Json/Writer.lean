import DenialMonitor.Json.Tree

set_option autoImplicit false

/-!
# Writing JSON

A document has two texts: a compact one without spaces, and a pretty one with a member or item on
each line, indented by two spaces per level. Both escape quotation marks, backslashes and control
characters, and nothing else.

## Main definitions

* `Json.write` — the characters of a document in a layout.
* `Json.compact`, `Json.pretty` — its two texts.
-/

namespace DenialMonitor.Json

/-- How a document is laid out. -/
inductive Layout where
  | compact
  | pretty
  deriving DecidableEq, Repr

/-- What stands before an item or a closing bracket at nesting `level`. -/
def Layout.gap : Layout → Nat → List Char
  | .compact, _ => []
  | .pretty, level => '\n' :: List.replicate (2 * level) ' '

/-- What stands between a key and its value. -/
def Layout.colon : Layout → List Char
  | .compact => [':']
  | .pretty => [':', ' ']

/-- The hexadecimal digit with value `n`, in lower case. -/
def hexDigit (n : Nat) : Char :=
  if n < 10 then Char.ofNat (0x30 + n) else Char.ofNat (0x57 + n)

/-- A character inside a string. -/
def escapeChar (c : Char) : List Char :=
  if c = '"' then ['\\', '"']
  else if c = '\\' then ['\\', '\\']
  else if c = '\n' then ['\\', 'n']
  else if c = '\r' then ['\\', 'r']
  else if c = '\t' then ['\\', 't']
  else if c.toNat = 8 then ['\\', 'b']
  else if c.toNat = 12 then ['\\', 'f']
  else if c.toNat < 32 then
    ['\\', 'u', '0', '0', hexDigit (c.toNat / 16), hexDigit (c.toNat % 16)]
  else [c]

/-- A string between its quotation marks. -/
def writeString (s : String) : List Char :=
  '"' :: (s.toList.flatMap escapeChar ++ ['"'])

mutual

/-- The characters of a document at nesting `level`. -/
def write (layout : Layout) (level : Nat) : Json → List Char
  | .null => ['n', 'u', 'l', 'l']
  | .bool true => ['t', 'r', 'u', 'e']
  | .bool false => ['f', 'a', 'l', 's', 'e']
  | .number n => n.toChars
  | .string s => writeString s
  | .array [] => ['[', ']']
  | .array (v :: vs) =>
    '[' :: (layout.gap (level + 1) ++ write layout (level + 1) v ++
      (writeItems layout (level + 1) vs ++ (layout.gap level ++ [']'])))
  | .object [] => [Char.ofNat 0x7B, Char.ofNat 0x7D]
  | .object ((k, v) :: ms) =>
    Char.ofNat 0x7B :: (layout.gap (level + 1) ++ writeString k ++ layout.colon ++
      write layout (level + 1) v ++
      (writeMembers layout (level + 1) ms ++ (layout.gap level ++ [Char.ofNat 0x7D])))

/-- The further items of an array at nesting `level`, each after a comma. -/
def writeItems (layout : Layout) (level : Nat) : List Json → List Char
  | [] => []
  | v :: vs =>
    ',' :: (layout.gap level ++ write layout level v ++ writeItems layout level vs)

/-- The further members of an object at nesting `level`, each after a comma. -/
def writeMembers (layout : Layout) (level : Nat) : Members String Number → List Char
  | [] => []
  | (k, v) :: ms =>
    ',' :: (layout.gap level ++ writeString k ++ layout.colon ++ write layout level v ++
      writeMembers layout level ms)

end

/-- The text of a document on one line. -/
def compact (v : Json) : String :=
  String.ofList (write .compact 0 v)

/-- The text of a document with an item or member on each line. -/
def pretty (v : Json) : String :=
  String.ofList (write .pretty 0 v)

/-- A text as a document. -/
def ofString (s : String) : Json :=
  .string s

/-- A list of texts as a document. -/
def ofStrings (ss : List String) : Json :=
  .array (ss.map .string)

/-- An integer as a document. -/
def ofInt (n : Int) : Json :=
  .number (.integer n)

/-- A text, or null in its absence, as a document. -/
def ofString? : Option String → Json
  | some s => .string s
  | none => .null

end DenialMonitor.Json
