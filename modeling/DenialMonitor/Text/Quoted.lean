import DenialMonitor.Text.Unprintable

set_option autoImplicit false

/-!
# Quoted texts

In messages a text stands between quotation marks. Quotation marks and backslashes in it are
escaped, and characters that leave no mark of their own are shown by their codes, so that the
message tells every text from every other one.

## Main definitions

* `Quoted.text` — a text between quotation marks.
* `Quoted.list` — a list of texts in brackets.
-/

namespace DenialMonitor.Quoted

/-- The code of a character, in lower-case hexadecimal digits. -/
def code (c : Char) : List Char :=
  ['\\', 'u', Char.ofNat 0x7B] ++ Nat.toDigits 16 c.toNat ++ [Char.ofNat 0x7D]

/-- A character between quotation marks. -/
def char (c : Char) : List Char :=
  if c.toNat = 0 then ['\\', '0']
  else if c = '\t' then ['\\', 't']
  else if c = '\r' then ['\\', 'r']
  else if c = '\n' then ['\\', 'n']
  else if c = '\\' then ['\\', '\\']
  else if c = '"' then ['\\', '"']
  else if Unprintable.contains c then code c
  else [c]

/-- A text between quotation marks. -/
def text (s : String) : String :=
  String.ofList ('"' :: (s.toList.flatMap char ++ ['"']))

/-- A list of texts in brackets. -/
def list (ss : List String) : String :=
  "[" ++ ", ".intercalate (ss.map text) ++ "]"

end DenialMonitor.Quoted
