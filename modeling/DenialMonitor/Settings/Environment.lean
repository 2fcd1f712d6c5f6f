import DenialMonitor.Text.Split
import DenialMonitor.Text.Utf8

set_option autoImplicit false

/-!
# Environments

The operating system sets a variable to any bytes but zero. Whoever asks for the text of a variable
gets none where the bytes are no text, as if the variable were not set.

## Main definitions

* `Environment` — variables and the bytes that they are set to.
* `Environment.bytes?`, `Environment.text?` — the value of a variable.
* `Environment.ofTexts`, `Environment.ofBlock` — environments from texts, and as the operating system
  hands them out.
-/

namespace DenialMonitor

/-- Variables and the bytes that they are set to. A variable has the value that it is given first. -/
structure Environment where
  entries : List (String × List UInt8)
  deriving DecidableEq, Repr

namespace Environment

/-- The bytes that a variable is set to. -/
def bytes? (e : Environment) (name : String) : Option (List UInt8) :=
  (e.entries.find? (·.1 = name)).map (·.2)

/-- The text that a variable is set to. A variable that is set to bytes that are no text counts as
one that is not set. -/
def text? (e : Environment) (name : String) : Option String :=
  (e.bytes? name).bind Utf8.decode?

/-- The environment in which variables are set to texts. -/
def ofTexts (texts : List (String × String)) : Environment :=
  ⟨texts.map fun v => (v.1, Utf8.encode v.2)⟩

/-- Texts may stand for the environment in which variables are set to them. -/
instance : Coe (List (String × String)) Environment := ⟨ofTexts⟩

/-- A variable from its entry, a name and a value with `=` in between. -/
def ofEntry? (entry : List UInt8) : Option (String × List UInt8) :=
  match Split.cut 0x3D entry with
  | (name :: _, _) =>
    (Utf8.decode? name).map fun text => (text, entry.drop (name.length + 1))
  | _ => none

/-- The environment as the operating system hands it out: entries with a zero byte behind each. -/
def ofBlock (block : List UInt8) : Environment :=
  ⟨(Split.cut 0 block).1.filterMap ofEntry?⟩

end Environment

end DenialMonitor
