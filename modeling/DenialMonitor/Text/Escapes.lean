import DenialMonitor.Text.Utf8

set_option autoImplicit false

/-!
# Escape sequences of terminals

Logs are often written for a terminal, with sequences that start with the control character ESC
and set colours or titles. A machine reads the bytes of one line and keeps what a terminal would
print: it drops control characters and every sequence, also one that the end of the line cuts off.

Between sequences the bytes are UTF-8. Each malformed piece is printed as U+FFFD, except that a
byte from 0x80 to 0x9F that starts no character is a control character of its own, and that a
character cut off by the end of the line is dropped.

## Main definitions

* `Escapes.Mode` — the kinds of sequence.
* `Escapes.step` — the machine.
* `Escapes.strip` — what a terminal would print of a line.
-/

namespace DenialMonitor.Escapes

/-- What the machine is in the middle of. -/
inductive Mode where
  /-- Between sequences. -/
  | ground
  /-- After ESC. -/
  | escape
  /-- After the intermediate bytes of an escape sequence. -/
  | escapeIntermediate
  /-- After the start of a control sequence. -/
  | csiEntry
  /-- Among its parameters. -/
  | csiParam
  /-- Among its intermediate bytes. -/
  | csiIntermediate
  /-- In a malformed control sequence. -/
  | csiIgnore
  /-- After the start of a device control string. -/
  | dcsEntry
  /-- Among its parameters. -/
  | dcsParam
  /-- Among its intermediate bytes. -/
  | dcsIntermediate
  /-- In a malformed device control string. -/
  | dcsIgnore
  /-- In the data of a device control string. -/
  | dcsPassthrough
  /-- In an operating system command. -/
  | osc
  /-- In any other string, which only ends where a new sequence starts. -/
  | string
  deriving DecidableEq, Repr

/-- The machine between two bytes: the text printed so far, and the mode. -/
structure State where
  text : Utf8.State
  mode : Mode
  deriving DecidableEq, Repr

/-- Whether `b` is a control character where it starts no character. -/
def isStray (b : UInt8) : Bool :=
  0x80 ≤ b && b ≤ 0x9F

/-- Reads the first byte of a character after the pieces `read`. -/
def startText (read : List (Option Char)) (b : UInt8) : Utf8.State :=
  if isStray b then ⟨read, none⟩ else Utf8.start read b

/-- Reads a byte between sequences. -/
def stepText (s : Utf8.State) (b : UInt8) : Utf8.State :=
  match s.opened with
  | none => startText s.read b
  | some o => if o.lower ≤ b ∧ b ≤ o.upper then Utf8.step s b else startText (none :: s.read) b

/-- The text when a sequence starts; a character that is open then is malformed. -/
def closeText (s : Utf8.State) : Utf8.State :=
  match s.opened with
  | none => s
  | some _ => ⟨none :: s.read, none⟩

/-- The mode after a byte that means the same in every sequence: CAN and SUB end the sequence,
ESC starts another one. -/
def anywhere (mode : Mode) (b : UInt8) : Mode :=
  if b = 0x18 ∨ b = 0x1A then .ground else if b = 0x1B then .escape else mode

/-- Whether `b` lies between `lower` and `upper`. -/
def within (lower upper b : UInt8) : Bool :=
  lower ≤ b && b ≤ upper

/-- The mode after a byte inside a sequence. -/
def stepMode (mode : Mode) (b : UInt8) : Mode :=
  match mode with
  | .ground => if b = 0x1B then .escape else .ground
  | .escape =>
    if within 0x20 0x2F b then .escapeIntermediate
    else if b = 0x50 then .dcsEntry
    else if b = 0x58 ∨ b = 0x5E ∨ b = 0x5F then .string
    else if b = 0x5B then .csiEntry
    else if b = 0x5D then .osc
    else if within 0x30 0x7E b then .ground
    else anywhere .escape b
  | .escapeIntermediate =>
    if within 0x30 0x7E b then .ground else anywhere .escapeIntermediate b
  | .csiEntry =>
    if within 0x20 0x2F b then .csiIntermediate
    else if within 0x30 0x3F b then .csiParam
    else if within 0x40 0x7E b then .ground
    else anywhere .csiEntry b
  | .csiParam =>
    if within 0x20 0x2F b then .csiIntermediate
    else if within 0x3C 0x3F b then .csiIgnore
    else if within 0x40 0x7E b then .ground
    else anywhere .csiParam b
  | .csiIntermediate =>
    if within 0x30 0x3F b then .csiIgnore
    else if within 0x40 0x7E b then .ground
    else anywhere .csiIntermediate b
  | .csiIgnore => if within 0x40 0x7E b then .ground else anywhere .csiIgnore b
  | .dcsEntry =>
    if within 0x20 0x2F b then .dcsIntermediate
    else if within 0x30 0x3F b then .dcsParam
    else if within 0x40 0x7E b then .dcsPassthrough
    else anywhere .dcsEntry b
  | .dcsParam =>
    if within 0x20 0x2F b then .dcsIntermediate
    else if within 0x3C 0x3F b then .dcsIgnore
    else if within 0x40 0x7E b then .dcsPassthrough
    else anywhere .dcsParam b
  | .dcsIntermediate =>
    if within 0x30 0x3F b then .dcsIgnore
    else if within 0x40 0x7E b then .dcsPassthrough
    else anywhere .dcsIntermediate b
  | .dcsIgnore => anywhere .dcsIgnore b
  | .dcsPassthrough => if b = 0x9C then .ground else anywhere .dcsPassthrough b
  | .osc => if b = 0x07 then .ground else anywhere .osc b
  | .string => anywhere .string b

/-- Reads one byte. -/
def step (s : State) (b : UInt8) : State :=
  if s.mode = .ground then
    if b = 0x1B then ⟨closeText s.text, .escape⟩ else ⟨stepText s.text b, .ground⟩
  else ⟨s.text, stepMode s.mode b⟩

/-- Whether `c` is a control character that a terminal does not print. -/
def isControl (c : Char) : Bool :=
  c.toNat < 0x20 || (0x80 ≤ c.toNat && c.toNat ≤ 0x9F)

/-- What a terminal would print of the line `bytes`. -/
def strip (bytes : List UInt8) : List Char :=
  ((bytes.foldl step ⟨⟨[], none⟩, .ground⟩).text.read.reverse.map (·.getD '\uFFFD')).filter
    (!isControl ·)

end DenialMonitor.Escapes
