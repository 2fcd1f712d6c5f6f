set_option autoImplicit false

/-!
# UTF-8

Texts are sequences of characters and files are sequences of bytes; this module goes between
them. Decoding runs a machine that reads one byte at a time and knows which bytes may continue
the character that is open. A byte that cannot continue closes the open character as malformed
and is read again as the start of the next one, so each maximal malformed piece counts once.

## Main definitions

* `Utf8.encode` — the bytes of a text.
* `Utf8.scan` — the characters of a byte sequence, with `none` for each malformed piece.
* `Utf8.decode?` — the text of a well-formed byte sequence.
* `Utf8.decodeLossy` — the text with U+FFFD in place of each malformed piece.
-/

namespace DenialMonitor.Utf8

/-- The bytes of the characters `cs`. -/
def encodeChars (cs : List Char) : List UInt8 :=
  cs.flatMap String.utf8EncodeChar

/-- The bytes of the text `s`. -/
def encode (s : String) : List UInt8 :=
  encodeChars s.toList

/-- A character whose first bytes have been read. -/
structure Open where
  /-- The bits of the scalar value read so far. -/
  bits : Nat
  /-- The least byte that may come next. -/
  lower : UInt8
  /-- The greatest byte that may come next. -/
  upper : UInt8
  /-- How many bytes follow the next one. -/
  owed : Nat
  deriving DecidableEq, Repr

/-- The machine between two bytes: the pieces read, latest first, and the open character. -/
structure State where
  read : List (Option Char)
  opened : Option Open
  deriving DecidableEq, Repr

/-- Reads `b` as the first byte of a character after the pieces `read`. The bounds on the second
byte keep out overlong forms, surrogates and values past U+10FFFF. -/
def start (read : List (Option Char)) (b : UInt8) : State :=
  if b < 0x80 then ⟨some (Char.ofNat b.toNat) :: read, none⟩
  else if b < 0xC2 then ⟨none :: read, none⟩
  else if b < 0xE0 then ⟨read, some ⟨b.toNat - 0xC0, 0x80, 0xBF, 0⟩⟩
  else if b < 0xF0 then
    ⟨read, some ⟨b.toNat - 0xE0, if b = 0xE0 then 0xA0 else 0x80,
      if b = 0xED then 0x9F else 0xBF, 1⟩⟩
  else if b < 0xF5 then
    ⟨read, some ⟨b.toNat - 0xF0, if b = 0xF0 then 0x90 else 0x80,
      if b = 0xF4 then 0x8F else 0xBF, 2⟩⟩
  else ⟨none :: read, none⟩

/-- Reads one byte. -/
def step (s : State) (b : UInt8) : State :=
  match s.opened with
  | none => start s.read b
  | some o =>
    if o.lower ≤ b ∧ b ≤ o.upper then
      let bits := o.bits * 64 + (b.toNat - 0x80)
      match o.owed with
      | 0 => ⟨some (Char.ofNat bits) :: s.read, none⟩
      | n + 1 => ⟨s.read, some ⟨bits, 0x80, 0xBF, n⟩⟩
    else start (none :: s.read) b

/-- The pieces in order; a character still open at the end is malformed. -/
def State.pieces (s : State) : List (Option Char) :=
  match s.opened with
  | none => s.read.reverse
  | some _ => (none :: s.read).reverse

/-- The characters of `bytes` in order, with `none` for each maximal malformed piece. -/
def scan (bytes : List UInt8) : List (Option Char) :=
  (bytes.foldl step ⟨[], none⟩).pieces

/-- The characters of `bytes`, or `none` if any piece is malformed. -/
def decodeChars? (bytes : List UInt8) : Option (List Char) :=
  (scan bytes).mapM id

/-- The text that `bytes` spell, or `none` if any piece is malformed. -/
def decode? (bytes : List UInt8) : Option String :=
  (decodeChars? bytes).map String.ofList

/-- The characters of `bytes` with U+FFFD in place of each malformed piece. -/
def decodeLossyChars (bytes : List UInt8) : List Char :=
  (scan bytes).map (·.getD '\uFFFD')

/-- The text of `bytes` with U+FFFD in place of each malformed piece. -/
def decodeLossy (bytes : List UInt8) : String :=
  String.ofList (decodeLossyChars bytes)

end DenialMonitor.Utf8
