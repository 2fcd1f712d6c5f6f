set_option autoImplicit false

/-!
# TOML documents of plain keys

The configuration file is a TOML document whose top level gives texts, integers and lists of texts
to plain keys. Nothing else of TOML can stand in it: a table, a dotted key or a value of another
type is as wrong as a malformed text. The document is read by a machine, one character at a time.

## Main definitions

* `Toml.Value` — the value of a key.
* `Toml.integer?` — the integer that an unquoted text denotes.
* `Toml.step` — the machine.
* `Toml.parse?` — the keys of a document with their values.
-/

namespace DenialMonitor.Toml

/-- The value of a key. -/
inductive Value where
  | text (s : String)
  | integer (n : Int)
  | texts (ss : List String)
  deriving DecidableEq, Repr

/-! ## Integers -/

/-- The value of a digit, of bases up to sixteen. -/
def digit? (base : Nat) (c : Char) : Option Nat :=
  let n := c.toNat
  let value :=
    if 0x30 ≤ n ∧ n ≤ 0x39 then n - 0x30
    else if 0x41 ≤ n ∧ n ≤ 0x46 then n - 0x37
    else if 0x61 ≤ n ∧ n ≤ 0x66 then n - 0x57
    else base
  if value < base then some value else none

/-- The number that digits denote after `acc`. An underscore may stand between two digits. -/
def digits? (base acc : Nat) : List Char → Option Nat
  | [] => some acc
  | '_' :: c :: cs => do digits? base (base * acc + (← digit? base c)) cs
  | c :: cs => do digits? base (base * acc + (← digit? base c)) cs

/-- The number that a text of at least one digit denotes. -/
def number? (base : Nat) : List Char → Option Nat
  | [] => none
  | c :: cs => do digits? base (← digit? base c) cs

/-- The number that a decimal text without needless zeros denotes. -/
def decimal? : List Char → Option Nat
  | ['0'] => some 0
  | '0' :: _ => none
  | cs => number? 10 cs

/-- The integer that an unquoted text denotes, if it is one of 64 bits, with a sign or without.
Only decimal integers may carry a sign. -/
def integer? (cs : List Char) : Option Int :=
  let value : Option Int :=
    match cs with
    | '+' :: cs => (decimal? cs).map Int.ofNat
    | '-' :: cs => (decimal? cs).map fun n => -(Int.ofNat n)
    | '0' :: 'x' :: cs => (number? 16 cs).map Int.ofNat
    | '0' :: 'o' :: cs => (number? 8 cs).map Int.ofNat
    | '0' :: 'b' :: cs => (number? 2 cs).map Int.ofNat
    | cs => (decimal? cs).map Int.ofNat
  value.filter fun n => Int64.minValue.toInt ≤ n && n < Int.ofNat UInt64.size

/-! ## The machine -/

/-- What a quoted text is for. The items of a list are kept latest first. -/
inductive Slot where
  | key
  | value (key : String)
  | item (key : String) (items : List String)
  deriving DecidableEq, Repr

/-- Whether a quoted text knows escapes. -/
inductive Style where
  | basic
  | literal
  deriving DecidableEq, Repr

/-- The quotation mark of a style. -/
def Style.mark : Style → Char
  | .basic => '"'
  | .literal => '\''

/-- A quoted text that is being read. -/
structure Quoted where
  slot : Slot
  style : Style
  /-- Whether it stands between triple quotation marks. -/
  multiline : Bool
  /-- Latest first. -/
  chars : List Char
  /-- Whether a line end would be the first thing in it, which does not count. -/
  fresh : Bool
  /-- How many quotation marks have been read in a row. -/
  marks : Nat
  deriving DecidableEq, Repr

/-- Where blanks, comments and line ends may stand. -/
inductive Gap where
  /-- Between entries. -/
  | line
  /-- Behind the value of an entry. -/
  | ended
  /-- In a list where an item may come. -/
  | item (key : String) (items : List String)
  /-- Behind an item of a list. -/
  | comma (key : String) (items : List String)
  deriving DecidableEq, Repr

/-- What the machine is in the middle of. -/
inductive Mode where
  | gap (g : Gap)
  | comment (g : Gap)
  /-- After a carriage return, which a line feed must follow. -/
  | carriage (g : Gap)
  | bareKey (chars : List Char)
  | equals (key : String)
  | value (key : String)
  | bareValue (key : String) (chars : List Char)
  /-- After one quotation mark, or after two. -/
  | opening (slot : Slot) (style : Style) (second : Bool)
  | quoted (q : Quoted)
  /-- After a carriage return in a quoted text. -/
  | quotedCarriage (q : Quoted)
  | escape (q : Quoted)
  /-- Among the digits of a character code of which `missing + 1` are to come. -/
  | code (q : Quoted) (value missing : Nat)
  /-- After a backslash at the end of a line. Blanks and line ends are skipped; a line end must be
  among them. -/
  | skip (q : Quoted) (sawLineEnd : Bool)
  /-- The same after a carriage return. -/
  | skipCarriage (q : Quoted)
  deriving DecidableEq, Repr

/-- The machine between two characters: the entries read, latest first, and the mode. -/
structure State where
  entries : List (String × Value)
  mode : Mode
  deriving DecidableEq, Repr

/-- Whether `c` is a space or a tab. -/
def isSpace (c : Char) : Bool :=
  c = ' ' || c = '\t'

/-- Whether `c` may stand in a comment or a quoted text. -/
def isPlain (c : Char) : Bool :=
  c = '\t' || (0x20 ≤ c.toNat && c.toNat ≠ 0x7F)

/-- Whether `c` may stand in an unquoted key. -/
def isBareKey (c : Char) : Bool :=
  c.isAlphanum || c = '_' || c = '-'

/-- The text of characters kept latest first. -/
def textOf (chars : List Char) : String :=
  String.ofList chars.reverse

/-- The gap on the next line. -/
def Gap.nextLine : Gap → Gap
  | .ended => .line
  | g => g

/-- The machine after the quoted text `q`, of which `extra` quotation marks count as part. -/
def finishQuoted (entries : List (String × Value)) (q : Quoted) (extra : Nat) : State :=
  let s := textOf (List.replicate extra q.style.mark ++ q.chars)
  match q.slot with
  | .key => ⟨entries, .equals s⟩
  | .value key => ⟨(key, .text s) :: entries, .gap .ended⟩
  | .item key items => ⟨entries, .gap (.comma key (s :: items))⟩

/-- Opens a quoted text at a quotation mark. -/
def openQuoted? (slot : Slot) (c : Char) : Option Mode :=
  if c = '"' then some (.opening slot .basic false)
  else if c = '\'' then some (.opening slot .literal false)
  else none

/-- Reads a character that is no blank, comment or line end in a gap. -/
def stepContent (entries : List (String × Value)) (g : Gap) (c : Char) : Option State :=
  match g with
  | .line =>
    if isBareKey c then some ⟨entries, .bareKey [c]⟩
    else (openQuoted? .key c).map (⟨entries, ·⟩)
  | .ended => none
  | .item key items =>
    if c = ']' then some ⟨(key, .texts items.reverse) :: entries, .gap .ended⟩
    else (openQuoted? (.item key items) c).map (⟨entries, ·⟩)
  | .comma key items =>
    if c = ']' then some ⟨(key, .texts items.reverse) :: entries, .gap .ended⟩
    else if c = ',' then some ⟨entries, .gap (.item key items)⟩
    else none

/-- Reads a character in a gap. -/
def stepGap (entries : List (String × Value)) (g : Gap) (c : Char) : Option State :=
  if isSpace c then some ⟨entries, .gap g⟩
  else if c = '\n' then some ⟨entries, .gap g.nextLine⟩
  else if c = '\r' then some ⟨entries, .carriage g⟩
  else if c = '#' then some ⟨entries, .comment g⟩
  else stepContent entries g c

/-- Reads a character between a key and its value. -/
def stepEquals (entries : List (String × Value)) (key : String) (c : Char) : Option State :=
  if isSpace c then some ⟨entries, .equals key⟩
  else if c = '=' then some ⟨entries, .value key⟩
  else none

/-- Reads a character behind a quoted text. -/
def stepBehind (s : State) (c : Char) : Option State :=
  match s.mode with
  | .equals key => stepEquals s.entries key c
  | .gap g => stepGap s.entries g c
  | _ => none

/-- Reads a character of a quoted text other than a quotation mark. -/
def stepPlain (entries : List (String × Value)) (q : Quoted) (c : Char) : Option State :=
  let q := { q with
    chars := List.replicate q.marks q.style.mark ++ q.chars
    fresh := q.fresh && q.marks == 0
    marks := 0 }
  if c = '\\' ∧ q.style = .basic then some ⟨entries, .escape { q with fresh := false }⟩
  else if c = '\n' ∧ q.multiline then
    let chars := if q.fresh then q.chars else c :: q.chars
    some ⟨entries, .quoted { q with chars, fresh := false }⟩
  else if c = '\r' ∧ q.multiline then some ⟨entries, .quotedCarriage q⟩
  else if isPlain c then
    some ⟨entries, .quoted { q with chars := c :: q.chars, fresh := false }⟩
  else none

/-- Reads a character of a quoted text. Three quotation marks in a row end a text between triple
ones, and up to two more in front of them are part of it. -/
def stepQuoted (entries : List (String × Value)) (q : Quoted) (c : Char) : Option State :=
  if c = q.style.mark then
    if !q.multiline then some (finishQuoted entries q 0)
    else if q.marks = 4 then some (finishQuoted entries q 2)
    else some ⟨entries, .quoted { q with marks := q.marks + 1 }⟩
  else if 3 ≤ q.marks then stepBehind (finishQuoted entries q (q.marks - 3)) c
  else stepPlain entries q c

/-- The character that a two-letter escape with second letter `c` stands for. -/
def escaped? (c : Char) : Option Char :=
  if c = '"' ∨ c = '\\' then some c
  else if c = 'b' then some (Char.ofNat 0x08)
  else if c = 't' then some '\t'
  else if c = 'n' then some '\n'
  else if c = 'f' then some (Char.ofNat 0x0C)
  else if c = 'r' then some '\r'
  else if c = 'e' then some (Char.ofNat 0x1B)
  else none

/-- Reads the character after a backslash. -/
def stepEscape (entries : List (String × Value)) (q : Quoted) (c : Char) : Option State :=
  if c = 'x' then some ⟨entries, .code q 0 1⟩
  else if c = 'u' then some ⟨entries, .code q 0 3⟩
  else if c = 'U' then some ⟨entries, .code q 0 7⟩
  else if q.multiline ∧ isSpace c then some ⟨entries, .skip q false⟩
  else if q.multiline ∧ c = '\n' then some ⟨entries, .skip q true⟩
  else if q.multiline ∧ c = '\r' then some ⟨entries, .skipCarriage q⟩
  else (escaped? c).map fun e => ⟨entries, .quoted { q with chars := e :: q.chars }⟩

/-- Reads a digit of a character code. -/
def stepCode (entries : List (String × Value)) (q : Quoted) (value missing : Nat) (c : Char) :
    Option State := do
  let value := 16 * value + (← digit? 16 c)
  match missing with
  | n + 1 => some ⟨entries, .code q value n⟩
  | 0 =>
    if value.isValidChar then
      some ⟨entries, .quoted { q with chars := Char.ofNat value :: q.chars }⟩
    else none

/-- Reads the first character after one quotation mark, or after two. -/
def stepOpening (entries : List (String × Value)) (slot : Slot) (style : Style) (second : Bool)
    (c : Char) : Option State :=
  let q : Quoted := ⟨slot, style, false, [], false, 0⟩
  if c = style.mark then
    if !second then some ⟨entries, .opening slot style true⟩
    else if slot = .key then none
    else some ⟨entries, .quoted { q with multiline := true, fresh := true }⟩
  else if second then stepBehind (finishQuoted entries q 0) c
  else stepQuoted entries q c

/-- Reads one character, or `none` if the document cannot go on with it. -/
def step (s : State) (c : Char) : Option State :=
  let entries := s.entries
  match s.mode with
  | .gap g => stepGap entries g c
  | .comment g =>
    if c = '\n' then some ⟨entries, .gap g.nextLine⟩
    else if c = '\r' then some ⟨entries, .carriage g⟩
    else if isPlain c then some s
    else none
  | .carriage g => if c = '\n' then some ⟨entries, .gap g.nextLine⟩ else none
  | .bareKey cs =>
    if isBareKey c then some ⟨entries, .bareKey (c :: cs)⟩
    else stepEquals entries (textOf cs) c
  | .equals key => stepEquals entries key c
  | .value key =>
    if isSpace c then some s
    else if c = '[' then some ⟨entries, .gap (.item key [])⟩
    else
      match openQuoted? (.value key) c with
      | some mode => some ⟨entries, mode⟩
      | none =>
        if c = '\n' ∨ c = '\r' ∨ c = '#' then none else some ⟨entries, .bareValue key [c]⟩
  | .bareValue key cs =>
    if isSpace c ∨ c = '\n' ∨ c = '\r' ∨ c = '#' then do
      let n ← integer? cs.reverse
      stepGap ((key, .integer n) :: entries) .ended c
    else some ⟨entries, .bareValue key (c :: cs)⟩
  | .opening slot style second => stepOpening entries slot style second c
  | .quoted q => stepQuoted entries q c
  | .quotedCarriage q =>
    if c = '\n' then
      some ⟨entries, .quoted { q with
        chars := if q.fresh then q.chars else '\n' :: '\r' :: q.chars, fresh := false }⟩
    else none
  | .escape q => stepEscape entries q c
  | .code q value missing => stepCode entries q value missing c
  | .skip q sawLineEnd =>
    if isSpace c then some s
    else if c = '\n' then some ⟨entries, .skip q true⟩
    else if c = '\r' then some ⟨entries, .skipCarriage q⟩
    else if sawLineEnd then stepQuoted entries q c
    else none
  | .skipCarriage q => if c = '\n' then some ⟨entries, .skip q true⟩ else none

/-- The entries in order, if the document may end here. -/
def State.finish (s : State) : Option (List (String × Value)) :=
  match s.mode with
  | .gap .line | .gap .ended | .comment .line | .comment .ended => some s.entries.reverse
  | .bareValue key cs => (integer? cs.reverse).map fun n => ((key, .integer n) :: s.entries).reverse
  | .opening (.value key) _ true => some ((key, .text "") :: s.entries).reverse
  | .quoted q =>
    match q.slot with
    | .value _ => if 3 ≤ q.marks then some (finishQuoted s.entries q (q.marks - 3)).entries.reverse
        else none
    | _ => none
  | _ => none

/-- The keys of a document with their values, in the order of the document, or `none` if it is not
a document of plain keys. A byte order mark may stand in front. -/
def parse? (cs : List Char) : Option (List (String × Value)) :=
  let cs := match cs with
    | '\uFEFF' :: cs => cs
    | cs => cs
  (cs.foldlM step ⟨[], .gap .line⟩).bind State.finish

end DenialMonitor.Toml
