import DenialMonitor.Disk
import DenialMonitor.LogLine
import DenialMonitor.Text.Blank
import DenialMonitor.Text.Escapes
import DenialMonitor.Text.Split

set_option autoImplicit false

/-!
# Reading a growing log

A cursor stands in a log at the end of what has been read. Each poll reads what was written since,
cuts it into lines and holds a line back until its end is written. Where the file was replaced by
another one, or has become shorter than what was read, reading starts again at its beginning.

## Main definitions

* `LogLine.decode?` — the log line that bytes hold.
* `TailCursor.atEnd` — a cursor behind everything that a file holds.
* `TailCursor.poll` — the lines that have been completed since the last poll.
-/

namespace DenialMonitor

/-- The log line that the bytes of a line hold, unless it is blank. -/
def LogLine.decode? (bytes : List UInt8) : Option LogLine :=
  if Text.allBlank (Escapes.strip bytes) then none
  else some (.classify (String.ofList (Escapes.strip bytes)))

/-- A place in a growing log. -/
structure TailCursor where
  path : String
  /-- How much of the file has been read. -/
  offset : Nat
  /-- The file that was read. -/
  identity : FileId
  /-- What has been read of a line whose end has not been written yet. -/
  pending : List UInt8
  deriving DecidableEq, Repr

namespace TailCursor

/-- The byte that ends a line. -/
def lineFeed : UInt8 := 0x0A

/-- The lines that complete bytes hold. -/
def decodeLines (bytes : List UInt8) : List LogLine :=
  (Split.cut lineFeed bytes).1.filterMap LogLine.decode?

/-- A cursor behind everything that the file at `path` holds. -/
def atEnd (d : Disk) (path : String) : Except OsError TailCursor := do
  let e ← d.entry path
  .ok ⟨path, e.size, e.id, []⟩

/-- Takes bytes behind those that are held back: the lines that they complete, and the cursor
with what is held back now. -/
def feed (c : TailCursor) (bytes : List UInt8) : List LogLine × TailCursor :=
  (decodeLines (c.pending ++ bytes),
    { c with
      offset := c.offset + bytes.length
      pending := (Split.cut lineFeed (c.pending ++ bytes)).2 })

/-- The cursor at the beginning of the file `e`. -/
def reset (c : TailCursor) (e : Entry) : TailCursor :=
  { c with offset := 0, identity := e.id, pending := [] }

/-- Whether reading must start again: the entry is another file, or shorter than what was read. -/
def mustReset (c : TailCursor) (e : Entry) : Bool :=
  c.identity ≠ e.id || e.size < c.offset

/-- Reads what was written since the last poll: the lines that it completes, and the cursor behind
it. A missing file has no new lines. -/
def poll (c : TailCursor) (d : Disk) : Except OsError (List LogLine) × TailCursor :=
  match d.entry c.path with
  | .error .notFound => (.ok [], c)
  | .error e => (.error e, c)
  | .ok e =>
    let c := if c.mustReset e then c.reset e else c
    if e.size = c.offset then (.ok [], c)
    else
      match e.node with
      | .directory => (.error .isADirectory, c)
      | .file content =>
        let (lines, c) := c.feed (content.drop c.offset)
        (.ok lines, c)

end TailCursor

end DenialMonitor
