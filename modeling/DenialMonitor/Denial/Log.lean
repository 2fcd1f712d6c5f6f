import DenialMonitor.Denial.Codec
import DenialMonitor.Denial.Stats
import DenialMonitor.Text.Blank
import DenialMonitor.Text.Split

set_option autoImplicit false

/-!
# The denial log

The daemon appends one record per line to its denial log. What the monitor shows is the window of
the log's last lines, newest first; it is derived anew from the whole file each time the file
changes. A reload that finds more records than the one before announces the newest of them.

## Main definitions

* `DenialLog.window` — the newest records of a file.
* `DenialLog` — the window of the last reload, with the counts per agent.
* `DenialLog.reload` — derives the window anew and tells of an arrival.
-/

namespace DenialMonitor

/-- How many lines of the log the window covers. -/
def maxRecords : Nat := 200

/-- The window of the denial log as the last reload left it. -/
structure DenialLog where
  /-- Newest first. -/
  records : List DenialRecord
  stats : List AgentStats
  /-- The size of the window at the last reload that could read the file; none before that. -/
  known : Option Nat
  deriving DecidableEq, Repr

namespace DenialLog

/-- Before the first reload. -/
def empty : DenialLog :=
  ⟨[], [], none⟩

/-- The lines of a text that hold something, newest first. -/
def entries (cs : List Char) : List (List Char) :=
  ((Split.lines cs).filter (!Text.allBlank ·)).reverse

/-- The records among the last `maxRecords` lines of a text that hold something, newest first.
Lines that are no records are skipped; they count all the same. -/
def windowOfChars (cs : List Char) : List DenialRecord :=
  ((entries cs).take maxRecords).filterMap fun line => DenialRecord.parse? (Utf8.encodeChars line)

/-- The window of a file. Malformed UTF-8 is replaced before the file is cut into lines. -/
def window (content : List UInt8) : List DenialRecord :=
  windowOfChars (Utf8.decodeLossyChars content)

/-- Derives the window from the content of the file, `none` if it cannot be read. The newest
record is an arrival when an earlier reload could read the file and found fewer records. -/
def reload (log : DenialLog) (content : Option (List UInt8)) : Option DenialRecord × DenialLog :=
  match content with
  | none => (none, { log with records := [], stats := [] })
  | some bytes =>
    let records := window bytes
    let arrival :=
      match log.known with
      | none => none
      | some n => if n < records.length then records.head? else none
    (arrival, ⟨records, AgentStats.ofRecords records, some records.length⟩)

end DenialLog

end DenialMonitor
