import DenialMonitor.Snapshot
import DenialMonitor.Text.Quoted

set_option autoImplicit false

/-!
# The journal

Without a display the monitor writes a journal: alerts about denials and expired overrides, and
what changes from one snapshot to the next.

## Main definitions

* `JournalEntry` — a line of the journal.
* `JournalEntry.ofDenial`, `JournalEntry.ofExpiry` — alerts.
* `Snapshot.status` — a summary of a snapshot.
* `Snapshot.newLogLines` — the log lines that arrived between two snapshots.
* `Snapshot.changes` — what changed between two snapshots.
-/

namespace DenialMonitor

/-- How much a line of the journal matters. -/
inductive JournalLevel where
  | info
  | warning
  deriving DecidableEq, Repr

/-- A line of the journal. -/
structure JournalEntry where
  level : JournalLevel
  message : String
  /-- Names and values beside the message. -/
  fields : List (String × String)
  deriving DecidableEq, Repr

namespace JournalEntry

/-- A line that informs. -/
def info (message : String) : JournalEntry :=
  ⟨.info, message, []⟩

/-- A line that warns. -/
def warning (message : String) : JournalEntry :=
  ⟨.warning, message, []⟩

/-- The alert about a denial. -/
def ofDenial (r : DenialRecord) : JournalEntry :=
  ⟨.warning, r.alert, [("zone", r.zone), ("process", r.process)]⟩

/-- The alert about an override that has expired. -/
def ofExpiry (path : String) : JournalEntry :=
  info ("Override expired, " ++ path ++ " is protected again")

end JournalEntry

namespace Snapshot

/-- A summary of a snapshot. -/
def status (s : Snapshot) : JournalEntry :=
  .info (toString s.records.length ++ " denial(s), " ++
    toString s.policy.protectedZones.length ++ " protected zone(s), " ++
    toString s.policy.temporaryOverrides.length ++ " override(s), daemon " ++
    (if s.daemonRunning then "running" else "not running"))

/-- The log lines of `current` that arrived after `previous` was taken, as far as they are kept. -/
def newLogLines (previous current : Snapshot) : List LogLine :=
  current.logTail.drop
    (current.logTail.length - (current.logLinesReceived - previous.logLinesReceived))

/-- The lines of the journal about what changed from `previous` to `current`. -/
def changes (previous current : Snapshot) : List JournalEntry :=
  (if previous.daemonRunning = current.daemonRunning then [] else [current.status]) ++
  (if previous.policy.temporaryOverrides = current.policy.temporaryOverrides then []
    else [.info ("Temporary overrides: " ++ Quoted.list current.policy.temporaryOverrides)]) ++
  (if previous.lastDenial = current.lastDenial then []
    else [.info ("Last denial: " ++ current.lastDenial)]) ++
  ((newLogLines previous current).filter (·.isError)).map fun l =>
    .warning ("daemon: " ++ l.text)

end Snapshot

end DenialMonitor
