import DenialMonitor.Denial.Stats
import DenialMonitor.Denial.Codec
import DenialMonitor.LastDenial
import DenialMonitor.LogLine
import DenialMonitor.Policy.Codec

set_option autoImplicit false

/-!
# Snapshots

A snapshot is everything that the monitor shows at one moment.

## Main definitions

* `Outcome` — the result of something the user asked for.
* `Snapshot` — what is shown.
* `Snapshot.same` — equality of snapshots, disregarding the order of unknown policy members.
* `Snapshot.toJson` — a snapshot as a document.
-/

namespace DenialMonitor

/-- How many lines of the daemon's log are kept. -/
def maxLogLines : Nat := 200

/-- The result of something the user asked for. -/
structure Outcome where
  success : Bool
  message : String
  deriving DecidableEq, Repr

namespace Outcome

/-- Something succeeded. -/
def succeeded (message : String) : Outcome :=
  ⟨true, message⟩

/-- Something failed. -/
def failed (message : String) : Outcome :=
  ⟨false, message⟩

end Outcome

/-- What the monitor shows. -/
structure Snapshot where
  /-- Newest first. -/
  records : List DenialRecord
  agentStats : List AgentStats
  policy : SecurityPolicy
  lastDenial : String
  /-- The newest lines of the daemon's log, oldest first. -/
  logTail : List LogLine
  /-- How many lines have been received since the start. -/
  logLinesReceived : Nat
  daemonRunning : Bool
  /-- Whether the newest record has not been acknowledged. -/
  unacknowledged : Bool
  outcome : Option Outcome
  deriving Repr

namespace Snapshot

/-- What is shown before anything has been loaded. -/
def initial : Snapshot :=
  { records := [], agentStats := [], policy := .empty, lastDenial := noRecentDenial
    logTail := [], logLinesReceived := 0, daemonRunning := false, unacknowledged := false
    outcome := none }

/-- Whether two snapshots show the same. -/
def same (a b : Snapshot) : Bool :=
  a.records == b.records && a.agentStats == b.agentStats && a.policy.same b.policy &&
    a.lastDenial == b.lastDenial && a.logTail == b.logTail &&
    a.logLinesReceived == b.logLinesReceived && a.daemonRunning == b.daemonRunning &&
    a.unacknowledged == b.unacknowledged && a.outcome == b.outcome

end Snapshot

/-- The counts of an agent as a document. -/
def AgentStats.toJson (s : AgentStats) : Json :=
  .object [("agent_name", .string s.agentName), ("delete_count", Json.ofInt s.deleteCount),
    ("move_count", Json.ofInt s.moveCount)]

/-- A log line as a document. -/
def LogLine.toJson (l : LogLine) : Json :=
  .object [("text", .string l.text), ("is_error", .bool l.isError)]

/-- An outcome as a document. -/
def Outcome.toJson (o : Outcome) : Json :=
  .object [("success", .bool o.success), ("message", .string o.message)]

/-- A snapshot as a document. -/
def Snapshot.toJson (s : Snapshot) : Json :=
  .object [("records", .array (s.records.map DenialRecord.toJson)),
    ("agent_stats", .array (s.agentStats.map AgentStats.toJson)),
    ("policy", s.policy.toJson),
    ("last_denial", .string s.lastDenial),
    ("log_tail", .array (s.logTail.map LogLine.toJson)),
    ("log_lines_received", Json.ofInt s.logLinesReceived),
    ("daemon_running", .bool s.daemonRunning),
    ("unacknowledged", .bool s.unacknowledged),
    ("outcome", match s.outcome with
      | some o => o.toJson
      | none => .null)]

end DenialMonitor
