import DenialMonitor.Acknowledgement
import DenialMonitor.Denial.Log
import DenialMonitor.LogTail.Tailer
import DenialMonitor.Monitor.Basic
import DenialMonitor.Policy.Store
import DenialMonitor.Timers.Keyed
import DenialMonitor.Watch.Watcher

set_option autoImplicit false

/-!
# The state of the monitor

The engine is what the owning task keeps in memory. Around it are the watches, the reader of the
log, the errands that are being run, and the queues of requests and events. A snapshot is published
when it differs from the one before.

## Main definitions

* `Engine` — what the owning task keeps in memory.
* `Engine.snapshot` — what is to be shown of it.
* `Monitor` — the engine and everything that goes on beside it.
* `Monitor.publish`, `Monitor.tell` — what reaches the outside.
* `Monitor.inFlight` — the requests that have not been answered.
-/

namespace DenialMonitor

/-- What the owning task keeps in memory. -/
structure Engine where
  policy : PolicyStore
  log : DenialLog
  /-- The record that the user has taken note of. -/
  acknowledged : Option RecordId
  lastDenial : String
  /-- The newest lines of the daemon's log, oldest first. -/
  logTail : List LogLine
  logLinesReceived : Nat
  daemonRunning : Bool
  outcome : Option Outcome
  /-- When overrides are taken back. -/
  expiry : KeyedTimers String
  /-- When the outcome is no longer shown. -/
  outcomeTimer : KeyedTimers Unit
  /-- The snapshot that was published last. -/
  published : Snapshot
  deriving Repr

namespace Engine

/-- Before anything is loaded. -/
def initial (paths : MonitorPaths) : Engine :=
  { policy := .new paths.policy
    log := .empty
    acknowledged := none
    lastDenial := ""
    logTail := []
    logLinesReceived := 0
    daemonRunning := false
    outcome := none
    expiry := .empty
    outcomeTimer := .empty
    published := .initial }

/-- Whether there is a newest record of which the user has not taken note. -/
def isUnacknowledged (e : Engine) : Bool :=
  match e.log.records.head? with
  | none => false
  | some newest => e.acknowledged ≠ some newest.id

/-- What is to be shown. -/
def snapshot (e : Engine) : Snapshot :=
  { records := e.log.records
    agentStats := e.log.stats
    policy := e.policy.policy
    lastDenial := e.lastDenial
    logTail := e.logTail
    logLinesReceived := e.logLinesReceived
    daemonRunning := e.daemonRunning
    unacknowledged := e.isUnacknowledged
    outcome := e.outcome }

/-- Adds lines behind the tail of the log and keeps the newest ones. -/
def receive (e : Engine) (lines : List LogLine) : Engine :=
  let tail := e.logTail ++ lines
  { e with
    logTail := tail.drop (tail.length - maxLogLines)
    logLinesReceived := e.logLinesReceived + lines.length }

end Engine

/-- The engine and everything that goes on beside it. -/
structure Monitor where
  settings : Settings
  around : Surroundings
  engine : Engine
  watcher : Watcher Source
  tailer : LogTailer
  errands : List Errand
  /-- The requests that have not been handled, oldest first. -/
  requests : List (Ticket × Request)
  /-- The events that have not been handled, oldest first. -/
  events : List Event
  /-- Everything that was told, with its time, latest first. -/
  outputs : List (Nat × Output)
  /-- How many requests were sent. -/
  sent : Nat
  /-- Whether someone may still send requests. -/
  held : Bool
  /-- Whether the owning task runs. -/
  running : Bool
  deriving Repr

namespace Monitor

/-- Tells the outside something. -/
def tell (m : Monitor) (o : Output) : Monitor :=
  { m with outputs := (m.around.now, o) :: m.outputs }

/-- Answers a request. -/
def answer (m : Monitor) (t : Ticket) (r : Reply) : Monitor :=
  m.tell (.reply t r)

/-- Changes what is kept in memory. -/
def update (m : Monitor) (f : Engine → Engine) : Monitor :=
  { m with engine := f m.engine }

/-- Publishes what is to be shown, unless it is shown already. -/
def publish (m : Monitor) : Monitor :=
  if m.engine.published.same m.engine.snapshot then m
  else (m.update fun e => { e with published := e.snapshot }).tell (.published m.engine.snapshot)

/-- Queues an event, as long as someone handles events. -/
def post (m : Monitor) (e : Event) : Monitor :=
  if m.running then { m with events := m.events ++ [e] } else m

/-- The requests that have not been answered. -/
def inFlight (m : Monitor) : List Ticket :=
  m.requests.map (·.1) ++ m.errands.map Errand.ticket ++ m.events.filterMap Event.ticket?

end Monitor

end DenialMonitor
