import DenialMonitor.Daemon.Command
import DenialMonitor.Settings.Basic
import DenialMonitor.Snapshot
import DenialMonitor.Timers.Timeline

set_option autoImplicit false

/-!
# What the monitor takes in and gives out

The monitor has one task that owns all of its state. Users send it requests. Everything that goes
on beside that task comes back to it as an event: changes of files, new lines of the daemon's log,
timers, and errands that others run for it. What it tells the outside is a list of outputs.

## Main definitions

* `Source` — a file that the monitor shows.
* `Request`, `Reply` — what users ask for and are answered.
* `Event` — what comes back to the owning task.
* `Errand` — what others do for the monitor.
* `Output` — what the monitor tells the outside.
-/

namespace DenialMonitor

/-- A file that the monitor shows. -/
inductive Source where
  | policy
  | denials
  | lastDenial
  deriving DecidableEq, Repr

namespace Source

/-- The sources, in the order in which they are loaded. -/
def all : List Source :=
  [.policy, .denials, .lastDenial]

/-- The path of a source. -/
def path (paths : MonitorPaths) : Source → String
  | .policy => paths.policy
  | .denials => paths.denials
  | .lastDenial => paths.lastDenial

end Source

/-- What tells requests apart: how many were sent before. -/
abbrev Ticket := Nat

/-- What a user may ask for. -/
inductive Request where
  /-- To load everything anew. -/
  | refresh
  /-- To take note of the newest record. -/
  | acknowledge
  /-- To open a path for a while. -/
  | requestOverride (path : String)
  | removeOverride (path : String)
  | clearOverrides
  | restartDaemon
  | shutdown
  deriving DecidableEq, Repr

/-- How a request is answered. -/
inductive Reply where
  | snapshot (s : Snapshot)
  /-- Whether there was a record to take note of. -/
  | acknowledged (b : Bool)
  | outcome (o : Outcome)
  /-- The monitor has shut down as requested. -/
  | stopped
  /-- The monitor has shut down before it could answer. -/
  | closed
  deriving Repr

/-- The text about a request that comes too late. -/
def closedMessage : String := "engine has shut down"

/-- What comes back to the task that owns the state. -/
inductive Event where
  | changed (source : Source)
  | logLines (lines : List LogLine)
  /-- Whether the daemon runs, for a refresh. -/
  | runningState (running : Bool) (ticket : Ticket)
  | overrideExpired (path : String) (generation : Nat)
  | outcomeExpired (generation : Nat)
  | helperFinished (path : String) (result : Except ControlError Unit) (ticket : Ticket)
  | restartFinished (result : Except ControlError Unit) (running : Bool) (ticket : Ticket)
  deriving Repr

/-- What others do for the monitor. -/
inductive Errand where
  /-- To find out whether the daemon runs. -/
  | inspect (ticket : Ticket)
  /-- To run the helper that applies an override. -/
  | help (path : String) (ticket : Ticket)
  /-- To have the daemon restarted. -/
  | restart (ticket : Ticket)
  /-- To wait after a restart, until the moment `due`. -/
  | settle (result : Except ControlError Unit) (due : Nat) (ticket : Ticket)
  /-- To find out whether the daemon runs after a restart. -/
  | confirm (result : Except ControlError Unit) (ticket : Ticket)
  deriving Repr

/-- What an errand comes to. -/
inductive Errand.Answer where
  | running (b : Bool)
  | ran (result : Except ControlError Unit)
  deriving Repr

/-- What the monitor tells the outside. -/
inductive Output where
  /-- An alert about a record that has arrived. -/
  | denial (r : DenialRecord)
  /-- An alert about an override that was taken back. -/
  | overrideExpired (path : String)
  | published (s : Snapshot)
  | reply (ticket : Ticket) (r : Reply)
  deriving Repr

/-- The request that an event answers. -/
def Event.ticket? : Event → Option Ticket
  | .runningState _ t | .helperFinished _ _ t | .restartFinished _ _ t => some t
  | _ => none

namespace Errand

/-- The request that an errand is run for. -/
def ticket : Errand → Ticket
  | .inspect t | .help _ t | .restart t | .settle _ _ t | .confirm _ t => t

/-- The end of an errand: the event that it ends in, or the errand that follows it at the moment
`now`. An answer that does not fit changes nothing. -/
def finish (restartSettle now : Nat) : Errand → Answer → Event ⊕ Errand
  | .inspect t, .running b => .inl (.runningState b t)
  | .help path t, .ran result => .inl (.helperFinished path result t)
  | .restart t, .ran result => .inr (.settle result (dueAfter now restartSettle) t)
  | .confirm result t, .running b => .inl (.restartFinished result b t)
  | errand, _ => .inr errand

/-- Whether an errand waits for an answer of others. -/
def isOutside : Errand → Bool
  | .settle _ _ _ => false
  | _ => true

/-- When a wait is over. -/
def due? : Errand → Option Nat
  | .settle _ due _ => some due
  | _ => none

end Errand

end DenialMonitor
