import DenialMonitor.Monitor.State

set_option autoImplicit false

/-!
# Handling requests and events

The owning task handles one request or event at a time, and publishes what has changed before it
takes the next one.

An override that the monitor applies is taken back when its timer fires. The timer belongs to the
path: a new request for the path puts a new timer in place of the old one, removing the override
cancels it, and a firing counts only while its timer is the current one. Where the policy cannot be
written nothing is cancelled.

## Main definitions

* `Monitor.reload` — loads a source.
* `Monitor.report` — shows an outcome for a while.
* `Monitor.handleRequest`, `Monitor.handleEvent` — what a request or event does.
* `Monitor.close` — the end of the owning task.
-/

namespace DenialMonitor

namespace Monitor

/-! ## Sources -/

/-- Loads a source. A record that has arrived in the denial log is told. -/
def reload (m : Monitor) : Source → Monitor
  | .policy => m.update fun e => { e with policy := e.policy.reload m.around.disk }
  | .denials =>
    let (arrival, log) := m.engine.log.reload (m.around.disk.read? m.settings.paths.denials)
    let m := m.update fun e => { e with log }
    match arrival with
    | none => m
    | some r => m.tell (.denial r)
  | .lastDenial =>
    let content := m.around.disk.read? m.settings.paths.lastDenial
    m.update fun e => { e with lastDenial := DenialMonitor.lastDenial content }

/-- Loads all sources. -/
def reloadAll (m : Monitor) : Monitor :=
  Source.all.foldl reload m

/-- Watches a source, unless a live watch has it. -/
def register (m : Monitor) (source : Source) : Monitor :=
  let path := source.path m.settings.paths
  if m.watcher.isActive path then m
  else { m with watcher := (m.watcher.watch path source m.around).2 }

/-- Watches every source that has no live watch. -/
def registerAll (m : Monitor) : Monitor :=
  Source.all.foldl register m

/-- Follows the daemon's log, unless it is followed. -/
def followLog (m : Monitor) : Monitor :=
  if m.tailer.isTailing then m
  else { m with tailer := (m.tailer.start m.settings.paths.log m.around).2 }

/-! ## Outcomes -/

/-- Shows an outcome until its time is over or a newer one comes. -/
def report (m : Monitor) (o : Outcome) : Monitor :=
  let due := dueAfter m.around.now m.settings.outcomeTtl
  (m.update fun e =>
    { e with outcome := some o, outcomeTimer := (e.outcomeTimer.schedule () due).2 }).publish

/-- Shows an outcome and answers the request that it belongs to. -/
def conclude (m : Monitor) (t : Ticket) (o : Outcome) : Monitor :=
  (m.report o).answer t (.outcome o)

/-! ## Overrides -/

/-- Takes over what an edit of the policy leaves behind. -/
def adopt {α : Type} (m : Monitor) (e : PolicyStore.Edit α) : Monitor :=
  { m with
    around := { m.around with disk := e.disk }
    engine := { m.engine with policy := e.store } }

/-- Starts the time of an override, if overrides have one. -/
def scheduleExpiry (m : Monitor) (path : String) : Monitor :=
  match m.settings.autoRevoke with
  | none => m
  | some lifetime =>
    let due := dueAfter m.around.now lifetime
    m.update fun e => { e with expiry := (e.expiry.schedule path due).2 }

/-- Stops the time of an override. -/
def cancelExpiry (m : Monitor) (path : String) : Monitor :=
  m.update fun e => { e with expiry := (e.expiry.cancel path).2 }

/-- The outcome of an edit that could not be written. -/
def editFailed (e : OsError) : Outcome :=
  .failed ("Failed to update policy: " ++ storeErrorMessage e)

/-- The outcome of an override that was applied. -/
def allowed (path : String) : Outcome :=
  .succeeded ("Temporarily allowed " ++ Path.displayName path)

/-- Opens a path for a while. -/
def applyOverride (m : Monitor) (path : String) (t : Ticket) : Monitor :=
  let e := m.engine.policy.addOverride m.around.disk path
  match e.result with
  | .ok _ => ((m.adopt e).scheduleExpiry path).conclude t (allowed path)
  | .error cause => (m.adopt e).conclude t (editFailed cause)

/-- Handles the request to open a path, which is done by the helper if there is one. -/
def requestOverride (m : Monitor) (text : String) (t : Ticket) : Monitor :=
  let path := Text.trim text
  if path = "" then m.conclude t (.failed "Override path is empty")
  else if !Path.isAbsolute path then
    m.conclude t (.failed ("Override path must be absolute: " ++ path))
  else
    match m.settings.daemon.overrideHelper with
    | some _ => { m with errands := m.errands ++ [.help path t] }
    | none => m.applyOverride path t

/-- What is said of a helper that did not succeed. -/
def helperFailed : ControlError → Outcome
  | .failed _ (.code n) => .failed ("Override helper failed (exit code " ++ toString n ++ ")")
  | e => .failed ("Override helper error: " ++ e.message)

/-- Handles the end of the helper. -/
def helperFinished (m : Monitor) (path : String) (result : Except ControlError Unit) (t : Ticket) :
    Monitor :=
  match result with
  | .ok () => ((m.reload .policy).scheduleExpiry path).conclude t (allowed path)
  | .error e => m.conclude t (helperFailed e)

/-- Handles the request to take an override back. -/
def removeOverride (m : Monitor) (text : String) (t : Ticket) : Monitor :=
  let path := Text.trim text
  let e := m.engine.policy.removeOverride m.around.disk path
  match e.result with
  | .ok true =>
    ((m.adopt e).cancelExpiry path).conclude t
      (.succeeded ("Removed override for " ++ Path.displayName path))
  | .ok false =>
    ((m.adopt e).cancelExpiry path).conclude t
      (.failed ("No override for " ++ Path.displayName path))
  | .error cause => (m.adopt e).conclude t (editFailed cause)

/-- Handles the request to take all overrides back. -/
def clearOverrides (m : Monitor) (t : Ticket) : Monitor :=
  let e := m.engine.policy.clearOverrides m.around.disk
  match e.result with
  | .ok count =>
    ((m.adopt e).update fun e => { e with expiry := e.expiry.cancelAll }).conclude t
      (.succeeded ("Cleared " ++ toString count ++ " temporary override(s)"))
  | .error cause => (m.adopt e).conclude t (editFailed cause)

/-- Handles the firing of an override's timer. It counts only while the timer is the current one of
its path. -/
def expireOverride (m : Monitor) (path : String) (generation : Nat) : Monitor :=
  match m.engine.expiry.complete path generation with
  | (false, _) => m
  | (true, expiry) =>
    let m := m.update fun e => { e with expiry }
    let e := m.engine.policy.removeOverride m.around.disk path
    match e.result with
    | .ok true =>
      ((m.adopt e).tell (.overrideExpired path)).report
        (.succeeded ("Override for " ++ Path.displayName path ++ " expired; protected again"))
    | .ok false => m.adopt e
    | .error cause => (m.adopt e).report (editFailed cause)

/-! ## Other requests -/

/-- Handles the request to load everything anew. It is answered once it is known whether the daemon
runs. -/
def refresh (m : Monitor) (t : Ticket) : Monitor :=
  let m := m.reloadAll.registerAll.followLog.publish
  { m with errands := m.errands ++ [.inspect t] }

/-- Handles the request to take note of the newest record. A state file that cannot be written
only matters after the next start. -/
def acknowledge (m : Monitor) (t : Ticket) : Monitor :=
  match m.engine.log.records.head? with
  | none => m.answer t (.acknowledged false)
  | some newest =>
    let disk := (Acknowledgement.save m.around.disk m.settings.paths.state newest.id).1
    let m := { m with around := { m.around with disk } }
    let m := (m.update fun e => { e with acknowledged := some newest.id }).publish
    m.answer t (.acknowledged true)

/-- What is said of a restart. -/
def restarted (result : Except ControlError Unit) (running : Bool) : Outcome :=
  match result, running with
  | .ok (), true => .succeeded "Daemon restarted"
  | .ok (), false => .failed "Restart failed: daemon is not running"
  | .error e, _ => .failed ("Restart failed: " ++ e.message)

/-- Ends the owning task: everything that goes on beside it is stopped, and no request that is in
flight is answered any more. Overrides stay as they are. -/
def close (m : Monitor) : Monitor :=
  let ended :=
    { m with
      watcher := m.watcher.stopAll
      tailer := m.tailer.stop
      engine := { m.engine with
        expiry := m.engine.expiry.cancelAll
        outcomeTimer := m.engine.outcomeTimer.cancelAll }
      errands := []
      requests := []
      events := []
      running := false }
  m.inFlight.foldl (fun m t => m.answer t .closed) ended

/-- What a request does. -/
def handleRequest (m : Monitor) (t : Ticket) : Request → Monitor
  | .refresh => m.refresh t
  | .acknowledge => m.acknowledge t
  | .requestOverride path => m.requestOverride path t
  | .removeOverride path => m.removeOverride path t
  | .clearOverrides => m.clearOverrides t
  | .restartDaemon => { m with errands := m.errands ++ [.restart t] }
  | .shutdown => m.close.answer t .stopped

/-- What an event does. -/
def handleEvent (m : Monitor) : Event → Monitor
  | .changed source => (m.reload source).publish
  | .logLines lines => (m.update (·.receive lines)).publish
  | .runningState running t =>
    let m := (m.update fun e => { e with daemonRunning := running }).publish
    m.answer t (.snapshot m.engine.published)
  | .overrideExpired path generation => m.expireOverride path generation
  | .outcomeExpired generation =>
    match m.engine.outcomeTimer.complete () generation with
    | (false, _) => m
    | (true, outcomeTimer) => (m.update fun e => { e with outcomeTimer, outcome := none }).publish
  | .helperFinished path result t => m.helperFinished path result t
  | .restartFinished result running t =>
    (m.update fun e => { e with daemonRunning := running }).conclude t (restarted result running)

end Monitor

end DenialMonitor
