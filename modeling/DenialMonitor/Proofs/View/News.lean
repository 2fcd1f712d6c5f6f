import DenialMonitor.Proofs.Monitor.Runs

set_option autoImplicit false

/-!
# The news that a monitor takes in

Besides the policy and what becomes of requests, a monitor shows denials with whether the newest one
has been acknowledged, and the tail of the daemon's log. This front of its state changes in three
ways only: the denial log is loaded, lines are received, and the user takes note of the newest
record. Every action brings at most one such piece of news, and the news of a run alone say what
becomes of the front.

## Main definitions

* `Front` — the part of a monitor that news are about; `Monitor.front` reads it off.
* `News` — what an action brings; `Monitor.news` tells which one, and `Monitor.newsAlong` lists the
  news of a run.
* `Front.take` — the front after a piece of news.

## Main results

* `Monitor.front_actAll` — the front after a run is the one that its news leave.
* `Monitor.front_start` — the front of a monitor that has just started.
-/

namespace DenialMonitor

/-- The part of a monitor that news are about. -/
structure Front where
  log : DenialLog
  /-- The records of which an alert told that they have arrived, latest first. -/
  alerts : List DenialRecord
  /-- The record that the user has taken note of. -/
  acknowledged : Option RecordId
  logTail : List LogLine
  logLinesReceived : Nat

/-- What an action brings to the front. -/
inductive News where
  | nothing
  /-- The denial log is loaded and has the given content, `none` if it cannot be read. -/
  | denials (content : Option (List UInt8))
  /-- Lines of the daemon's log are received. -/
  | lines (lines : List LogLine)
  /-- The user takes note of the newest record. -/
  | acknowledge

namespace News

/-- The content with which the denial log is loaded. -/
def content? : News → Option (Option (List UInt8))
  | .denials content => some content
  | _ => none

/-- The lines that are received. -/
def received : News → List LogLine
  | .lines batch => batch
  | _ => []

end News

/-- The record of which an output tells that it has arrived. -/
def Output.denial? : Output → Option DenialRecord
  | .denial r => some r
  | _ => none

/-- The front after a piece of news. -/
def Front.take (f : Front) : News → Front
  | .nothing => f
  | .denials content =>
    { f with
      log := (f.log.reload content).2
      alerts := (f.log.reload content).1.toList ++ f.alerts }
  | .lines lines =>
    { f with
      logTail := (f.logTail ++ lines).drop ((f.logTail ++ lines).length - maxLogLines)
      logLinesReceived := f.logLinesReceived + lines.length }
  | .acknowledge =>
    match f.log.records.head? with
    | none => f
    | some newest => { f with acknowledged := some newest.id }

namespace Monitor

/-- The front of a monitor. -/
def front (m : Monitor) : Front :=
  { log := m.engine.log
    alerts := m.outputs.filterMap (·.2.denial?)
    acknowledged := m.engine.acknowledged
    logTail := m.engine.logTail
    logLinesReceived := m.engine.logLinesReceived }

/-- What a request brings. -/
def requestNews (m : Monitor) : Request → News
  | .refresh => .denials (m.around.disk.read? m.settings.paths.denials)
  | .acknowledge => .acknowledge
  | _ => .nothing

/-- What an event brings. -/
def eventNews (m : Monitor) : Event → News
  | .changed .denials => .denials (m.around.disk.read? m.settings.paths.denials)
  | .logLines lines => .lines lines
  | _ => .nothing

/-- What an action brings. -/
def news (m : Monitor) : Action → News
  | .takeRequest =>
    match m.requests with
    | [] => .nothing
    | (_, r) :: _ => m.requestNews r
  | .takeEvent =>
    match m.events with
    | [] => .nothing
    | e :: _ => m.eventNews e
  | _ => .nothing

/-- The news of a run. -/
def newsAlong (m : Monitor) : List Action → List News
  | [] => []
  | a :: actions => m.news a :: (m.act a).newsAlong actions

variable {m : Monitor}

/-! ## What leaves the front alone -/

@[simp]
theorem front_answer (m : Monitor) (t : Ticket) (r : Reply) : (m.answer t r).front = m.front :=
  rfl

@[simp]
theorem front_publish (m : Monitor) : m.publish.front = m.front := by
  unfold publish
  split <;> rfl

@[simp]
theorem front_report (m : Monitor) (o : Outcome) : (m.report o).front = m.front := by
  simp only [report, front_publish]
  rfl

@[simp]
theorem front_conclude (m : Monitor) (t : Ticket) (o : Outcome) :
    (m.conclude t o).front = m.front := by
  simp [conclude]

@[simp]
theorem front_adopt {α : Type} (m : Monitor) (e : PolicyStore.Edit α) : (m.adopt e).front = m.front :=
  rfl

@[simp]
theorem front_scheduleExpiry (m : Monitor) (path : String) :
    (m.scheduleExpiry path).front = m.front := by
  unfold scheduleExpiry
  split <;> rfl

@[simp]
theorem front_cancelExpiry (m : Monitor) (path : String) : (m.cancelExpiry path).front = m.front :=
  rfl

@[simp]
theorem front_register (m : Monitor) (source : Source) : (m.register source).front = m.front := by
  simp only [register]
  split <;> rfl

@[simp]
theorem front_registerAll (m : Monitor) : m.registerAll.front = m.front := by
  simp [registerAll, Source.all]

@[simp]
theorem front_followLog (m : Monitor) : m.followLog.front = m.front := by
  simp only [followLog]
  split <;> rfl

@[simp]
theorem front_post (m : Monitor) (e : Event) : (m.post e).front = m.front := by
  unfold post
  split <;> rfl

/-- Ending the monitor answers requests and leaves the front alone. -/
theorem front_close (m : Monitor) : m.close.front = m.front := by
  rw [close_eq]
  simp [front, Output.denial?]

/-- Loading the denial log is a piece of news, and loading another source is none. -/
theorem front_reload (m : Monitor) (source : Source) :
    (m.reload source).front = m.front.take (m.eventNews (.changed source)) := by
  cases source with
  | denials =>
    simp only [reload, eventNews, Front.take]
    split
    · next harrival =>
      simp [front, update, harrival]
    · next r harrival =>
      simp [front, update, tell, Output.denial?, harrival]
  | _ => rfl

/-! ## Requests and events -/

theorem front_requestOverride (m : Monitor) (text : String) (t : Ticket) :
    (m.requestOverride text t).front = m.front := by
  simp only [requestOverride]
  split
  · simp
  · split
    · simp
    · split
      · rfl
      · simp only [applyOverride]
        split <;> simp

theorem front_acknowledge (m : Monitor) (t : Ticket) :
    (m.acknowledge t).front = m.front.take .acknowledge := by
  have hrecords : m.front.log.records = m.engine.log.records := rfl
  simp only [acknowledge, Front.take, hrecords]
  cases m.engine.log.records.head? with
  | none => rfl
  | some newest =>
    rw [front_answer, front_publish]
    simp only [front, update]

theorem front_refresh (m : Monitor) (t : Ticket) :
    (m.refresh t).front = m.front.take (m.requestNews .refresh) := by
  have hrefresh : (m.refresh t).front = (m.reloadAll.registerAll.followLog.publish).front := by
    simp only [refresh, front]
  rw [hrefresh, front_publish, front_followLog, front_registerAll]
  simp only [reloadAll, Source.all, List.foldl_cons, List.foldl_nil, front_reload]
  rfl

theorem front_handleRequest (m : Monitor) (t : Ticket) (r : Request) :
    (m.handleRequest t r).front = m.front.take (m.requestNews r) := by
  cases r with
  | refresh => exact front_refresh m t
  | acknowledge => exact front_acknowledge m t
  | requestOverride text => exact front_requestOverride m text t
  | removeOverride text =>
    simp only [handleRequest, removeOverride, requestNews, Front.take]
    split <;> simp
  | clearOverrides =>
    simp only [handleRequest, clearOverrides, requestNews, Front.take]
    split
    · rw [front_conclude]
      rfl
    · simp
  | restartDaemon => rfl
  | shutdown => exact front_close m

theorem front_expireOverride (m : Monitor) (path : String) (generation : Nat) :
    (m.expireOverride path generation).front = m.front := by
  simp only [expireOverride]
  split
  · rfl
  · split
    · rw [front_report]
      rfl
    · rfl
    · rw [front_report]
      rfl

theorem front_handleEvent (m : Monitor) (e : Event) :
    (m.handleEvent e).front = m.front.take (m.eventNews e) := by
  cases e with
  | changed source =>
    rw [handleEvent, front_publish, front_reload]
  | logLines lines =>
    rw [handleEvent, front_publish]
    simp only [front, update, Engine.receive, eventNews, Front.take]
  | runningState running t =>
    simp only [handleEvent, front_answer, front_publish]
    rfl
  | overrideExpired path generation => exact front_expireOverride m path generation
  | outcomeExpired generation =>
    simp only [handleEvent]
    split
    · rfl
    · rw [front_publish]
      rfl
  | helperFinished path result t =>
    simp only [handleEvent, helperFinished]
    split
    · rw [front_conclude, front_scheduleExpiry, front_reload]
      rfl
    · rw [front_conclude]
      rfl
  | restartFinished result running t =>
    simp only [handleEvent, front_conclude]
    rfl

/-! ## Runs -/

/-- What an action brings says what becomes of the front. -/
theorem front_act (m : Monitor) (a : Action) : (m.act a).front = m.front.take (m.news a) := by
  cases a with
  | send r =>
    simp only [act, send]
    split <;> rfl
  | finish i answer =>
    simp only [act, finishErrand]
    split
    · rfl
    · split
      · rw [front_post]
        rfl
      · rfl
  | runWatch i eager =>
    simp only [act, runWatch]
    split
    · rfl
    · rw [front_post]
      rfl
  | runReader i =>
    simp only [act, runReader]
    split
    · rfl
    · rw [front_post]
      rfl
  | fireExpiry generation =>
    simp only [act, fireExpiry]
    split
    · rfl
    · rw [front_post]
      rfl
  | fireOutcome generation =>
    simp only [act, fireOutcome]
    split
    · rfl
    · rw [front_post]
      rfl
  | endWait i =>
    simp only [act, endWait]
    split
    · split <;> rfl
    · rfl
  | takeRequest =>
    simp only [act, takeRequest, news]
    cases m.requests with
    | nil => rfl
    | cons x rest => exact front_handleRequest _ x.1 x.2
  | takeEvent =>
    simp only [act, takeEvent, news]
    cases m.events with
    | nil => rfl
    | cons e rest => exact front_handleEvent _ e
  | retire =>
    simp only [act]
    split
    · exact front_close m
    · rfl
  | _ => rfl

/-- The front after a run is the one that its news leave. -/
theorem front_actAll (m : Monitor) (actions : List Action) :
    (m.actAll actions).front = (m.newsAlong actions).foldl Front.take m.front := by
  induction actions generalizing m with
  | nil => rfl
  | cons a actions ih =>
    have hrest := ih (m.act a)
    rw [front_act] at hrest
    exact hrest

/-- A monitor starts with the acknowledged record of its state file, after a first load of the denial
log, which brings no alert. -/
theorem front_start (settings : Settings) (around : Surroundings) (daemonRuns : Bool) :
    (start settings around daemonRuns).front =
      { log := (DenialLog.empty.reload (around.disk.read? settings.paths.denials)).2
        alerts := []
        acknowledged := Acknowledgement.load around.disk settings.paths.state
        logTail := []
        logLinesReceived := 0 } := by
  have hrunning (m : Monitor) (b : Bool) :
      (m.update fun e => { e with daemonRunning := b }).front = m.front := rfl
  simp only [start, startSteps, Source.all, List.map_cons, List.map_nil, List.cons_append,
    List.nil_append, List.foldl_cons, List.foldl_nil, startStep, front_publish, front_followLog,
    front_registerAll, hrunning, front_reload]
  have harrival (content : Option (List UInt8)) : (DenialLog.empty.reload content).1 = none := by
    cases content <;> rfl
  have halerts : (DenialLog.empty.reload (around.disk.read? settings.paths.denials)).1.toList ++ [] =
      ([] : List DenialRecord) := by rw [harrival]; rfl
  simp only [eventNews, Front.take, Front.mk.injEq]
  exact ⟨rfl, halerts, rfl, rfl, rfl⟩

end Monitor

end DenialMonitor
