import DenialMonitor.Proofs.Overrides.Guard
import DenialMonitor.Proofs.Watch.Live

set_option autoImplicit false

/-!
# What a monitor takes in

What a monitor shows of its sources goes through its watches, the queue of events, and what it has
loaded. This part of its state is the intake; the policy, which users change as well, is left to
the ledger. Few actions have to do with the intake: signals, turns of a watch, the queueing and
taking of events, and a refresh.

## Main definitions

* `Intake` — the part of a monitor through which files come to be shown; `Monitor.intake` reads it
  off.
* `Monitor.Turn` — what an action can do to the intake.

## Main results

* `Monitor.turn_act` — what an action of a monitor that runs does to its intake.
-/

namespace DenialMonitor

/-- The part of a monitor through which files come to be shown, but for the policy. -/
structure Intake where
  watcher : Watcher Source
  /-- The events that have not been handled, oldest first. -/
  events : List Event
  log : DenialLog
  lastDenial : String

/-- The source of which an event says that it has changed. -/
def Event.changed? : Event → Option Source
  | .changed source => some source
  | _ => none

namespace Intake

/-- Loads a source. -/
def load (i : Intake) (paths : MonitorPaths) (around : Surroundings) : Source → Intake
  | .policy => i
  | .denials => { i with log := (i.log.reload (around.disk.read? paths.denials)).2 }
  | .lastDenial =>
    { i with lastDenial := DenialMonitor.lastDenial (around.disk.read? paths.lastDenial) }

/-- Watches a source, unless a live watch has it. -/
def register (i : Intake) (paths : MonitorPaths) (around : Surroundings) (source : Source) : Intake :=
  if i.watcher.isActive (source.path paths) then i
  else { i with watcher := (i.watcher.watch (source.path paths) source around).2 }

/-- Loads all sources and watches those that have no live watch. -/
def refresh (i : Intake) (paths : MonitorPaths) (around : Surroundings) : Intake :=
  Source.all.foldl (fun i source => i.register paths around source)
    (Source.all.foldl (fun i source => i.load paths around source) i)

variable (i : Intake) (paths : MonitorPaths) (around : Surroundings) (source : Source)

@[simp]
theorem watcher_load : (i.load paths around source).watcher = i.watcher := by
  cases source <;> rfl

@[simp]
theorem events_load : (i.load paths around source).events = i.events := by
  cases source <;> rfl

/-- Watching a source leaves everything else as it is. -/
theorem exists_register_eq : ∃ watcher, i.register paths around source = { i with watcher } := by
  unfold register
  split <;> exact ⟨_, rfl⟩

/-- Loading all sources also loads the denial log and the last denial, and leaves the events. -/
theorem exists_refresh_eq : ∃ watcher, i.refresh paths around =
    { i with
      watcher
      log := (i.log.reload (around.disk.read? paths.denials)).2
      lastDenial := DenialMonitor.lastDenial (around.disk.read? paths.lastDenial) } := by
  simp only [refresh, Source.all, List.foldl_cons, List.foldl_nil, load]
  obtain ⟨watcher, heq⟩ := exists_register_eq _ paths around .policy
  obtain ⟨watcher', heq'⟩ := exists_register_eq _ paths around .denials
  obtain ⟨watcher'', heq''⟩ := exists_register_eq _ paths around .lastDenial
  exact ⟨watcher'', by rw [heq, heq', heq'']⟩

end Intake

namespace Monitor

/-- The intake of a monitor. -/
def intake (m : Monitor) : Intake :=
  { watcher := m.watcher
    events := m.events
    log := m.engine.log
    lastDenial := m.engine.lastDenial }

/-- What an action can do to the intake of a monitor that runs. -/
inductive Turn (m : Monitor) : Action → Intake → Prop where
  /-- The watches hear a signal. -/
  | signal (path : String) (s : Signal) :
    Turn m (.signal path s) { m.intake with watcher := (m.watcher.deliver path s).2 }
  /-- A watch gets to run, and the change is queued if it fires. -/
  | runWatch (i : Nat) (eager : Bool) :
    Turn m (.runWatch i eager)
      { m.intake with
        watcher := (m.watcher.run m.around i eager).2
        events := m.events ++ ((m.watcher.run m.around i eager).1.map Event.changed).toList }
  /-- The change of a source is taken, which is loaded then. -/
  | load (source : Source) (rest : List Event) (h : m.events = .changed source :: rest) :
    Turn m .takeEvent ({ m.intake with events := rest }.load m.settings.paths m.around source)
  /-- All sources are loaded, and those that have no live watch are watched. -/
  | refresh (t : Ticket) (rest : List (Ticket × Request)) (h : m.requests = (t, .refresh) :: rest) :
    Turn m .takeRequest (m.intake.refresh m.settings.paths m.around)
  /-- Another event is taken. -/
  | drop (e : Event) (rest : List Event) (h : m.events = e :: rest) (he : e.changed? = none) :
    Turn m .takeEvent { m.intake with events := rest }
  /-- Another event is queued. -/
  | queue (a : Action) (e : Event) (he : e.changed? = none) :
    Turn m a { m.intake with events := m.events ++ [e] }
  | idle (a : Action) : Turn m a m.intake

variable {m : Monitor} {a : Action}

/-! ## What leaves the intake alone -/

@[simp]
theorem intake_answer (m : Monitor) (t : Ticket) (r : Reply) : (m.answer t r).intake = m.intake :=
  rfl

@[simp]
theorem intake_publish (m : Monitor) : m.publish.intake = m.intake := by
  unfold publish
  split <;> rfl

@[simp]
theorem intake_report (m : Monitor) (o : Outcome) : (m.report o).intake = m.intake := by
  simp only [report, intake_publish]
  rfl

@[simp]
theorem intake_conclude (m : Monitor) (t : Ticket) (o : Outcome) :
    (m.conclude t o).intake = m.intake := by
  simp [conclude]

@[simp]
theorem intake_adopt {α : Type} (m : Monitor) (e : PolicyStore.Edit α) :
    (m.adopt e).intake = m.intake :=
  rfl

@[simp]
theorem intake_scheduleExpiry (m : Monitor) (path : String) :
    (m.scheduleExpiry path).intake = m.intake := by
  unfold scheduleExpiry
  split <;> rfl

@[simp]
theorem intake_cancelExpiry (m : Monitor) (path : String) : (m.cancelExpiry path).intake = m.intake :=
  rfl

@[simp]
theorem intake_followLog (m : Monitor) : m.followLog.intake = m.intake := by
  simp only [followLog]
  split <;> rfl

/-- Loading a source changes what is known of it and nothing else. -/
theorem intake_reload (m : Monitor) (source : Source) :
    (m.reload source).intake = m.intake.load m.settings.paths m.around source := by
  cases source with
  | policy => rfl
  | lastDenial => rfl
  | denials =>
    simp only [reload]
    split <;> simp only [intake, update, tell, Intake.load]

theorem settings_reload (m : Monitor) (source : Source) : (m.reload source).settings = m.settings := by
  cases source with
  | denials =>
    simp only [reload]
    split <;> rfl
  | _ => rfl

theorem around_reload (m : Monitor) (source : Source) : (m.reload source).around = m.around := by
  cases source with
  | denials =>
    simp only [reload]
    split <;> rfl
  | _ => rfl

theorem intake_register (m : Monitor) (source : Source) :
    (m.register source).intake = m.intake.register m.settings.paths m.around source := by
  simp only [register, Intake.register]
  have hwatcher : m.intake.watcher = m.watcher := rfl
  rw [hwatcher]
  split <;> rfl

theorem settings_register (m : Monitor) (source : Source) :
    (m.register source).settings = m.settings := by
  simp only [register]
  split <;> rfl

theorem around_register (m : Monitor) (source : Source) :
    (m.register source).around = m.around := by
  simp only [register]
  split <;> rfl

theorem intake_registerAll_reloadAll (m : Monitor) :
    m.reloadAll.registerAll.intake = m.intake.refresh m.settings.paths m.around := by
  simp only [reloadAll, registerAll, Intake.refresh, Source.all, List.foldl_cons, List.foldl_nil,
    intake_register, intake_reload, settings_register, settings_reload, around_register,
    around_reload]

/-! ## Requests and events -/

theorem intake_applyOverride (m : Monitor) (path : String) (t : Ticket) :
    (m.applyOverride path t).intake = m.intake := by
  simp only [applyOverride]
  split <;> simp

theorem intake_requestOverride (m : Monitor) (text : String) (t : Ticket) :
    (m.requestOverride text t).intake = m.intake := by
  simp only [requestOverride]
  split
  · simp
  · split
    · simp
    · split
      · rfl
      · exact intake_applyOverride ..

theorem intake_acknowledge (m : Monitor) (t : Ticket) : (m.acknowledge t).intake = m.intake := by
  simp only [acknowledge]
  split
  · rfl
  · rw [intake_answer, intake_publish]
    simp only [intake, update]

/-- Requests other than a refresh leave the intake alone, as long as the monitor runs. -/
theorem intake_handleRequest (m : Monitor) (t : Ticket) {r : Request} (hrefresh : r ≠ .refresh)
    (hshutdown : r ≠ .shutdown) : (m.handleRequest t r).intake = m.intake := by
  cases r with
  | refresh => exact absurd rfl hrefresh
  | acknowledge => exact intake_acknowledge m t
  | requestOverride text => exact intake_requestOverride m text t
  | removeOverride text =>
    simp only [handleRequest, removeOverride]
    split <;> simp
  | clearOverrides =>
    simp only [handleRequest, clearOverrides]
    split
    · rw [intake_conclude]
      rfl
    · simp
  | restartDaemon => rfl
  | shutdown => exact absurd rfl hshutdown

theorem intake_refresh (m : Monitor) (t : Ticket) :
    (m.refresh t).intake = m.intake.refresh m.settings.paths m.around := by
  have hrefresh : (m.refresh t).intake = (m.reloadAll.registerAll.followLog.publish).intake := by
    simp only [refresh, intake]
  rw [hrefresh, intake_publish, intake_followLog, intake_registerAll_reloadAll]

/-- Events that tell of no change of a source leave the intake alone. -/
theorem intake_handleEvent (m : Monitor) {e : Event} (he : e.changed? = none) :
    (m.handleEvent e).intake = m.intake := by
  cases e with
  | changed source => simp [Event.changed?] at he
  | logLines lines =>
    simp only [handleEvent, intake_publish]
    simp only [intake, update, Engine.receive]
  | runningState running t =>
    simp only [handleEvent, intake_answer, intake_publish]
    rfl
  | overrideExpired path generation =>
    simp only [handleEvent, expireOverride]
    split
    · rfl
    · split
      · rw [intake_report]
        rfl
      · rfl
      · rw [intake_report]
        rfl
  | outcomeExpired generation =>
    simp only [handleEvent]
    split
    · rfl
    · rw [intake_publish]
      rfl
  | helperFinished path result t =>
    simp only [handleEvent, helperFinished]
    split
    · rw [intake_conclude, intake_scheduleExpiry]
      rfl
    · rw [intake_conclude]
  | restartFinished result running t =>
    simp only [handleEvent, intake_conclude]
    rfl

/-! ## Actions -/

theorem intake_post (h : m.running) (e : Event) :
    (m.post e).intake = { m.intake with events := m.events ++ [e] } := by
  simp only [post, h, if_true]
  rfl

/-- An event that tells of no change of a source is queued at most. -/
theorem turn_post {m' : Monitor} (hm' : m'.intake = m.intake) {e : Event} (he : e.changed? = none)
    (a : Action) : m.Turn a (m'.post e).intake := by
  have hevents : m'.events = m.events := congrArg Intake.events hm'
  unfold post
  split
  · have hqueued : ({ m' with events := m'.events ++ [e] } : Monitor).intake =
        { m.intake with events := m.events ++ [e] } := by
      rw [← hm', ← hevents]
      rfl
    rw [hqueued]
    exact .queue a e he
  · rw [hm']
    exact .idle a

/-- No errand ends in a change of a source. -/
theorem changed?_of_finish {restartSettle now : Nat} {errand : Errand} {answer : Errand.Answer}
    {e : Event} (h : errand.finish restartSettle now answer = .inl e) : e.changed? = none := by
  cases errand <;> cases answer <;>
    simp only [Errand.finish, reduceCtorEq, Sum.inl.injEq] at h <;> subst h <;> rfl

theorem turn_finishErrand (m : Monitor) (i : Nat) (answer : Errand.Answer) :
    m.Turn (.finish i answer) (m.finishErrand i answer).intake := by
  simp only [finishErrand]
  split
  · exact .idle _
  · split
    · next h => exact turn_post (by rfl) (changed?_of_finish h) _
    · exact .idle _

theorem turn_runWatch (h : m.running) (i : Nat) (eager : Bool) :
    m.Turn (.runWatch i eager) (m.runWatch i eager).intake := by
  have hturn := Turn.runWatch (m := m) i eager
  simp only [runWatch]
  split
  · next hfired =>
    rw [hfired, Option.map_none, Option.toList_none, List.append_nil] at hturn
    exact hturn
  · next source hfired =>
    have hpost := intake_post (m := { m with watcher := (m.watcher.run m.around i eager).2 }) h
      (.changed source)
    rw [hfired] at hturn
    rw [hpost]
    exact hturn

/-- A refresh that is taken loads and watches all sources. -/
theorem intake_takeRequest_of_refresh {t : Ticket} {rest : List (Ticket × Request)}
    (h : m.requests = (t, .refresh) :: rest) :
    (m.act .takeRequest).intake = m.intake.refresh m.settings.paths m.around := by
  simp only [act, takeRequest, h, handleRequest]
  exact intake_refresh _ t

/-- The change of a source that is taken loads the source. -/
theorem intake_takeEvent_of_changed {source : Source} {rest : List Event}
    (h : m.events = .changed source :: rest) :
    (m.act .takeEvent).intake =
      { m.intake with events := rest }.load m.settings.paths m.around source := by
  simp only [act, takeEvent, h, handleEvent, intake_publish]
  exact intake_reload _ source

theorem turn_takeRequest (hclose : m.deed .takeRequest ≠ .close) :
    m.Turn .takeRequest (m.act .takeRequest).intake := by
  cases hrequests : m.requests with
  | nil =>
    simp only [act, takeRequest, hrequests]
    exact .idle _
  | cons x rest =>
    obtain ⟨t, r⟩ := x
    by_cases hrefresh : r = .refresh
    · subst hrefresh
      rw [intake_takeRequest_of_refresh hrequests]
      exact .refresh t rest hrequests
    · have hshutdown : r ≠ .shutdown := by
        rintro rfl
        simp [deed, hrequests, requestDeed] at hclose
      simp only [act, takeRequest, hrequests, intake_handleRequest _ t hrefresh hshutdown]
      exact .idle _

theorem turn_takeEvent (m : Monitor) : m.Turn .takeEvent (m.act .takeEvent).intake := by
  cases hevents : m.events with
  | nil =>
    simp only [act, takeEvent, hevents]
    exact .idle _
  | cons e rest =>
    cases he : e.changed? with
    | none =>
      simp only [act, takeEvent, hevents, intake_handleEvent _ he]
      exact .drop e rest hevents he
    | some source =>
      cases e with
      | changed source' =>
        rw [intake_takeEvent_of_changed hevents]
        exact .load source' rest hevents
      | _ => simp [Event.changed?] at he

/-- What an action of a monitor that runs does to its intake. -/
theorem turn_act (hrun : (m.act a).running) : m.Turn a (m.act a).intake := by
  obtain ⟨hnow, hclose⟩ := deed_ne_close hrun
  cases a with
  | change c => exact .idle _
  | refuseWatches b => exact .idle _
  | signal path s => exact .signal path s
  | send r =>
    simp only [act, send]
    split <;> exact .idle _
  | release => exact .idle _
  | pass span => exact .idle _
  | finish i answer => exact turn_finishErrand m i answer
  | runWatch i eager => exact turn_runWatch hnow i eager
  | runReader i =>
    simp only [act, runReader]
    split
    · exact .idle _
    · exact turn_post (by rfl) rfl _
  | fireExpiry generation =>
    simp only [act, fireExpiry]
    split
    · exact .idle _
    · exact turn_post (by rfl) rfl _
  | fireOutcome generation =>
    simp only [act, fireOutcome]
    split
    · exact .idle _
    · exact turn_post (by rfl) rfl _
  | endWait i =>
    simp only [act, endWait]
    split
    · split <;> exact .idle _
    · exact .idle _
  | takeRequest => exact turn_takeRequest hclose
  | takeEvent => exact turn_takeEvent m
  | retire =>
    simp only [act]
    split
    · next habandoned => simp [deed, habandoned] at hclose
    · exact .idle _

end Monitor

end DenialMonitor
