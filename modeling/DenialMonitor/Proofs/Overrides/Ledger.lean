import DenialMonitor.Proofs.Monitor.Runs

set_option autoImplicit false

/-!
# The ledger of overrides

Most of what a monitor does has nothing to do with overrides. The ledger is the part of its state
that has: the policy in memory and on the disk, the time, the timers of overrides with the firings
that are queued, and the alerts about overrides that were taken back. Every action of the monitor
does one deed to the ledger, and the deed alone says what becomes of it.

## Main definitions

* `Ledger` — the part of a monitor that overrides are about; `Monitor.ledger` reads it off.
* `Deed` — what an action does to it; `Monitor.deed` tells which one.
* `Ledger.perform` — the ledger after a deed.
* `Ledger.Allows` — the deeds that can come next.

## Main results

* `Monitor.ledger_act` — the ledger after an action is the one that its deed leaves.
* `Monitor.allows_deed` — the deed of an action can come next.
* `Monitor.files_of_deed` — the actions by which files change, but for edits of the policy.
* `Monitor.ledger_start` — the ledger of a monitor that has just started.
-/

namespace DenialMonitor

/-- The part of a monitor that overrides are about. -/
structure Ledger where
  settings : Settings
  store : PolicyStore
  disk : Disk
  now : Nat
  expiry : KeyedTimers String
  /-- The firings that have not been handled, oldest first. -/
  fired : List (String × Nat)
  /-- The overrides of which was told that they were taken back, with the time, latest first. -/
  told : List (Nat × String)
  running : Bool

/-- What an action does to the ledger. A deed that edits the policy comes with the edit. -/
inductive Deed where
  | nothing
  /-- Files were changed, but not by an edit of the policy. -/
  | files (disk : Disk)
  | pass (span : Nat)
  /-- The policy is taken from its file. -/
  | reload
  /-- The timer with a generation fires. -/
  | fire (generation : Nat)
  /-- A user asks for an override, which the monitor applies. -/
  | request (path : String) (e : PolicyStore.Edit Bool)
  /-- The helper has applied an override. -/
  | grant (path : String)
  /-- A user takes an override back. -/
  | remove (path : String) (e : PolicyStore.Edit Bool)
  /-- A user takes all overrides back. -/
  | clear (e : PolicyStore.Edit Nat)
  /-- A firing of a timer is handled that is not the current one of its path. -/
  | ignore
  /-- The firing of the current timer of a path is handled. -/
  | revoke (path : String) (e : PolicyStore.Edit Bool)
  /-- The monitor ends. -/
  | close

/-- The firing that an event tells of. -/
def Event.firing? : Event → Option (String × Nat)
  | .overrideExpired path generation => some (path, generation)
  | _ => none

/-- The override of which an output tells that it was taken back. -/
def Output.expired? : Output → Option String
  | .overrideExpired path => some path
  | _ => none

namespace Ledger

/-- Takes over what an edit of the policy leaves behind. -/
def adopt {α : Type} (l : Ledger) (e : PolicyStore.Edit α) : Ledger :=
  { l with store := e.store, disk := e.disk }

/-- Starts the time of an override, if overrides have one. -/
def schedule (l : Ledger) (path : String) : Ledger :=
  match l.settings.autoRevoke with
  | none => l
  | some lifetime =>
    { l with expiry := (l.expiry.schedule path (dueAfter l.now lifetime)).2 }

/-- The ledger after a deed. -/
def perform (l : Ledger) : Deed → Ledger
  | .nothing => l
  | .files disk => { l with disk }
  | .pass span => { l with now := l.now + span }
  | .reload => { l with store := l.store.reload l.disk }
  | .fire generation =>
    let (s, expiry) := l.expiry.wake generation l.now
    let new := if l.running then (s.map fun s => (s.key, s.generation)).toList else []
    { l with expiry, fired := l.fired ++ new }
  | .request path e => if e.result.isOk then (l.adopt e).schedule path else l.adopt e
  | .grant path => { l with store := l.store.reload l.disk }.schedule path
  | .remove path e =>
    if e.result.isOk then { l.adopt e with expiry := (l.expiry.cancel path).2 } else l.adopt e
  | .clear e => if e.result.isOk then { l.adopt e with expiry := l.expiry.cancelAll } else l.adopt e
  | .ignore => { l with fired := l.fired.tail }
  | .revoke path e =>
    { l.adopt e with
      expiry := l.expiry.release path
      fired := l.fired.tail
      told := match e.result with
        | .ok true => (l.now, path) :: l.told
        | _ => l.told }
  | .close => { l with expiry := l.expiry.cancelAll, fired := [], running := false }

/-- Whether a deed can come next: its edit is that of the policy at hand, and a firing that is
handled is the oldest one. -/
def Allows (l : Ledger) : Deed → Prop
  | .request path e => e = l.store.addOverride l.disk path
  | .remove path e => e = l.store.removeOverride l.disk path
  | .clear e => e = l.store.clearOverrides l.disk
  | .ignore => ∃ path g, l.fired.head? = some (path, g) ∧ l.expiry.generation? path ≠ some g
  | .revoke path e =>
    e = l.store.removeOverride l.disk path ∧
      ∃ g, l.fired.head? = some (path, g) ∧ l.expiry.generation? path = some g
  | _ => True

end Ledger

namespace Monitor

/-- The ledger of a monitor. -/
def ledger (m : Monitor) : Ledger :=
  { settings := m.settings
    store := m.engine.policy
    disk := m.around.disk
    now := m.around.now
    expiry := m.engine.expiry
    fired := m.events.filterMap Event.firing?
    told := m.outputs.filterMap fun o => o.2.expired?.map (o.1, ·)
    running := m.running }

theorem store_ledger (m : Monitor) : m.ledger.store = m.engine.policy :=
  rfl

theorem settings_ledger (m : Monitor) : m.ledger.settings = m.settings :=
  rfl

theorem expiry_ledger (m : Monitor) : m.ledger.expiry = m.engine.expiry :=
  rfl

/-- What a request does to the ledger. -/
def requestDeed (m : Monitor) : Request → Deed
  | .refresh => .reload
  | .acknowledge =>
    match m.engine.log.records.head? with
    | none => .nothing
    | some newest =>
      .files (Acknowledgement.save m.around.disk m.settings.paths.state newest.id).1
  | .requestOverride text =>
    let path := Text.trim text
    if path = "" ∨ !Path.isAbsolute path ∨ m.settings.daemon.overrideHelper.isSome then .nothing
    else .request path (m.engine.policy.addOverride m.around.disk path)
  | .removeOverride text =>
    .remove (Text.trim text) (m.engine.policy.removeOverride m.around.disk (Text.trim text))
  | .clearOverrides => .clear (m.engine.policy.clearOverrides m.around.disk)
  | .restartDaemon => .nothing
  | .shutdown => .close

/-- What an event does to the ledger. -/
def eventDeed (m : Monitor) : Event → Deed
  | .changed .policy => .reload
  | .overrideExpired path generation =>
    if m.engine.expiry.generation? path = some generation then
      .revoke path (m.engine.policy.removeOverride m.around.disk path)
    else .ignore
  | .helperFinished path (.ok ()) _ => .grant path
  | _ => .nothing

/-- What an action does to the ledger. -/
def deed (m : Monitor) : Action → Deed
  | .change c => .files (m.around.disk.apply c).1
  | .pass span => .pass span
  | .fireExpiry generation => .fire generation
  | .takeRequest =>
    match m.requests with
    | [] => .nothing
    | (_, r) :: _ => m.requestDeed r
  | .takeEvent =>
    match m.events with
    | [] => .nothing
    | e :: _ => m.eventDeed e
  | .retire => if m.isAbandoned then .close else .nothing
  | _ => .nothing

/-! ## What leaves the ledger alone -/

@[simp]
theorem ledger_answer (m : Monitor) (t : Ticket) (r : Reply) : (m.answer t r).ledger = m.ledger :=
  rfl

@[simp]
theorem ledger_publish (m : Monitor) : m.publish.ledger = m.ledger := by
  unfold publish
  split <;> rfl

@[simp]
theorem ledger_report (m : Monitor) (o : Outcome) : (m.report o).ledger = m.ledger := by
  simp only [report, ledger_publish]
  rfl

@[simp]
theorem ledger_conclude (m : Monitor) (t : Ticket) (o : Outcome) :
    (m.conclude t o).ledger = m.ledger := by
  simp [conclude]

@[simp]
theorem ledger_register (m : Monitor) (s : Source) : (m.register s).ledger = m.ledger := by
  simp only [register]
  split <;> rfl

@[simp]
theorem ledger_registerAll (m : Monitor) : m.registerAll.ledger = m.ledger := by
  simp [registerAll, Source.all]

@[simp]
theorem ledger_followLog (m : Monitor) : m.followLog.ledger = m.ledger := by
  simp only [followLog]
  split <;> rfl

/-- Loading the policy takes it from its file; loading another source leaves the ledger alone. -/
theorem ledger_reload (m : Monitor) (s : Source) :
    (m.reload s).ledger =
      if s = .policy then { m.ledger with store := m.engine.policy.reload m.around.disk }
      else m.ledger := by
  cases s with
  | policy => rfl
  | lastDenial => rfl
  | denials =>
    simp only [reload, reduceCtorEq, if_false]
    split <;> rfl

@[simp]
theorem ledger_reloadAll (m : Monitor) :
    m.reloadAll.ledger = { m.ledger with store := m.engine.policy.reload m.around.disk } := by
  simp only [reloadAll, Source.all, List.foldl_cons, List.foldl_nil, ledger_reload]
  rfl

/-! ## Edits of the policy -/

@[simp]
theorem ledger_adopt {α : Type} (m : Monitor) (e : PolicyStore.Edit α) :
    (m.adopt e).ledger = m.ledger.adopt e :=
  rfl

@[simp]
theorem ledger_scheduleExpiry (m : Monitor) (path : String) :
    (m.scheduleExpiry path).ledger = m.ledger.schedule path := by
  unfold scheduleExpiry Ledger.schedule
  have hs : m.ledger.settings = m.settings := rfl
  rw [hs]
  cases m.settings.autoRevoke <;> rfl

@[simp]
theorem ledger_cancelExpiry (m : Monitor) (path : String) :
    (m.cancelExpiry path).ledger =
      { m.ledger with expiry := (m.engine.expiry.cancel path).2 } :=
  rfl

/-! ## The owning task -/

theorem ledger_applyOverride (m : Monitor) (path : String) (t : Ticket) :
    (m.applyOverride path t).ledger =
      m.ledger.perform (.request path (m.engine.policy.addOverride m.around.disk path)) := by
  simp only [applyOverride, Ledger.perform]
  cases h : (m.engine.policy.addOverride m.around.disk path).result with
  | ok b => simp [Except.isOk, Except.toBool]
  | error e => simp [Except.isOk, Except.toBool]

theorem ledger_requestOverride (m : Monitor) (text : String) (t : Ticket) :
    (m.requestOverride text t).ledger = m.ledger.perform (m.requestDeed (.requestOverride text)) := by
  simp only [requestOverride, requestDeed]
  by_cases hempty : Text.trim text = ""
  · simp [hempty, Ledger.perform]
  · by_cases habs : Path.isAbsolute (Text.trim text) = true
    · cases hh : m.settings.daemon.overrideHelper with
      | none => simp [hempty, habs, ledger_applyOverride]
      | some helper =>
        simp only [hempty, habs, if_false, Bool.not_true, Bool.false_eq_true, Option.isSome_some,
          or_true, if_true, Ledger.perform]
        rfl
    · simp [hempty, habs, Ledger.perform]

theorem ledger_removeOverride (m : Monitor) (text : String) (t : Ticket) :
    (m.removeOverride text t).ledger = m.ledger.perform (m.requestDeed (.removeOverride text)) := by
  simp only [removeOverride, requestDeed, Ledger.perform]
  cases h : (m.engine.policy.removeOverride m.around.disk (Text.trim text)).result with
  | ok b => cases b <;> simp [Except.isOk, Except.toBool] <;> rfl
  | error e => simp [Except.isOk, Except.toBool]

theorem ledger_clearOverrides (m : Monitor) (t : Ticket) :
    (m.clearOverrides t).ledger = m.ledger.perform (m.requestDeed .clearOverrides) := by
  simp only [clearOverrides, requestDeed, Ledger.perform]
  cases h : (m.engine.policy.clearOverrides m.around.disk).result with
  | ok n => simp [Except.isOk, Except.toBool]; rfl
  | error e => simp [Except.isOk, Except.toBool]

theorem ledger_acknowledge (m : Monitor) (t : Ticket) :
    (m.acknowledge t).ledger = m.ledger.perform (m.requestDeed .acknowledge) := by
  simp only [acknowledge, requestDeed]
  cases m.engine.log.records.head? with
  | none => rfl
  | some newest =>
    simp only [ledger_answer, ledger_publish]
    simp only [Ledger.perform, ledger, update]

theorem ledger_refresh (m : Monitor) (t : Ticket) :
    (m.refresh t).ledger = m.ledger.perform .reload := by
  have h : (m.refresh t).ledger = (m.reloadAll.registerAll.followLog.publish).ledger := by
    simp only [refresh, ledger]
  rw [h, ledger_publish, ledger_followLog, ledger_registerAll, ledger_reloadAll]
  rfl

/-- Ending answers requests, which the ledger does not tell of. -/
theorem ledger_close (m : Monitor) : m.close.ledger = m.ledger.perform .close := by
  rw [close_eq]
  simp [ledger, Ledger.perform, Output.expired?]

theorem ledger_handleRequest (m : Monitor) (t : Ticket) (r : Request) :
    (m.handleRequest t r).ledger = m.ledger.perform (m.requestDeed r) := by
  cases r with
  | refresh => exact ledger_refresh m t
  | acknowledge => exact ledger_acknowledge m t
  | requestOverride text => exact ledger_requestOverride m text t
  | removeOverride text => exact ledger_removeOverride m text t
  | clearOverrides => exact ledger_clearOverrides m t
  | restartDaemon => rfl
  | shutdown => simp [handleRequest, ledger_close, requestDeed]

/-- What is left of the ledger after the edit `e` that was to take an override back. -/
theorem ledger_revoked (m : Monitor) (path : String) (e : PolicyStore.Edit Bool) (o : Outcome)
    (failed : OsError → Outcome) :
    (match e.result with
      | .ok true => ((m.adopt e).tell (.overrideExpired path)).report o
      | .ok false => m.adopt e
      | .error cause => (m.adopt e).report (failed cause)).ledger =
    { m.ledger.adopt e with
      told := match e.result with
        | .ok true => (m.around.now, path) :: m.ledger.told
        | _ => m.ledger.told } := by
  cases e.result with
  | ok b => cases b <;> simp only [ledger_report] <;> rfl
  | error cause => simp only [ledger_report]; rfl

theorem ledger_expireOverride (m : Monitor) (path : String) (generation : Nat) (rest : List Event)
    (h : m.events = .overrideExpired path generation :: rest) :
    ({ m with events := rest }.expireOverride path generation).ledger =
      m.ledger.perform (m.eventDeed (.overrideExpired path generation)) := by
  have hf : m.ledger.fired.tail = rest.filterMap Event.firing? := by
    simp [ledger, h, Event.firing?]
  simp only [expireOverride, eventDeed, KeyedTimers.complete]
  by_cases hg : m.engine.expiry.generation? path = some generation
  · simp only [hg, if_true, Ledger.perform, hf]
    exact ledger_revoked _ path _ _ editFailed
  · simp only [hg, if_false, Ledger.perform, hf]
    rfl

theorem ledger_helperFinished (m : Monitor) (path : String) (result : Except ControlError Unit)
    (t : Ticket) :
    (m.helperFinished path result t).ledger =
      m.ledger.perform (m.eventDeed (.helperFinished path result t)) := by
  cases result with
  | error e => simp [helperFinished, eventDeed, Ledger.perform]
  | ok u =>
    simp only [helperFinished, ledger_conclude, ledger_scheduleExpiry, ledger_reload, if_true,
      eventDeed, Ledger.perform]
    rfl

/-- An event that tells of no firing is handled like any other change of the ledger. -/
theorem ledger_handleEvent_of_firing?_eq_none (m : Monitor) (e : Event) (h : e.firing? = none) :
    (m.handleEvent e).ledger = m.ledger.perform (m.eventDeed e) := by
  cases e with
  | changed source =>
    simp only [handleEvent, ledger_publish, ledger_reload]
    cases source <;> rfl
  | logLines lines =>
    simp only [handleEvent, ledger_publish]
    simp only [ledger, update, Engine.receive, eventDeed, Ledger.perform]
  | runningState running t => simp only [handleEvent, ledger_answer, ledger_publish]; rfl
  | overrideExpired path generation => simp [Event.firing?] at h
  | outcomeExpired generation =>
    simp only [handleEvent]
    split
    · rfl
    · simp only [ledger_publish]; rfl
  | helperFinished path result t => exact ledger_helperFinished m path result t
  | restartFinished result running t => simp only [handleEvent, ledger_conclude]; rfl

theorem ledger_takeEvent (m : Monitor) : m.takeEvent.ledger = m.ledger.perform (m.deed .takeEvent) := by
  simp only [takeEvent, deed]
  cases h : m.events with
  | nil => rfl
  | cons e rest =>
    cases hf : e.firing? with
    | some x =>
      cases e with
      | overrideExpired path generation => exact ledger_expireOverride m path generation rest h
      | _ => simp [Event.firing?] at hf
    | none =>
      have hl : { m with events := rest }.ledger = m.ledger := by
        simp [ledger, h, hf]
      exact (ledger_handleEvent_of_firing?_eq_none _ e hf).trans (by rw [hl]; rfl)

theorem ledger_takeRequest (m : Monitor) :
    m.takeRequest.ledger = m.ledger.perform (m.deed .takeRequest) := by
  simp only [takeRequest, deed]
  cases m.requests with
  | nil => rfl
  | cons x rest => exact ledger_handleRequest _ x.1 x.2

/-! ## Everything else that goes on -/

theorem ledger_post (m : Monitor) (e : Event) :
    (m.post e).ledger =
      { m.ledger with
        fired := m.ledger.fired ++ if m.running then e.firing?.toList else [] } := by
  cases hr : m.running <;> cases hf : e.firing? <;> simp [post, ledger, hr, hf]

theorem ledger_post_of_firing?_eq_none (m : Monitor) (e : Event) (h : e.firing? = none) :
    (m.post e).ledger = m.ledger := by
  simp [ledger_post, h]

theorem ledger_send (m : Monitor) (r : Request) : (m.send r).ledger = m.ledger := by
  simp only [send]
  split <;> rfl

/-- No errand ends in the firing of a timer. -/
theorem firing?_of_finish {restartSettle now : Nat} {errand : Errand} {a : Errand.Answer}
    {e : Event} (h : errand.finish restartSettle now a = .inl e) : e.firing? = none := by
  cases errand <;> cases a <;> simp only [Errand.finish, reduceCtorEq, Sum.inl.injEq] at h <;>
    subst h <;> rfl

theorem ledger_finishErrand (m : Monitor) (i : Nat) (a : Errand.Answer) :
    (m.finishErrand i a).ledger = m.ledger := by
  simp only [finishErrand]
  split
  · rfl
  · split
    · next h => rw [ledger_post_of_firing?_eq_none _ _ (firing?_of_finish h)]; rfl
    · rfl

theorem ledger_endWait (m : Monitor) (i : Nat) : (m.endWait i).ledger = m.ledger := by
  simp only [endWait]
  split
  · split <;> rfl
  · rfl

theorem ledger_runWatch (m : Monitor) (i : Nat) (eager : Bool) :
    (m.runWatch i eager).ledger = m.ledger := by
  simp only [runWatch]
  split
  · rfl
  · rw [ledger_post_of_firing?_eq_none _ _ rfl]; rfl

theorem ledger_runReader (m : Monitor) (i : Nat) : (m.runReader i).ledger = m.ledger := by
  simp only [runReader]
  split
  · rfl
  · rw [ledger_post_of_firing?_eq_none _ _ rfl]; rfl

theorem ledger_fireOutcome (m : Monitor) (g : Nat) : (m.fireOutcome g).ledger = m.ledger := by
  simp only [fireOutcome]
  split
  · rfl
  · rw [ledger_post_of_firing?_eq_none _ _ rfl]; rfl

theorem ledger_fireExpiry (m : Monitor) (g : Nat) :
    (m.fireExpiry g).ledger = m.ledger.perform (.fire g) := by
  simp only [fireExpiry, Ledger.perform]
  have he : m.ledger.expiry.wake g m.ledger.now = m.engine.expiry.wake g m.around.now := rfl
  rw [he]
  cases (m.engine.expiry.wake g m.around.now).1 with
  | none => cases hr : m.running <;> simp [ledger, update, hr]
  | some s => rw [ledger_post]; rfl

/-- The ledger after an action is the one that its deed leaves. -/
theorem ledger_act (m : Monitor) (a : Action) :
    (m.act a).ledger = m.ledger.perform (m.deed a) := by
  cases a with
  | change c => rfl
  | refuseWatches b => rfl
  | signal path s => rfl
  | send r => exact ledger_send m r
  | release => rfl
  | pass span => rfl
  | finish i a => exact ledger_finishErrand m i a
  | runWatch i eager => exact ledger_runWatch m i eager
  | runReader i => exact ledger_runReader m i
  | fireExpiry g => exact ledger_fireExpiry m g
  | fireOutcome g => exact ledger_fireOutcome m g
  | endWait i => exact ledger_endWait m i
  | takeRequest => exact ledger_takeRequest m
  | takeEvent => exact ledger_takeEvent m
  | retire =>
    simp only [act, deed]
    split
    · exact ledger_close m
    · rfl

/-- The deed of a request can come next. -/
theorem allows_requestDeed (m : Monitor) (r : Request) : m.ledger.Allows (m.requestDeed r) := by
  cases r with
  | acknowledge =>
    simp only [requestDeed]
    split <;> trivial
  | requestOverride text =>
    simp only [requestDeed]
    split
    · trivial
    · rfl
  | removeOverride text => exact rfl
  | clearOverrides => exact rfl
  | refresh => trivial
  | restartDaemon => trivial
  | shutdown => trivial

/-- The deed of an action can come next. -/
theorem allows_deed (m : Monitor) (a : Action) : m.ledger.Allows (m.deed a) := by
  cases a with
  | takeRequest =>
    simp only [deed]
    split
    · trivial
    · exact allows_requestDeed m _
  | takeEvent =>
    simp only [deed]
    split
    · trivial
    · next e rest h =>
      cases e with
      | overrideExpired path g =>
        have hf : m.ledger.fired.head? = some (path, g) := by simp [ledger, h, Event.firing?]
        simp only [eventDeed]
        split
        · next hg => exact ⟨rfl, g, hf, hg⟩
        · next hg => exact ⟨path, g, hf, hg⟩
      | changed source => cases source <;> trivial
      | helperFinished path result t => cases result <;> trivial
      | _ => trivial
  | retire =>
    simp only [deed]
    split <;> trivial
  | _ => trivial

/-- Files are changed by others, and where the user takes note of a record, whose identity is saved. -/
theorem files_of_deed {m : Monitor} {a : Action} {disk : Disk} (h : m.deed a = .files disk) :
    (∃ c, a = .change c ∧ disk = (m.around.disk.apply c).1) ∨
      ∃ t rest newest, a = .takeRequest ∧ m.requests = (t, .acknowledge) :: rest ∧
        m.engine.log.records.head? = some newest ∧
        disk = (Acknowledgement.save m.around.disk m.settings.paths.state newest.id).1 := by
  cases a with
  | change c => exact .inl ⟨c, rfl, (Deed.files.inj h).symm⟩
  | takeRequest =>
    simp only [deed] at h
    split at h
    · cases h
    · next t r rest hrequests =>
      cases r with
      | acknowledge =>
        simp only [requestDeed] at h
        split at h
        · cases h
        · next newest hnewest =>
          exact .inr ⟨t, rest, newest, rfl, hrequests, hnewest, (Deed.files.inj h).symm⟩
      | requestOverride text =>
        simp only [requestDeed] at h
        split at h <;> cases h
      | _ => cases h
  | takeEvent =>
    simp only [deed] at h
    split at h
    · cases h
    · next e rest _ =>
      cases e with
      | changed source => cases source <;> cases h
      | overrideExpired path generation =>
        simp only [eventDeed] at h
        split at h <;> cases h
      | helperFinished path result t => cases result <;> cases h
      | _ => cases h
  | retire =>
    simp only [deed] at h
    split at h <;> cases h
  | _ => cases h

/-! ## The start -/

/-- The ledger of a monitor that has just started: the policy is the one in its file, and there are
no timers yet. -/
theorem ledger_start (settings : Settings) (around : Surroundings) (daemonRuns : Bool) :
    (start settings around daemonRuns).ledger =
      { settings
        store := (PolicyStore.new settings.paths.policy).reload around.disk
        disk := around.disk
        now := around.now
        expiry := .empty
        fired := []
        told := []
        running := true } := by
  simp only [start, startSteps, Source.all, List.map_cons, List.map_nil, List.cons_append,
    List.nil_append, List.foldl_cons, List.foldl_nil, startStep, ledger_publish, ledger_followLog,
    ledger_registerAll]
  have h (m : Monitor) (b : Bool) :
      (m.update fun e => { e with daemonRunning := b }).ledger = m.ledger := rfl
  rw [h]
  simp only [ledger_reload, reduceCtorEq, if_false, if_true]
  rfl

end Monitor

end DenialMonitor
