import DenialMonitor.Proofs.Overrides.Guard
import Mathlib.Data.List.Perm.Basic

set_option autoImplicit false

/-!
# What becomes of requests

A request waits in its queue, then perhaps an errand is run for it and an event comes back, and in
the end it is answered. The docket is the part of a monitor that tells how far each request has
come. As long as the monitor runs, every request that was sent is in exactly one place: it is in
flight, or it was answered, and never twice.

## Main definitions

* `Monitor.replies` — the answers that were given.
* `Docket` — the part of a monitor that says what becomes of requests; `Monitor.docket` reads it
  off.
* `Docket.Step` — what an action can do to the docket.
* `Docket.Accounted` — every request is in one place.

## Main results

* `Monitor.step_act` — what an action of a monitor that runs does to its docket.
* `Monitor.accounted_actAll_start` — every request is in one place after every run.
-/

namespace DenialMonitor

/-- The answer that an output gives, with its request. -/
def Output.reply? : Output → Option (Ticket × Reply)
  | .reply t r => some (t, r)
  | _ => none

/-- The part of a monitor that says what becomes of requests. -/
structure Docket where
  /-- The requests that have not been handled, oldest first. -/
  requests : List (Ticket × Request)
  errands : List Errand
  /-- The events that have not been handled, oldest first. -/
  events : List Event
  /-- The answers that were given, latest first. -/
  replies : List (Ticket × Reply)
  /-- How many requests were sent. -/
  sent : Nat

namespace Docket

/-- The requests that have not been answered. -/
def inFlight (d : Docket) : List Ticket :=
  d.requests.map (·.1) ++ d.errands.map Errand.ticket ++ d.events.filterMap Event.ticket?

/-- Answers a request. -/
def answer (d : Docket) (t : Ticket) (r : Reply) : Docket :=
  { d with replies := (t, r) :: d.replies }

/-- Has an errand run. -/
def assign (d : Docket) (errand : Errand) : Docket :=
  { d with errands := d.errands ++ [errand] }

/-- A request is handled: it is answered, or an errand is run for it. No request but the one to shut
down is answered by a shutdown. -/
inductive Handles (d : Docket) (t : Ticket) : Docket → Prop where
  | answer (r : Reply) (h : r ≠ .stopped) : Handles d t (d.answer t r)
  | assign (errand : Errand) (h : errand.ticket = t) : Handles d t (d.assign errand)

/-- What an action can do to the docket of a monitor that runs. -/
inductive Step (d : Docket) : Docket → Prop where
  | idle : Step d d
  /-- A request is sent. -/
  | send (r : Request) :
    Step d { d with requests := d.requests ++ [(d.sent, r)], sent := d.sent + 1 }
  /-- An event is queued that belongs to no request. -/
  | queue (e : Event) (h : e.ticket? = none) : Step d { d with events := d.events ++ [e] }
  /-- An errand ends in an event. -/
  | finish (i : Nat) (errand : Errand) (e : Event) (hi : d.errands[i]? = some errand)
    (h : e.ticket? = some errand.ticket) :
    Step d { d with errands := d.errands.eraseIdx i, events := d.events ++ [e] }
  /-- An errand is followed by another one. -/
  | follow (i : Nat) (errand next : Errand) (hi : d.errands[i]? = some errand)
    (h : next.ticket = errand.ticket) : Step d { d with errands := d.errands.set i next }
  /-- A request is taken. -/
  | takeRequest (t : Ticket) (r : Request) (rest : List (Ticket × Request))
    (h : d.requests = (t, r) :: rest) (d' : Docket)
    (hd' : { d with requests := rest }.Handles t d') : Step d d'
  /-- An event is taken that belongs to a request. -/
  | takeEvent (e : Event) (rest : List Event) (h : d.events = e :: rest) (t : Ticket)
    (ht : e.ticket? = some t) (d' : Docket) (hd' : { d with events := rest }.Handles t d') :
    Step d d'
  /-- An event is taken that belongs to no request. -/
  | drop (e : Event) (rest : List Event) (h : d.events = e :: rest) (ht : e.ticket? = none) :
    Step d { d with events := rest }

/-- Every request that was sent is in one place: in flight or answered. The monitor has not answered
that it has shut down. -/
structure Accounted (d : Docket) : Prop where
  tickets : (d.inFlight ++ d.replies.map (·.1)).Perm (List.range d.sent)
  not_stopped : ∀ x ∈ d.replies, x.2 ≠ .stopped

end Docket

namespace Monitor

/-- The answers that were given, latest first. -/
def replies (m : Monitor) : List (Ticket × Reply) :=
  m.outputs.filterMap (·.2.reply?)

/-- The docket of a monitor. -/
def docket (m : Monitor) : Docket :=
  { requests := m.requests
    errands := m.errands
    events := m.events
    replies := m.replies
    sent := m.sent }

variable {m : Monitor} {a : Action}

/-! ## What leaves the docket alone -/

@[simp]
theorem docket_update (m : Monitor) (f : Engine → Engine) : (m.update f).docket = m.docket :=
  rfl

/-- An output that answers no request leaves the docket alone. -/
theorem docket_tell (m : Monitor) {o : Output} (h : o.reply? = none) :
    (m.tell o).docket = m.docket := by
  simp [docket, replies, tell, h]

@[simp]
theorem docket_answer (m : Monitor) (t : Ticket) (r : Reply) :
    (m.answer t r).docket = m.docket.answer t r :=
  rfl

@[simp]
theorem docket_publish (m : Monitor) : m.publish.docket = m.docket := by
  unfold publish
  split
  · rfl
  · rw [docket_tell _ rfl, docket_update]

@[simp]
theorem docket_report (m : Monitor) (o : Outcome) : (m.report o).docket = m.docket := by
  simp [report]

@[simp]
theorem docket_conclude (m : Monitor) (t : Ticket) (o : Outcome) :
    (m.conclude t o).docket = m.docket.answer t (.outcome o) := by
  simp [conclude]

@[simp]
theorem docket_reload (m : Monitor) (source : Source) : (m.reload source).docket = m.docket := by
  cases source with
  | denials =>
    simp only [reload]
    split
    · rfl
    · rw [docket_tell _ rfl, docket_update]
  | _ => rfl

@[simp]
theorem docket_register (m : Monitor) (source : Source) :
    (m.register source).docket = m.docket := by
  simp only [register]
  split <;> rfl

@[simp]
theorem docket_followLog (m : Monitor) : m.followLog.docket = m.docket := by
  simp only [followLog]
  split <;> rfl

@[simp]
theorem docket_adopt {α : Type} (m : Monitor) (e : PolicyStore.Edit α) :
    (m.adopt e).docket = m.docket :=
  rfl

@[simp]
theorem docket_scheduleExpiry (m : Monitor) (path : String) :
    (m.scheduleExpiry path).docket = m.docket := by
  unfold scheduleExpiry
  split <;> rfl

@[simp]
theorem docket_cancelExpiry (m : Monitor) (path : String) :
    (m.cancelExpiry path).docket = m.docket :=
  rfl

/-! ## Requests and events -/

/-- The outcome of an operation answers its request. -/
theorem handles_conclude {m' : Monitor} (h : m'.docket = m.docket) (t : Ticket) (o : Outcome) :
    m.docket.Handles t (m'.conclude t o).docket := by
  rw [docket_conclude, h]
  exact .answer _ (by simp)

theorem handles_requestOverride (m : Monitor) (text : String) (t : Ticket) :
    m.docket.Handles t (m.requestOverride text t).docket := by
  simp only [requestOverride]
  split
  · exact handles_conclude rfl ..
  · split
    · exact handles_conclude rfl ..
    · split
      · exact .assign _ rfl
      · simp only [applyOverride]
        split <;> exact handles_conclude (by simp) ..

theorem handles_refresh (m : Monitor) (t : Ticket) : m.docket.Handles t (m.refresh t).docket := by
  have hloaded : m.reloadAll.registerAll.followLog.publish.docket = m.docket := by
    simp [reloadAll, registerAll, Source.all]
  have hrefresh : (m.refresh t).docket =
      m.reloadAll.registerAll.followLog.publish.docket.assign (.inspect t) := by
    simp only [refresh, docket, replies, Docket.assign]
  rw [hrefresh, hloaded]
  exact .assign _ rfl

theorem handles_acknowledge (m : Monitor) (t : Ticket) :
    m.docket.Handles t (m.acknowledge t).docket := by
  simp only [acknowledge]
  cases m.engine.log.records.head? with
  | none => exact .answer _ (by simp)
  | some newest =>
    rw [docket_answer, docket_publish, docket_update]
    simp only [docket, replies]
    exact .answer _ (by simp)

/-- Every request but the one to shut down is answered, or an errand is run for it. -/
theorem handles_handleRequest (m : Monitor) (t : Ticket) {r : Request} (h : r ≠ .shutdown) :
    m.docket.Handles t (m.handleRequest t r).docket := by
  cases r with
  | refresh => exact handles_refresh m t
  | acknowledge => exact handles_acknowledge m t
  | requestOverride text => exact handles_requestOverride m text t
  | removeOverride text =>
    simp only [handleRequest, removeOverride]
    split <;> exact handles_conclude (by simp) ..
  | clearOverrides =>
    simp only [handleRequest, clearOverrides]
    split <;> exact handles_conclude (by simp) ..
  | restartDaemon => exact .assign _ rfl
  | shutdown => exact absurd rfl h

/-- An event that belongs to a request answers it. -/
theorem handles_handleEvent (m : Monitor) {e : Event} {t : Ticket} (h : e.ticket? = some t) :
    m.docket.Handles t (m.handleEvent e).docket := by
  cases e with
  | runningState running t' =>
    obtain rfl : t' = t := Option.some.inj h
    simp only [handleEvent, docket_answer, docket_publish, docket_update]
    exact .answer _ (by simp)
  | helperFinished path result t' =>
    obtain rfl : t' = t := Option.some.inj h
    cases result <;> exact handles_conclude (by simp [docket_reload]) ..
  | restartFinished result running t' =>
    obtain rfl : t' = t := Option.some.inj h
    exact handles_conclude (docket_update m _) ..
  | _ => simp [Event.ticket?] at h

theorem docket_expireOverride (m : Monitor) (path : String) (generation : Nat) :
    (m.expireOverride path generation).docket = m.docket := by
  simp only [expireOverride]
  split
  · rfl
  · split
    · rw [docket_report, docket_tell _ rfl, docket_adopt, docket_update]
    · rfl
    · rw [docket_report, docket_adopt, docket_update]

/-- An event that belongs to no request answers none. -/
theorem docket_handleEvent (m : Monitor) {e : Event} (h : e.ticket? = none) :
    (m.handleEvent e).docket = m.docket := by
  cases e with
  | changed source => simp only [handleEvent, docket_publish, docket_reload]
  | logLines lines => simp only [handleEvent, docket_publish, docket_update]
  | overrideExpired path generation => exact docket_expireOverride m path generation
  | outcomeExpired generation =>
    simp only [handleEvent]
    split
    · rfl
    · rw [docket_publish, docket_update]
  | _ => simp [Event.ticket?] at h

/-! ## Actions -/

theorem docket_post (h : m.running) (e : Event) :
    (m.post e).docket = { m.docket with events := m.docket.events ++ [e] } := by
  simp only [post, h, if_true]
  rfl

/-- An event that belongs to no request is queued. -/
theorem step_post {m' : Monitor} (hm' : m'.docket = m.docket) (hrun : m'.running) {e : Event}
    (he : e.ticket? = none) : m.docket.Step (m'.post e).docket := by
  rw [docket_post hrun, hm']
  exact .queue e he

/-- The end of an errand belongs to its request. -/
theorem ticket?_of_finish {restartSettle now : Nat} {errand : Errand} {answer : Errand.Answer}
    {e : Event} (h : errand.finish restartSettle now answer = .inl e) :
    e.ticket? = some errand.ticket := by
  cases errand <;> cases answer <;>
    simp only [Errand.finish, reduceCtorEq, Sum.inl.injEq] at h <;> subst h <;> rfl

/-- An errand that follows another one is run for the same request. -/
theorem ticket_of_finish {restartSettle now : Nat} {errand next : Errand} {answer : Errand.Answer}
    (h : errand.finish restartSettle now answer = .inr next) : next.ticket = errand.ticket := by
  cases errand <;> cases answer <;>
    simp only [Errand.finish, reduceCtorEq, Sum.inr.injEq] at h <;> subst h <;> rfl

theorem step_finishErrand (h : m.running) (i : Nat) (answer : Errand.Answer) :
    m.docket.Step (m.finishErrand i answer).docket := by
  simp only [finishErrand]
  split
  · exact .idle
  · next errand hi =>
    split
    · next e he =>
      rw [docket_post (m := { m with errands := m.errands.eraseIdx i }) h]
      exact .finish i errand e hi (ticket?_of_finish he)
    · next next hnext => exact .follow i errand next hi (ticket_of_finish hnext)

theorem step_endWait (m : Monitor) (i : Nat) : m.docket.Step (m.endWait i).docket := by
  simp only [endWait]
  split
  · next result due t hi =>
    split
    · exact .follow i (.settle result due t) (.confirm result t) hi rfl
    · exact .idle
  · exact .idle

theorem step_takeRequest (h : m.deed .takeRequest ≠ .close) :
    m.docket.Step (m.act .takeRequest).docket := by
  cases hrequests : m.requests with
  | nil =>
    simp only [act, takeRequest, hrequests]
    exact .idle
  | cons x rest =>
    obtain ⟨t, r⟩ := x
    have hshutdown : r ≠ .shutdown := by
      rintro rfl
      simp [deed, hrequests, requestDeed] at h
    have hhandles := handles_handleRequest { m with requests := rest } t hshutdown
    simp only [act, takeRequest, hrequests]
    exact .takeRequest t r rest hrequests _ hhandles

theorem step_takeEvent (m : Monitor) : m.docket.Step (m.act .takeEvent).docket := by
  cases hevents : m.events with
  | nil =>
    simp only [act, takeEvent, hevents]
    exact .idle
  | cons e rest =>
    simp only [act, takeEvent, hevents]
    cases ht : e.ticket? with
    | none =>
      rw [docket_handleEvent _ ht]
      exact .drop e rest hevents ht
    | some t =>
      have hhandles := handles_handleEvent { m with events := rest } ht
      exact .takeEvent e rest hevents t ht _ hhandles

/-- What an action of a monitor that runs does to its docket. -/
theorem step_act (hrun : (m.act a).running) : m.docket.Step (m.act a).docket := by
  obtain ⟨hnow, hclose⟩ := deed_ne_close hrun
  cases a with
  | send r =>
    simp only [act, send, hnow, if_true]
    exact .send r
  | finish i answer => exact step_finishErrand hnow i answer
  | runWatch i eager =>
    simp only [act, runWatch]
    split
    · exact .idle
    · exact step_post (by rfl) (by exact hnow) (by rfl)
  | runReader i =>
    simp only [act, runReader]
    split
    · exact .idle
    · exact step_post (by rfl) (by exact hnow) (by rfl)
  | fireExpiry generation =>
    simp only [act, fireExpiry]
    split
    · exact .idle
    · exact step_post (by rfl) (by exact hnow) (by rfl)
  | fireOutcome generation =>
    simp only [act, fireOutcome]
    split
    · exact .idle
    · exact step_post (by rfl) (by exact hnow) (by rfl)
  | endWait i => exact step_endWait m i
  | takeRequest => exact step_takeRequest hclose
  | takeEvent => exact step_takeEvent m
  | retire =>
    simp only [act]
    split
    · next habandoned => simp [deed, habandoned] at hclose
    · exact .idle
  | _ => exact .idle

end Monitor

/-! ## Every request is in one place -/

namespace Docket

variable {d d' : Docket} {t : Ticket}

/-- The request that is handled is in flight again or answered. -/
theorem Handles.tickets (h : d.Handles t d') :
    (d'.inFlight ++ d'.replies.map (·.1)).Perm (t :: (d.inFlight ++ d.replies.map (·.1))) := by
  cases h with
  | answer r h => exact List.perm_middle
  | assign errand h =>
    rw [List.perm_iff_count]
    intro x
    simp only [inFlight, Docket.assign, List.map_append, List.map_cons, List.map_nil, h,
      List.count_append, List.count_cons, List.count_nil]
    omega

theorem Handles.sent (h : d.Handles t d') : d'.sent = d.sent := by
  cases h <;> rfl

theorem Handles.not_stopped (h : d.Handles t d') (hd : ∀ x ∈ d.replies, x.2 ≠ .stopped) :
    ∀ x ∈ d'.replies, x.2 ≠ .stopped := by
  cases h with
  | answer r h => exact List.forall_mem_cons.mpr ⟨h, hd⟩
  | assign errand h => exact hd

/-- An action leaves every request in one place. -/
theorem Accounted.step (h : d.Accounted) (hd' : d.Step d') : d'.Accounted := by
  obtain ⟨htickets, hstopped⟩ := h
  cases hd' with
  | idle => exact ⟨htickets, hstopped⟩
  | send r =>
    refine ⟨?_, hstopped⟩
    rw [List.range_succ]
    refine List.Perm.trans ?_ (htickets.append_right [d.sent])
    rw [List.perm_iff_count]
    intro x
    simp only [inFlight, List.map_append, List.map_cons, List.map_nil, List.count_append]
    omega
  | queue e he =>
    refine ⟨?_, hstopped⟩
    simpa [inFlight, he] using htickets
  | finish i errand e hi he =>
    refine ⟨List.Perm.trans ?_ htickets, hstopped⟩
    obtain ⟨hlt, rfl⟩ := List.getElem?_eq_some_iff.mp hi
    have herase := (List.getElem_cons_eraseIdx_perm hlt).map Errand.ticket
    rw [List.perm_iff_count] at herase ⊢
    intro x
    have hx := herase x
    simp [inFlight, he, List.count_cons] at hx ⊢
    omega
  | follow i errand next hi hnext =>
    refine ⟨?_, hstopped⟩
    obtain ⟨hlt, rfl⟩ := List.getElem?_eq_some_iff.mp hi
    have hsame : (d.errands.set i next).map Errand.ticket = d.errands.map Errand.ticket := by
      rw [List.map_set, hnext, ← List.getElem_map Errand.ticket (h := by simpa using hlt),
        List.set_getElem_self]
    simpa only [inFlight, hsame] using htickets
  | takeRequest t r rest hrequests d' hhandles =>
    refine ⟨?_, hhandles.not_stopped hstopped⟩
    rw [hhandles.sent]
    refine hhandles.tickets.trans (List.Perm.trans (List.Perm.of_eq ?_) htickets)
    simp [inFlight, hrequests]
  | takeEvent e rest hevents t ht d' hhandles =>
    refine ⟨?_, hhandles.not_stopped hstopped⟩
    rw [hhandles.sent]
    refine hhandles.tickets.trans (List.Perm.trans ?_ htickets)
    rw [List.perm_iff_count]
    intro x
    simp [inFlight, hevents, ht, List.count_cons]
    omega
  | drop e rest hevents ht =>
    refine ⟨?_, hstopped⟩
    simpa [inFlight, hevents, ht] using htickets

end Docket

namespace Monitor

variable {m : Monitor}

/-- As long as the monitor runs, every request stays in one place. -/
theorem accounted_actAll {actions : List Action} (h : m.docket.Accounted)
    (hrun : (m.actAll actions).running) : (m.actAll actions).docket.Accounted := by
  induction actions generalizing m with
  | nil => exact h
  | cons a actions ih =>
    have hact : (m.act a).running := running_of_running_actAll hrun
    exact ih (h.step (step_act hact)) hrun

/-- A monitor that has just started has no requests. -/
theorem docket_start (settings : Settings) (around : Surroundings) (daemonRuns : Bool) :
    (start settings around daemonRuns).docket = ⟨[], [], [], [], 0⟩ := by
  simp only [start, startSteps, Source.all, List.map_cons, List.map_nil, List.cons_append,
    List.nil_append, List.foldl_cons, List.foldl_nil, startStep, registerAll, docket_publish,
    docket_followLog, docket_register, docket_update, docket_reload]
  rfl

/-- After every run of a monitor that still runs, every request is in one place. -/
theorem accounted_actAll_start {settings : Settings} {around : Surroundings} {daemonRuns : Bool}
    {actions : List Action} (hrun : ((start settings around daemonRuns).actAll actions).running) :
    ((start settings around daemonRuns).actAll actions).docket.Accounted := by
  refine accounted_actAll ?_ hrun
  rw [docket_start]
  exact ⟨List.Perm.refl _, by simp⟩

end Monitor

end DenialMonitor
