import DenialMonitor.Proofs.Overrides.Failure

set_option autoImplicit false

/-!
# The board with the outcome

Requests, helpers, restarts and overrides whose time is over report outcomes. The board is the part
of a monitor that outcomes are about: the outcome in memory, its timer with the firings that are
queued, and the answers that requests were given. Every action of the monitor does one thing to the
board, and this thing alone says what becomes of it.

## Main definitions

* `Board` — the part of a monitor that outcomes are about; `Monitor.board` reads it off.
* `Posting` — what an action does to it; `Monitor.posting` tells which one.
* `Monitor.requestOutcome?`, `Monitor.eventOutcome?` — the outcomes that are reported.
* `Board.perform` — the board after a posting.

## Main results

* `Monitor.board_act` — the board after an action is the one that its posting leaves.
* `Monitor.allows_posting` — the posting of an action can come next.
* `Monitor.board_start` — the board of a monitor that has just started.
-/

namespace DenialMonitor

/-- The outcome that an output answers a request with. -/
def Output.outcome? : Output → Option (Ticket × Outcome)
  | .reply t (.outcome o) => some (t, o)
  | _ => none

/-- The firing of an outcome's timer that an event tells of. -/
def Event.outcomeFiring? : Event → Option Nat
  | .outcomeExpired generation => some generation
  | _ => none

/-- The part of a monitor that outcomes are about. -/
structure Board where
  outcome : Option Outcome
  timer : KeyedTimers Unit
  /-- The firings of outcome timers that have not been handled, oldest first. -/
  fired : List Nat
  /-- The outcomes that requests were answered with, latest first. -/
  answers : List (Ticket × Outcome)
  /-- How long an outcome is shown. -/
  ttl : Nat
  now : Nat
  running : Bool

/-- What an action does to the board. -/
inductive Posting where
  | nothing
  | pass (span : Nat)
  /-- An outcome is reported, to the request `caller` if there is one. -/
  | report (caller : Option Ticket) (o : Outcome)
  /-- The timer with a generation fires. -/
  | fire (generation : Nat)
  /-- The oldest firing is handled. -/
  | expire (generation : Nat)
  /-- The monitor ends. -/
  | close

/-- What is done to the board where perhaps an outcome is reported. -/
def Posting.ofOutcome? (caller : Option Ticket) : Option Outcome → Posting
  | none => .nothing
  | some o => .report caller o

namespace Board

/-- The board after a posting. -/
def perform (b : Board) : Posting → Board
  | .nothing => b
  | .pass span => { b with now := b.now + span }
  | .report caller o =>
    { b with
      outcome := some o
      timer := (b.timer.schedule () (dueAfter b.now b.ttl)).2
      answers := (caller.map (·, o)).toList ++ b.answers }
  | .fire generation =>
    let (s, timer) := b.timer.wake generation b.now
    let new := if b.running then (s.map (·.generation)).toList else []
    { b with timer, fired := b.fired ++ new }
  | .expire generation =>
    if b.timer.generation? () = some generation then
      { b with outcome := none, timer := b.timer.release (), fired := b.fired.tail }
    else { b with fired := b.fired.tail }
  | .close => { b with timer := b.timer.cancelAll, fired := [], running := false }

/-- Whether a posting can come next: a firing that is handled is the oldest one. -/
def Allows (b : Board) : Posting → Prop
  | .expire generation => b.fired.head? = some generation
  | _ => True

end Board

namespace Monitor

/-- The board of a monitor. -/
def board (m : Monitor) : Board :=
  { outcome := m.engine.outcome
    timer := m.engine.outcomeTimer
    fired := m.events.filterMap Event.outcomeFiring?
    answers := m.outputs.filterMap (·.2.outcome?)
    ttl := m.settings.outcomeTtl
    now := m.around.now
    running := m.running }

theorem running_board (m : Monitor) : m.board.running = m.running :=
  rfl

/-! ## Reports -/

/-- The outcome of a request, if it is known at once. -/
def requestOutcome? (m : Monitor) : Request → Option Outcome
  | .requestOverride text =>
    let path := Text.trim text
    if path = "" then some (.failed "Override path is empty")
    else if !Path.isAbsolute path then some (.failed ("Override path must be absolute: " ++ path))
    else if m.settings.daemon.overrideHelper.isSome then none
    else some (additionOutcome path (m.engine.policy.addOverride m.around.disk path).result)
  | .removeOverride text =>
    some (removalOutcome text
      (m.engine.policy.removeOverride m.around.disk (Text.trim text)).result)
  | .clearOverrides =>
    some (clearanceOutcome (m.engine.policy.clearOverrides m.around.disk).result)
  | _ => none

/-- What is said of an override whose time is over. -/
def expiryOutcome? (path : String) : Except OsError Bool → Option Outcome
  | .ok true =>
    some (.succeeded ("Override for " ++ Path.displayName path ++ " expired; protected again"))
  | .ok false => none
  | .error cause => some (editFailed cause)

/-- The outcome that an event leads to. -/
def eventOutcome? (m : Monitor) : Event → Option Outcome
  | .helperFinished path (.ok ()) _ => some (allowed path)
  | .helperFinished _ (.error e) _ => some (helperFailed e)
  | .restartFinished result running _ => some (restarted result running)
  | .overrideExpired path generation =>
    if m.engine.expiry.generation? path = some generation then
      expiryOutcome? path (m.engine.policy.removeOverride m.around.disk path).result
    else none
  | _ => none

/-- What a request does to the board. -/
def requestPosting (m : Monitor) (t : Ticket) : Request → Posting
  | .shutdown => .close
  | r => .ofOutcome? (some t) (m.requestOutcome? r)

/-- What an event does to the board. -/
def eventPosting (m : Monitor) : Event → Posting
  | .outcomeExpired generation => .expire generation
  | e => .ofOutcome? e.ticket? (m.eventOutcome? e)

/-- What an action does to the board. -/
def posting (m : Monitor) : Action → Posting
  | .pass span => .pass span
  | .fireOutcome generation => .fire generation
  | .takeRequest =>
    match m.requests with
    | [] => .nothing
    | (t, r) :: _ => m.requestPosting t r
  | .takeEvent =>
    match m.events with
    | [] => .nothing
    | e :: _ => m.eventPosting e
  | .retire => if m.isAbandoned then .close else .nothing
  | _ => .nothing

/-! ## What leaves the board alone -/

/-- An output that answers no request with an outcome leaves the board alone. -/
theorem board_tell (m : Monitor) {o : Output} (h : o.outcome? = none) :
    (m.tell o).board = m.board := by
  simp [board, tell, h]

theorem board_answer (m : Monitor) (t : Ticket) {r : Reply}
    (h : (Output.reply t r).outcome? = none) : (m.answer t r).board = m.board :=
  board_tell m h

@[simp]
theorem board_publish (m : Monitor) : m.publish.board = m.board := by
  unfold publish
  split
  · rfl
  · exact board_tell _ rfl

@[simp]
theorem board_adopt {α : Type} (m : Monitor) (e : PolicyStore.Edit α) : (m.adopt e).board = m.board :=
  rfl

@[simp]
theorem board_scheduleExpiry (m : Monitor) (path : String) :
    (m.scheduleExpiry path).board = m.board := by
  unfold scheduleExpiry
  split <;> rfl

@[simp]
theorem board_cancelExpiry (m : Monitor) (path : String) : (m.cancelExpiry path).board = m.board :=
  rfl

@[simp]
theorem board_reload (m : Monitor) (source : Source) : (m.reload source).board = m.board := by
  cases source with
  | denials =>
    simp only [reload]
    split
    · rfl
    · exact board_tell _ rfl
  | _ => rfl

@[simp]
theorem board_register (m : Monitor) (source : Source) : (m.register source).board = m.board := by
  simp only [register]
  split <;> rfl

@[simp]
theorem board_followLog (m : Monitor) : m.followLog.board = m.board := by
  simp only [followLog]
  split <;> rfl

/-- An event that tells of no firing leaves the board alone. -/
theorem board_post_of_outcomeFiring?_eq_none (m : Monitor) {e : Event}
    (h : e.outcomeFiring? = none) : (m.post e).board = m.board := by
  unfold post
  split
  · simp [board, h]
  · rfl

/-! ## Outcomes -/

theorem board_report (m : Monitor) (o : Outcome) :
    (m.report o).board = m.board.perform (.report none o) := by
  simp only [report, board_publish]
  rfl

@[simp]
theorem board_conclude (m : Monitor) (t : Ticket) (o : Outcome) :
    (m.conclude t o).board = m.board.perform (.report (some t) o) := by
  have hanswer : ((m.report o).answer t (.outcome o)).board =
      { (m.report o).board with answers := (t, o) :: (m.report o).board.answers } := rfl
  rw [conclude, hanswer, board_report]
  rfl

theorem board_requestOverride (m : Monitor) (text : String) (t : Ticket) :
    (m.requestOverride text t).board =
      m.board.perform (m.requestPosting t (.requestOverride text)) := by
  simp only [requestOverride, requestPosting, requestOutcome?]
  by_cases hempty : Text.trim text = ""
  · simp [hempty, Posting.ofOutcome?]
  · by_cases habsolute : Path.isAbsolute (Text.trim text) = true
    · cases hhelper : m.settings.daemon.overrideHelper with
      | some helper =>
        simp only [hempty, habsolute, if_false, Bool.not_true, Bool.false_eq_true,
          Option.isSome_some, if_true, Posting.ofOutcome?]
        rfl
      | none =>
        simp only [hempty, habsolute, if_false, Bool.not_true, Bool.false_eq_true,
          Option.isSome_none, applyOverride, Posting.ofOutcome?]
        split <;> next hresult => simp [hresult, additionOutcome]
    · simp [hempty, habsolute, Posting.ofOutcome?]

theorem board_removeOverride (m : Monitor) (text : String) (t : Ticket) :
    (m.removeOverride text t).board =
      m.board.perform (m.requestPosting t (.removeOverride text)) := by
  simp only [removeOverride, requestPosting, requestOutcome?, Posting.ofOutcome?]
  split <;> next hresult => simp [hresult, removalOutcome]

theorem board_clearOverrides (m : Monitor) (t : Ticket) :
    (m.clearOverrides t).board = m.board.perform (m.requestPosting t .clearOverrides) := by
  simp only [clearOverrides, requestPosting, requestOutcome?, Posting.ofOutcome?]
  split <;> next hresult =>
    rw [board_conclude, hresult]
    rfl

theorem board_acknowledge (m : Monitor) (t : Ticket) : (m.acknowledge t).board = m.board := by
  simp only [acknowledge]
  cases m.engine.log.records.head? with
  | none => rfl
  | some newest =>
    dsimp only
    rw [board_answer _ _ rfl, board_publish]
    simp only [board, update]

theorem board_refresh (m : Monitor) (t : Ticket) : (m.refresh t).board = m.board := by
  have hrefresh : (m.refresh t).board = m.reloadAll.registerAll.followLog.publish.board := by
    simp only [refresh, board]
  rw [hrefresh]
  simp [reloadAll, registerAll, Source.all]

/-- Ending answers requests, but with no outcome. -/
theorem board_close (m : Monitor) : m.close.board = m.board.perform .close := by
  rw [close_eq]
  simp [board, Board.perform, Output.outcome?]

theorem board_handleRequest (m : Monitor) (t : Ticket) (r : Request) :
    (m.handleRequest t r).board = m.board.perform (m.requestPosting t r) := by
  cases r with
  | refresh => exact board_refresh m t
  | acknowledge => exact board_acknowledge m t
  | requestOverride text => exact board_requestOverride m text t
  | removeOverride text => exact board_removeOverride m text t
  | clearOverrides => exact board_clearOverrides m t
  | restartDaemon => rfl
  | shutdown =>
    rw [handleRequest, board_answer _ _ rfl, board_close]
    rfl

theorem board_expireOverride (m : Monitor) (path : String) (generation : Nat) :
    (m.expireOverride path generation).board =
      m.board.perform (m.eventPosting (.overrideExpired path generation)) := by
  have hconfirm (expiry : KeyedTimers String) :
      (m.update fun e => { e with expiry }).board = m.board := rfl
  have htell (m : Monitor) : (m.tell (.overrideExpired path)).board = m.board := board_tell m rfl
  simp only [expireOverride, eventPosting, eventOutcome?, KeyedTimers.complete]
  by_cases hcurrent : m.engine.expiry.generation? path = some generation
  · simp only [hcurrent, if_true]
    split <;> next hresult =>
      replace hresult : (m.engine.policy.removeOverride m.around.disk path).result = _ := hresult
      simp only [hresult, expiryOutcome?, Posting.ofOutcome?, board_report, htell, board_adopt,
        hconfirm]
      rfl
  · simp only [hcurrent, if_false]
    rfl

/-- An event that tells of no firing of an outcome's timer is handled like a report, or like
nothing. -/
theorem board_handleEvent_of_outcomeFiring?_eq_none (m : Monitor) {e : Event}
    (h : e.outcomeFiring? = none) :
    (m.handleEvent e).board = m.board.perform (m.eventPosting e) := by
  cases e with
  | changed source =>
    rw [handleEvent, board_publish, board_reload]
    rfl
  | logLines lines =>
    rw [handleEvent, board_publish]
    simp only [board, update, Engine.receive]
    rfl
  | runningState running t =>
    simp only [handleEvent]
    rw [board_answer _ _ rfl, board_publish]
    rfl
  | overrideExpired path generation => exact board_expireOverride m path generation
  | outcomeExpired generation => simp [Event.outcomeFiring?] at h
  | helperFinished path result t =>
    cases result with
    | ok u =>
      simp only [handleEvent, helperFinished, board_conclude, board_scheduleExpiry, board_reload]
      rfl
    | error e =>
      simp only [handleEvent, helperFinished, board_conclude]
      rfl
  | restartFinished result running t =>
    simp only [handleEvent, board_conclude]
    rfl

theorem board_takeEvent (m : Monitor) :
    m.takeEvent.board = m.board.perform (m.posting .takeEvent) := by
  simp only [takeEvent, posting]
  cases hevents : m.events with
  | nil => rfl
  | cons e rest =>
    cases hfiring : e.outcomeFiring? with
    | none =>
      have hrest : { m with events := rest }.board = m.board := by simp [board, hevents, hfiring]
      rw [board_handleEvent_of_outcomeFiring?_eq_none _ hfiring, hrest]
      rfl
    | some g =>
      cases e with
      | outcomeExpired generation =>
        have hfired : m.board.fired.tail = rest.filterMap Event.outcomeFiring? := by
          simp [board, hevents, Event.outcomeFiring?]
        simp only [handleEvent, eventPosting, Board.perform, KeyedTimers.complete, hfired]
        by_cases hcurrent : m.engine.outcomeTimer.generation? () = some generation
        · have hslot : m.board.timer.generation? () = some generation := hcurrent
          simp only [hcurrent, hslot, if_true, board_publish]
          rfl
        · have hslot : m.board.timer.generation? () ≠ some generation := hcurrent
          simp only [hcurrent, hslot, if_false]
          rfl
      | _ => simp [Event.outcomeFiring?] at hfiring

theorem board_takeRequest (m : Monitor) :
    m.takeRequest.board = m.board.perform (m.posting .takeRequest) := by
  simp only [takeRequest, posting]
  cases m.requests with
  | nil => rfl
  | cons x rest => exact board_handleRequest _ x.1 x.2

/-! ## Actions -/

theorem board_send (m : Monitor) (r : Request) : (m.send r).board = m.board := by
  simp only [send]
  split
  · rfl
  · exact board_answer _ _ rfl

/-- No errand ends in the firing of a timer. -/
theorem outcomeFiring?_of_finish {restartSettle now : Nat} {errand : Errand}
    {answer : Errand.Answer} {e : Event} (h : errand.finish restartSettle now answer = .inl e) :
    e.outcomeFiring? = none := by
  cases errand <;> cases answer <;> simp only [Errand.finish, reduceCtorEq, Sum.inl.injEq] at h <;>
    subst h <;> rfl

theorem board_finishErrand (m : Monitor) (i : Nat) (answer : Errand.Answer) :
    (m.finishErrand i answer).board = m.board := by
  simp only [finishErrand]
  split
  · rfl
  · split
    · next e he =>
      rw [board_post_of_outcomeFiring?_eq_none _ (outcomeFiring?_of_finish he)]
      rfl
    · rfl

theorem board_endWait (m : Monitor) (i : Nat) : (m.endWait i).board = m.board := by
  simp only [endWait]
  split
  · split <;> rfl
  · rfl

theorem board_runWatch (m : Monitor) (i : Nat) (eager : Bool) :
    (m.runWatch i eager).board = m.board := by
  simp only [runWatch]
  split
  · rfl
  · rw [board_post_of_outcomeFiring?_eq_none _ rfl]
    rfl

theorem board_runReader (m : Monitor) (i : Nat) : (m.runReader i).board = m.board := by
  simp only [runReader]
  split
  · rfl
  · rw [board_post_of_outcomeFiring?_eq_none _ rfl]
    rfl

theorem board_fireExpiry (m : Monitor) (generation : Nat) :
    (m.fireExpiry generation).board = m.board := by
  simp only [fireExpiry]
  split
  · rfl
  · rw [board_post_of_outcomeFiring?_eq_none _ rfl]
    rfl

theorem board_fireOutcome (m : Monitor) (generation : Nat) :
    (m.fireOutcome generation).board = m.board.perform (.fire generation) := by
  have htimer : m.board.timer.wake generation m.board.now =
      m.engine.outcomeTimer.wake generation m.around.now := rfl
  simp only [fireOutcome, Board.perform, htimer]
  cases (m.engine.outcomeTimer.wake generation m.around.now).1 with
  | none => cases hrun : m.running <;> simp [board, update, hrun]
  | some s =>
    cases hrun : m.running <;> simp [post, board, update, hrun, Event.outcomeFiring?]

/-- The board after an action is the one that its posting leaves. -/
theorem board_act (m : Monitor) (a : Action) :
    (m.act a).board = m.board.perform (m.posting a) := by
  cases a with
  | send r => exact board_send m r
  | finish i answer => exact board_finishErrand m i answer
  | runWatch i eager => exact board_runWatch m i eager
  | runReader i => exact board_runReader m i
  | fireExpiry generation => exact board_fireExpiry m generation
  | fireOutcome generation => exact board_fireOutcome m generation
  | endWait i => exact board_endWait m i
  | takeRequest => exact board_takeRequest m
  | takeEvent => exact board_takeEvent m
  | retire =>
    simp only [act, posting]
    split
    · exact board_close m
    · rfl
  | _ => rfl

/-- The posting of an action can come next. -/
theorem allows_posting (m : Monitor) (a : Action) : m.board.Allows (m.posting a) := by
  have houtcome (caller : Option Ticket) (o? : Option Outcome) :
      m.board.Allows (.ofOutcome? caller o?) := by cases o? <;> trivial
  cases a with
  | takeRequest =>
    simp only [posting]
    split
    · trivial
    · next t r _ _ =>
      cases r with
      | shutdown => trivial
      | _ => simp only [requestPosting, houtcome]
  | takeEvent =>
    simp only [posting]
    split
    · trivial
    · next e rest hevents =>
      cases e with
      | outcomeExpired generation =>
        show m.board.fired.head? = some generation
        simp [board, hevents, Event.outcomeFiring?]
      | _ => simp only [eventPosting, houtcome]
  | retire =>
    simp only [posting]
    split <;> trivial
  | _ => trivial

/-- A monitor that has just started shows no outcome. -/
theorem board_start (settings : Settings) (around : Surroundings) (daemonRuns : Bool) :
    (start settings around daemonRuns).board =
      { outcome := none
        timer := .empty
        fired := []
        answers := []
        ttl := settings.outcomeTtl
        now := around.now
        running := true } := by
  have hrunning (m : Monitor) (b : Bool) :
      (m.update fun e => { e with daemonRunning := b }).board = m.board := rfl
  simp only [start, startSteps, Source.all, List.map_cons, List.map_nil, List.cons_append,
    List.nil_append, List.foldl_cons, List.foldl_nil, startStep, registerAll, board_publish,
    board_followLog, board_register, hrunning, board_reload]
  rfl

end Monitor

end DenialMonitor
