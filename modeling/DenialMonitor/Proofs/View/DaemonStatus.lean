import DenialMonitor.Proofs.Monitor.Runs

set_option autoImplicit false

/-!
# Whether the daemon runs

The monitor does not look for itself whether the daemon runs. Those who inspect or restart the daemon
say so, and what was said last counts.

## Main definitions

* `Monitor.heard?` — what an action has the monitor hear of the daemon.
* `Monitor.Hears` — an action in which nothing else is heard of the daemon.

## Main results

* `Monitor.daemonRunning_act` — what is known of the daemon after an action.
* `Monitor.daemonRunning_actAll` — what is heard throughout a run is known after it.
-/

namespace DenialMonitor

/-- What an event says of the daemon. -/
def Event.daemonRuns? : Event → Option Bool
  | .runningState b _ => some b
  | .restartFinished _ b _ => some b
  | _ => none

namespace Monitor

/-- What an action has the monitor hear of the daemon. -/
def heard? (m : Monitor) : Action → Option Bool
  | .takeEvent => m.events.head?.bind Event.daemonRuns?
  | _ => none

/-- Nothing is heard of the daemon in an action but `b`. -/
def Hears (b : Bool) (m : Monitor) (a : Action) : Prop :=
  ∀ b' ∈ m.heard? a, b' = b

instance (b : Bool) (m : Monitor) (a : Action) : Decidable (Hears b m a) :=
  inferInstanceAs (Decidable (∀ b' ∈ m.heard? a, b' = b))

variable {m : Monitor} {b : Bool}

/-! ## What does not matter -/

@[simp]
theorem daemonRunning_answer (m : Monitor) (t : Ticket) (r : Reply) :
    (m.answer t r).engine.daemonRunning = m.engine.daemonRunning :=
  rfl

@[simp]
theorem daemonRunning_publish (m : Monitor) :
    m.publish.engine.daemonRunning = m.engine.daemonRunning := by
  unfold publish
  split <;> rfl

@[simp]
theorem daemonRunning_report (m : Monitor) (o : Outcome) :
    (m.report o).engine.daemonRunning = m.engine.daemonRunning := by
  simp only [report, daemonRunning_publish]
  rfl

@[simp]
theorem daemonRunning_conclude (m : Monitor) (t : Ticket) (o : Outcome) :
    (m.conclude t o).engine.daemonRunning = m.engine.daemonRunning := by
  simp [conclude]

@[simp]
theorem daemonRunning_adopt {α : Type} (m : Monitor) (e : PolicyStore.Edit α) :
    (m.adopt e).engine.daemonRunning = m.engine.daemonRunning :=
  rfl

@[simp]
theorem daemonRunning_scheduleExpiry (m : Monitor) (path : String) :
    (m.scheduleExpiry path).engine.daemonRunning = m.engine.daemonRunning := by
  unfold scheduleExpiry
  split <;> rfl

@[simp]
theorem daemonRunning_cancelExpiry (m : Monitor) (path : String) :
    (m.cancelExpiry path).engine.daemonRunning = m.engine.daemonRunning :=
  rfl

@[simp]
theorem daemonRunning_reload (m : Monitor) (source : Source) :
    (m.reload source).engine.daemonRunning = m.engine.daemonRunning := by
  cases source with
  | denials =>
    simp only [reload]
    split <;> rfl
  | _ => rfl

@[simp]
theorem daemonRunning_register (m : Monitor) (source : Source) :
    (m.register source).engine.daemonRunning = m.engine.daemonRunning := by
  simp only [register]
  split <;> rfl

@[simp]
theorem daemonRunning_followLog (m : Monitor) :
    m.followLog.engine.daemonRunning = m.engine.daemonRunning := by
  simp only [followLog]
  split <;> rfl

@[simp]
theorem daemonRunning_post (m : Monitor) (e : Event) :
    (m.post e).engine.daemonRunning = m.engine.daemonRunning := by
  unfold post
  split <;> rfl

theorem daemonRunning_close (m : Monitor) :
    m.close.engine.daemonRunning = m.engine.daemonRunning := by
  rw [close_eq]

/-! ## Requests and events -/

theorem daemonRunning_handleRequest (m : Monitor) (t : Ticket) (r : Request) :
    (m.handleRequest t r).engine.daemonRunning = m.engine.daemonRunning := by
  cases r with
  | refresh => simp [handleRequest, refresh, reloadAll, registerAll, Source.all]
  | acknowledge =>
    simp only [handleRequest, acknowledge]
    split
    · rfl
    · rw [daemonRunning_answer, daemonRunning_publish]
      rfl
  | requestOverride text =>
    simp only [handleRequest, requestOverride]
    split
    · simp
    · split
      · simp
      · split
        · rfl
        · simp only [applyOverride]
          split <;> simp
  | removeOverride text =>
    simp only [handleRequest, removeOverride]
    split <;> simp
  | clearOverrides =>
    simp only [handleRequest, clearOverrides]
    split
    · rw [daemonRunning_conclude]
      rfl
    · simp
  | restartDaemon => rfl
  | shutdown => exact daemonRunning_close m

theorem daemonRunning_expireOverride (m : Monitor) (path : String) (generation : Nat) :
    (m.expireOverride path generation).engine.daemonRunning = m.engine.daemonRunning := by
  simp only [expireOverride]
  split
  · rfl
  · split
    · rw [daemonRunning_report]
      rfl
    · rfl
    · rw [daemonRunning_report]
      rfl

theorem daemonRunning_handleEvent (m : Monitor) (e : Event) :
    (m.handleEvent e).engine.daemonRunning = e.daemonRuns?.getD m.engine.daemonRunning := by
  cases e with
  | changed source => simp [handleEvent, Event.daemonRuns?]
  | logLines lines =>
    rw [handleEvent, daemonRunning_publish]
    simp only [update, Engine.receive, Event.daemonRuns?, Option.getD_none]
  | runningState running t =>
    simp only [handleEvent, daemonRunning_answer, daemonRunning_publish]
    rfl
  | overrideExpired path generation => exact daemonRunning_expireOverride m path generation
  | outcomeExpired generation =>
    simp only [handleEvent]
    split
    · rfl
    · rw [daemonRunning_publish]
      rfl
  | helperFinished path result t =>
    simp only [handleEvent, helperFinished]
    split <;> simp [Event.daemonRuns?]
  | restartFinished result running t =>
    simp only [handleEvent, daemonRunning_conclude]
    rfl

/-! ## Runs -/

/-- What was heard last is known of the daemon. -/
theorem daemonRunning_act (m : Monitor) (a : Action) :
    (m.act a).engine.daemonRunning = (m.heard? a).getD m.engine.daemonRunning := by
  cases a with
  | send r =>
    simp only [act, send]
    split <;> rfl
  | finish i answer =>
    simp only [act, finishErrand]
    split
    · rfl
    · split
      · exact daemonRunning_post ..
      · rfl
  | runWatch i eager =>
    simp only [act, runWatch]
    split
    · rfl
    · exact daemonRunning_post ..
  | runReader i =>
    simp only [act, runReader]
    split
    · rfl
    · exact daemonRunning_post ..
  | fireExpiry generation =>
    simp only [act, fireExpiry]
    split
    · rfl
    · exact daemonRunning_post ..
  | fireOutcome generation =>
    simp only [act, fireOutcome]
    split
    · rfl
    · exact daemonRunning_post ..
  | endWait i =>
    simp only [act, endWait]
    split
    · split <;> rfl
    · rfl
  | takeRequest =>
    simp only [act, takeRequest]
    cases m.requests with
    | nil => rfl
    | cons x rest => exact daemonRunning_handleRequest _ x.1 x.2
  | takeEvent =>
    simp only [act, takeEvent, heard?]
    cases m.events with
    | nil => rfl
    | cons e rest => exact daemonRunning_handleEvent _ e
  | retire =>
    simp only [act]
    split
    · exact daemonRunning_close m
    · rfl
  | _ => rfl

theorem daemonRunning_act_of_hears {a : Action} (hm : m.engine.daemonRunning = b)
    (hears : Hears b m a) : (m.act a).engine.daemonRunning = b := by
  rw [daemonRunning_act]
  cases hheard : m.heard? a with
  | none => exact hm
  | some b' => exact hears b' hheard

/-- What is known of the daemon stays known as long as nothing else is heard. -/
theorem daemonRunning_actAll {actions : List Action} (hm : m.engine.daemonRunning = b)
    (hears : Along (Hears b) m actions) : (m.actAll actions).engine.daemonRunning = b :=
  hears.invariant (fun _ _ => daemonRunning_act_of_hears) hm

end Monitor

end DenialMonitor
