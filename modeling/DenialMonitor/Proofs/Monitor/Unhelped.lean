import DenialMonitor.Proofs.Monitor.Runs

set_option autoImplicit false

/-!
# Monitors without a helper

A monitor that has no helper for overrides applies them itself. It never runs the helper, so it
never hears of its end.

## Main definitions

* `Monitor.Unhelped` — there is no helper, and nothing of one is under way.

## Main results

* `Monitor.Unhelped.act` — every action leaves it so.
* `Monitor.unhelped_start` — it is so at the start.
-/

namespace DenialMonitor

/-- Whether an event tells of the end of the helper. -/
def Event.isHelp : Event → Bool
  | .helperFinished _ _ _ => true
  | _ => false

/-- Whether an errand is to run the helper. -/
def Errand.isHelp : Errand → Bool
  | .help _ _ => true
  | _ => false

/-- An errand that does not run the helper ends in no event of the helper, and leads to no errand
that runs it. -/
theorem Errand.isHelp_of_finish {errand : Errand} (h : errand.isHelp = false)
    (restartSettle now : Nat) (a : Errand.Answer) :
    (errand.finish restartSettle now a).elim Event.isHelp Errand.isHelp = false := by
  cases errand with
  | help path t => simp [Errand.isHelp] at h
  | _ => cases a <;> rfl

namespace Monitor

/-- There is no helper, and nothing of one is under way. -/
structure Unhelped (m : Monitor) : Prop where
  helper : m.settings.daemon.overrideHelper = none
  errands : ∀ errand ∈ m.errands, errand.isHelp = false
  events : ∀ e ∈ m.events, e.isHelp = false

/-- What is under way beside the owning task, with the settings. -/
def underWay (m : Monitor) : Settings × List Errand × List Event :=
  (m.settings, m.errands, m.events)

variable {m m' : Monitor}

theorem Unhelped.of_underWay (h : m.Unhelped) (heq : m'.underWay = m.underWay) : m'.Unhelped := by
  obtain ⟨hsettings, hrest⟩ := Prod.mk.inj heq
  obtain ⟨herrands, hevents⟩ := Prod.mk.inj hrest
  exact ⟨hsettings ▸ h.helper, herrands ▸ h.errands, hevents ▸ h.events⟩

/-! ## What leaves it alone -/

@[simp]
theorem underWay_answer (m : Monitor) (t : Ticket) (r : Reply) :
    (m.answer t r).underWay = m.underWay :=
  rfl

@[simp]
theorem underWay_update (m : Monitor) (f : Engine → Engine) : (m.update f).underWay = m.underWay :=
  rfl

@[simp]
theorem underWay_tell (m : Monitor) (o : Output) : (m.tell o).underWay = m.underWay :=
  rfl

@[simp]
theorem underWay_publish (m : Monitor) : m.publish.underWay = m.underWay := by
  unfold publish
  split <;> rfl

@[simp]
theorem underWay_report (m : Monitor) (o : Outcome) : (m.report o).underWay = m.underWay := by
  simp [report]

@[simp]
theorem underWay_conclude (m : Monitor) (t : Ticket) (o : Outcome) :
    (m.conclude t o).underWay = m.underWay := by
  simp [conclude]

@[simp]
theorem underWay_reload (m : Monitor) (s : Source) : (m.reload s).underWay = m.underWay := by
  cases s with
  | denials =>
    simp only [reload]
    split <;> rfl
  | _ => rfl

@[simp]
theorem underWay_register (m : Monitor) (s : Source) : (m.register s).underWay = m.underWay := by
  simp only [register]
  split <;> rfl

@[simp]
theorem underWay_followLog (m : Monitor) : m.followLog.underWay = m.underWay := by
  simp only [followLog]
  split <;> rfl

@[simp]
theorem underWay_adopt {α : Type} (m : Monitor) (e : PolicyStore.Edit α) :
    (m.adopt e).underWay = m.underWay :=
  rfl

@[simp]
theorem underWay_scheduleExpiry (m : Monitor) (path : String) :
    (m.scheduleExpiry path).underWay = m.underWay := by
  unfold scheduleExpiry
  split <;> rfl

@[simp]
theorem underWay_cancelExpiry (m : Monitor) (path : String) :
    (m.cancelExpiry path).underWay = m.underWay :=
  rfl

/-! ## Requests and events -/

/-- An errand that does not run the helper may be added. -/
theorem Unhelped.add_errand (h : m.Unhelped) {errand : Errand} (herrand : errand.isHelp = false) :
    Unhelped { m with errands := m.errands ++ [errand] } := by
  refine ⟨h.helper, fun x hx => ?_, h.events⟩
  rcases List.mem_append.mp hx with hx | hx
  · exact h.errands x hx
  · rw [List.mem_singleton.mp hx]
    exact herrand

/-- An event that does not tell of the helper may be queued. -/
theorem Unhelped.post (h : m.Unhelped) {e : Event} (he : e.isHelp = false) : (m.post e).Unhelped := by
  unfold Monitor.post
  split
  · refine ⟨h.helper, h.errands, fun x hx => ?_⟩
    rcases List.mem_append.mp hx with hx | hx
    · exact h.events x hx
    · rw [List.mem_singleton.mp hx]
      exact he
  · exact h

theorem Unhelped.close (h : m.Unhelped) : m.close.Unhelped := by
  rw [close_eq]
  exact ⟨h.helper, by simp, by simp⟩

/-- Without a helper the monitor applies overrides itself. -/
theorem Unhelped.requestOverride (h : m.Unhelped) (text : String) (t : Ticket) :
    (m.requestOverride text t).Unhelped := by
  refine h.of_underWay ?_
  simp only [Monitor.requestOverride, h.helper]
  by_cases hempty : Text.trim text = ""
  · simp only [hempty, if_true, underWay_conclude]
  · by_cases habs : Path.isAbsolute (Text.trim text) = true
    · simp only [hempty, habs, if_false, Bool.not_true, Bool.false_eq_true, applyOverride]
      cases (m.engine.policy.addOverride m.around.disk (Text.trim text)).result <;>
        simp only [underWay_conclude, underWay_scheduleExpiry, underWay_adopt]
    · simp only [hempty, habs, if_false, Bool.not_false, if_true, underWay_conclude]

/-- Requests leave it so. -/
theorem Unhelped.handleRequest (h : m.Unhelped) (t : Ticket) (r : Request) :
    (m.handleRequest t r).Unhelped := by
  cases r with
  | refresh =>
    have hloaded : (m.reloadAll.registerAll.followLog.publish).underWay = m.underWay := by
      simp [reloadAll, registerAll, Source.all]
    exact (h.of_underWay hloaded).add_errand rfl
  | acknowledge =>
    simp only [Monitor.handleRequest, acknowledge]
    split
    · exact h.of_underWay (underWay_answer _ _ _)
    · refine h.of_underWay ?_
      rw [underWay_answer, underWay_publish, underWay_update]
      simp only [underWay]
  | requestOverride text => exact h.requestOverride text t
  | removeOverride text =>
    simp only [Monitor.handleRequest, removeOverride]
    split <;> exact h.of_underWay (by simp)
  | clearOverrides =>
    simp only [Monitor.handleRequest, clearOverrides]
    split <;> exact h.of_underWay (by simp)
  | restartDaemon => exact h.add_errand rfl
  | shutdown => exact h.close.of_underWay (underWay_answer _ _ _)

/-- Events other than the end of the helper leave it so. -/
theorem Unhelped.handleEvent (h : m.Unhelped) {e : Event} (he : e.isHelp = false) :
    (m.handleEvent e).Unhelped := by
  cases e with
  | overrideExpired path generation =>
    simp only [Monitor.handleEvent, expireOverride]
    split
    · exact h
    · split <;> exact h.of_underWay (by simp)
  | outcomeExpired generation =>
    simp only [Monitor.handleEvent]
    split
    · exact h
    · exact h.of_underWay (by simp)
  | helperFinished path result t => simp [Event.isHelp] at he
  | _ => exact h.of_underWay (by simp [Monitor.handleEvent])

/-! ## Runs -/

theorem Unhelped.finishErrand (h : m.Unhelped) (i : Nat) (a : Errand.Answer) :
    (m.finishErrand i a).Unhelped := by
  simp only [Monitor.finishErrand]
  split
  · exact h
  · next errand herrand =>
    have hfinish := Errand.isHelp_of_finish (h.errands errand (List.mem_of_getElem? herrand))
      m.settings.restartSettle m.around.now a
    split
    · next e he =>
      have herased : Unhelped { m with errands := m.errands.eraseIdx i } :=
        ⟨h.helper, fun x hx => h.errands x (List.mem_of_mem_eraseIdx hx), h.events⟩
      rw [he] at hfinish
      exact herased.post hfinish
    · next later hlater =>
      rw [hlater] at hfinish
      refine ⟨h.helper, fun x hx => ?_, h.events⟩
      rcases List.mem_or_eq_of_mem_set hx with hx | rfl
      · exact h.errands x hx
      · exact hfinish

theorem Unhelped.endWait (h : m.Unhelped) (i : Nat) : (m.endWait i).Unhelped := by
  simp only [Monitor.endWait]
  split
  · split
    · refine ⟨h.helper, fun x hx => ?_, h.events⟩
      rcases List.mem_or_eq_of_mem_set hx with hx | rfl
      · exact h.errands x hx
      · rfl
    · exact h
  · exact h

/-- Every action leaves it so. -/
theorem Unhelped.act (h : m.Unhelped) (a : Action) : (m.act a).Unhelped := by
  cases a with
  | send r =>
    simp only [Monitor.act, send]
    split <;> exact h.of_underWay rfl
  | finish i a => exact h.finishErrand i a
  | runWatch i eager =>
    simp only [Monitor.act, runWatch]
    split
    · exact h.of_underWay rfl
    · refine Unhelped.post ?_ rfl
      exact h.of_underWay rfl
  | runReader i =>
    simp only [Monitor.act, runReader]
    split
    · exact h.of_underWay rfl
    · refine Unhelped.post ?_ rfl
      exact h.of_underWay rfl
  | fireExpiry generation =>
    simp only [Monitor.act, fireExpiry]
    split
    · exact h.of_underWay rfl
    · refine Unhelped.post ?_ rfl
      exact h.of_underWay rfl
  | fireOutcome generation =>
    simp only [Monitor.act, fireOutcome]
    split
    · exact h.of_underWay rfl
    · refine Unhelped.post ?_ rfl
      exact h.of_underWay rfl
  | endWait i => exact h.endWait i
  | takeRequest =>
    simp only [Monitor.act, takeRequest]
    split
    · exact h
    · refine Unhelped.handleRequest ?_ _ _
      exact h.of_underWay rfl
  | takeEvent =>
    simp only [Monitor.act, takeEvent]
    split
    · exact h
    · next e rest hevents =>
      have hrest : Unhelped { m with events := rest } :=
        ⟨h.helper, h.errands, fun x hx => h.events x (by simp [hevents, hx])⟩
      exact hrest.handleEvent (h.events e (by simp [hevents]))
  | retire =>
    simp only [Monitor.act]
    split
    · exact h.close
    · exact h
  | _ => exact h.of_underWay rfl

theorem unhelped_start {settings : Settings} (h : settings.daemon.overrideHelper = none)
    (around : Surroundings) (daemonRuns : Bool) : (start settings around daemonRuns).Unhelped := by
  have hboot : (boot settings around).Unhelped := ⟨h, by simp [boot], by simp [boot]⟩
  refine hboot.of_underWay ?_
  simp [start, startSteps, Source.all, startStep, registerAll]

end Monitor

end DenialMonitor
