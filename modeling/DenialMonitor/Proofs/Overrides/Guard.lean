import DenialMonitor.Proofs.Monitor.Runs
import DenialMonitor.Proofs.Overrides.Ledger
import DenialMonitor.Proofs.Timers.Orderly

set_option autoImplicit false

/-!
# What keeps an override from staying for ever

An override is guarded while its timer is pending or the firing of that timer is queued: sooner or
later it is taken back then. A guard comes with the grant of the override. It is meant to end with
the override itself, but four branches give the timer up and leave the override alone: taking back
an override that the policy in memory lacks at the moment, taking back all overrides where it lacks
this one, and the firing of the timer where the policy lacks the override or cannot be written. An
override that is in the policy file after one of these stays there until a user takes it back.

## Main definitions

* `Monitor.Guards` — a timer is pending for an override, or its firing is queued.
* `Monitor.Grants`, `Monitor.TakesBack` — an action puts an override into force, or ends it.
* `Monitor.Forgets` — an action gives the timer of an override up without ending the override.

## Main results

* `Ledger.Orderly.perform` — generations in use are not above the latest one, also queued ones.
* `Monitor.guards_iff_never_forgotten` — an override in force is guarded if and only if no action
  since its grant has forgotten it.
* `Monitor.override_stays_after_failed_revocation` — a run after which one is not.
-/

namespace DenialMonitor

/-- What is in a queue but is not its first element stays when that is taken. -/
private theorem mem_tail_of_head?_ne {α : Type} {xs : List α} {x y : α} (hx : xs.head? = some x)
    (hy : y ∈ xs) (hne : x ≠ y) : y ∈ xs.tail := by
  cases xs with
  | nil => simp at hx
  | cons z zs =>
    simp only [List.head?_cons, Option.some.injEq] at hx
    rcases List.mem_cons.mp hy with rfl | hy
    · exact absurd hx.symm hne
    · exact hy

/-! ## Generations of the ledger -/

/-- No generation in use is above the latest one. -/
structure Ledger.Orderly (l : Ledger) : Prop where
  expiry : l.expiry.Orderly
  fired_le : ∀ x ∈ l.fired, x.2 ≤ l.expiry.latest

namespace Ledger

variable {l : Ledger}

/-- What `schedule` does, where overrides have a lifetime. -/
theorem schedule_of_autoRevoke {lifetime : Nat} (h : l.settings.autoRevoke = some lifetime)
    (path : String) :
    l.schedule path = { l with expiry := (l.expiry.schedule path (dueAfter l.now lifetime)).2 } := by
  simp [schedule, h]

/-- Only the timers and their firings matter. -/
theorem Orderly.of_timers (h : l.Orderly) (l' : Ledger) (he : l'.expiry = l.expiry)
    (hf : l'.fired = l.fired) : l'.Orderly :=
  ⟨he ▸ h.expiry, by rw [he, hf]; exact h.fired_le⟩

theorem Orderly.schedule (h : l.Orderly) (path : String) : (l.schedule path).Orderly := by
  cases hr : l.settings.autoRevoke with
  | none => simpa [Ledger.schedule, hr] using h
  | some lifetime =>
    rw [schedule_of_autoRevoke hr]
    refine ⟨h.expiry.schedule path _, fun x hx => ?_⟩
    simp only [KeyedTimers.latest_schedule]
    exact Nat.le_succ_of_le (h.fired_le x hx)

/-- Every deed keeps the generations orderly.

**Proof sketch.** A firing that is queued has the generation of a timer that had not fired, and all
other deeds leave the queue alone or take firings away from it. -/
theorem Orderly.perform (h : l.Orderly) (d : Deed) : (l.perform d).Orderly := by
  cases d with
  | nothing => exact h
  | files disk => exact ⟨h.expiry, h.fired_le⟩
  | pass span => exact ⟨h.expiry, h.fired_le⟩
  | reload => exact ⟨h.expiry, h.fired_le⟩
  | fire g =>
    refine ⟨h.expiry.wake g l.now, fun x hx => ?_⟩
    simp only [Ledger.perform, KeyedTimers.latest_wake] at hx ⊢
    rcases List.mem_append.mp hx with hx | hx
    · exact h.fired_le x hx
    · rcases l.expiry.wake_cases g l.now with hw | ⟨s, hs, -, -, hw⟩ <;> rw [hw] at hx
      · simp at hx
      · split at hx
        · simp only [Option.map_some, Option.toList_some, List.mem_singleton] at hx
          rw [hx]
          exact h.expiry.sleeper_le s hs
        · simp at hx
  | request path e =>
    simp only [Ledger.perform]
    split
    · exact (h.of_timers (l.adopt e) rfl rfl).schedule path
    · exact ⟨h.expiry, h.fired_le⟩
  | grant path => exact (h.of_timers { l with store := l.store.reload l.disk } rfl rfl).schedule path
  | remove path e =>
    simp only [Ledger.perform]
    split
    · refine ⟨h.expiry.cancel path, fun x hx => ?_⟩
      rw [KeyedTimers.latest_cancel]
      exact h.fired_le x hx
    · exact ⟨h.expiry, h.fired_le⟩
  | clear e =>
    simp only [Ledger.perform]
    split
    · exact ⟨h.expiry.cancelAll, h.fired_le⟩
    · exact ⟨h.expiry, h.fired_le⟩
  | ignore => exact ⟨h.expiry, fun x hx => h.fired_le x (List.mem_of_mem_tail hx)⟩
  | revoke path e =>
    exact ⟨h.expiry.release path, fun x hx => h.fired_le x (List.mem_of_mem_tail hx)⟩
  | close => exact ⟨h.expiry.cancelAll, fun x hx => by simp [Ledger.perform] at hx⟩

end Ledger

/-! ## Guards -/

/-- Whether a deed puts the override of `p` into force. -/
def Deed.grants (p : String) : Deed → Bool
  | .request q e => q = p && e.result.isOk
  | .grant q => q = p
  | _ => false

/-- Whether a deed takes the override of `p` out of a policy with these overrides. -/
def Deed.takesBack (p : String) (overrides : List String) : Deed → Bool
  | .remove q e | .revoke q e => q = p && (e.result matches .ok true)
  | .clear e => e.result.isOk && overrides.contains p
  | _ => false

/-- Whether a deed gives the timer of `p` up, but does not take the override of `p` out of a policy
with these overrides. -/
def Deed.forgets (p : String) (overrides : List String) : Deed → Bool
  | .remove q e => q = p && (e.result matches .ok false)
  | .revoke q e => q = p && !(e.result matches .ok true)
  | .clear e => e.result.isOk && !overrides.contains p
  | _ => false

/-- Whether a deed gives the timer of `p` up. -/
def Deed.retires (p : String) : Deed → Bool
  | .remove q e => q = p && e.result.isOk
  | .clear e => e.result.isOk
  | .revoke q _ => q = p
  | .close => true
  | _ => false

/-- A timer that is given up is that of an override which is taken back or forgotten, as long as
the monitor runs. -/
theorem Deed.retires_iff {p : String} {d : Deed} (overrides : List String) (h : d ≠ .close) :
    d.retires p ↔ d.takesBack p overrides ∨ d.forgets p overrides := by
  cases d with
  | remove q e =>
    simp only [Deed.retires, Deed.takesBack, Deed.forgets]
    rcases e.result with _ | _ | _ <;> simp [Except.isOk, Except.toBool]
  | revoke q e =>
    simp only [Deed.retires, Deed.takesBack, Deed.forgets]
    rcases e.result with _ | _ | _ <;> simp
  | clear e =>
    simp only [Deed.retires, Deed.takesBack, Deed.forgets]
    cases overrides.contains p <;> simp
  | close => exact absurd rfl h
  | _ => simp [Deed.retires, Deed.takesBack, Deed.forgets]

namespace Ledger

variable {l : Ledger} {p : String}

/-- A timer of `p` is pending, or its firing is queued. -/
def Guards (l : Ledger) (p : String) : Prop :=
  ∃ g, l.expiry.generation? p = some g ∧
    ((∃ s ∈ l.expiry.sleepers, s.key = p ∧ s.generation = g) ∨ (p, g) ∈ l.fired)

/-- Only the timers and their firings matter. -/
theorem Guards.of_timers (h : l.Guards p) (l' : Ledger) (he : l'.expiry = l.expiry)
    (hf : l'.fired = l.fired) : l'.Guards p := by
  simpa [Guards, he, hf] using h

/-- A new timer guards its override. -/
theorem guards_schedule {lifetime : Nat} (h : l.settings.autoRevoke = some lifetime)
    (path : String) : (l.schedule path).Guards path := by
  rw [schedule_of_autoRevoke h]
  refine ⟨l.expiry.latest + 1, by simp [KeyedTimers.generation?_schedule, KeyedTimers.fst_schedule],
    .inl ⟨⟨path, l.expiry.latest + 1, dueAfter l.now lifetime⟩, ?_, rfl, rfl⟩⟩
  exact KeyedTimers.mem_sleepers_schedule.mpr (.inl rfl)

/-- Scheduling a timer for another path leaves a guard alone. -/
theorem Guards.schedule (hg : l.Guards p) (hl : l.Orderly) {path : String} (h : path ≠ p) :
    (l.schedule path).Guards p := by
  cases hr : l.settings.autoRevoke with
  | none => simpa [Ledger.schedule, hr] using hg
  | some lifetime =>
    rw [schedule_of_autoRevoke hr]
    obtain ⟨g, hslot, hpending⟩ := hg
    refine ⟨g, by simp [KeyedTimers.generation?_schedule, h.symm, hslot], hpending.imp_left ?_⟩
    rintro ⟨s, hs, hk, rfl⟩
    refine ⟨s, KeyedTimers.mem_sleepers_schedule.mpr (.inr ⟨hs, fun hpath => h ?_⟩), hk, rfl⟩
    exact hl.expiry.slot_inj path p _ hpath hslot

/-- A guard outlives every deed that does not give it up, as long as the monitor runs.

**Proof sketch.** A timer that fires is the one with its generation, so its firing is queued for
its own path. A firing leaves the queue when it is handled, and it is handled as a revocation if
its timer is the current one. -/
theorem Guards.perform (hg : l.Guards p) (hl : l.Orderly) (hrun : l.running) {d : Deed}
    (hallow : l.Allows d) (hgrant : ¬ d.grants p) (hd : ¬ d.retires p) : (l.perform d).Guards p := by
  obtain ⟨g, hslot, hpending⟩ := hg
  have hguard : l.Guards p := ⟨g, hslot, hpending⟩
  cases d with
  | nothing => exact hguard
  | files disk => exact hguard
  | pass span => exact hguard
  | reload => exact hguard
  | fire g' =>
    refine ⟨g, by simpa [Ledger.perform] using hslot, ?_⟩
    rcases hpending with ⟨s, hs, hk, hsg⟩ | hf
    · by_cases hgg : g' = g
      · rcases l.expiry.wake_cases g' l.now with hw | ⟨r, hr, hrg, -, hw⟩
        · exact .inl ⟨s, by simpa [Ledger.perform, hw] using hs, hk, hsg⟩
        · -- the timer that fires is the pending one, since no other has its generation
          have hrs : r = s := hl.expiry.sleeper_inj r hr s hs (by omega)
          refine .inr ?_
          simp [Ledger.perform, hw, hrun, hrs, hk, hsg]
      · exact .inl ⟨s, KeyedTimers.mem_sleepers_wake hs (by omega), hk, hsg⟩
    · exact .inr (List.mem_append_left _ hf)
  | request path e =>
    simp only [Ledger.perform]
    split
    · next hok =>
      have hne : path ≠ p := fun h => hgrant (by simp [Deed.grants, h, hok])
      exact (hguard.of_timers (l.adopt e) rfl rfl).schedule (hl.of_timers _ rfl rfl) hne
    · exact hguard
  | grant path =>
    have hne : path ≠ p := fun h => hgrant (by simp [Deed.grants, h])
    exact (hguard.of_timers { l with store := l.store.reload l.disk } rfl rfl).schedule
      (hl.of_timers _ rfl rfl) hne
  | remove path e =>
    simp only [Ledger.perform]
    split
    · next hok =>
      have hne : path ≠ p := fun h => hd (by simp [Deed.retires, h, hok])
      refine ⟨g, by simp [KeyedTimers.generation?_cancel, hne.symm, hslot], hpending.imp_left ?_⟩
      rintro ⟨s, hs, hk, rfl⟩
      refine ⟨s, KeyedTimers.mem_sleepers_cancel.mpr ⟨hs, fun hpath => hne ?_⟩, hk, rfl⟩
      exact hl.expiry.slot_inj path p _ hpath hslot
    · exact hguard
  | clear e =>
    simp only [Ledger.perform]
    split
    · next hok => exact absurd hok hd
    · exact hguard
  | ignore =>
    obtain ⟨path, g', hhead, hstale⟩ := hallow
    refine ⟨g, hslot, hpending.imp_right fun hf => mem_tail_of_head?_ne hhead hf ?_⟩
    rintro ⟨rfl, rfl⟩
    exact hstale hslot
  | revoke path e =>
    obtain ⟨-, g', hhead, -⟩ := hallow
    have hne : path ≠ p := fun h => hd (by simp [Deed.retires, h])
    refine ⟨g, by simp [Ledger.perform, KeyedTimers.generation?_release, hne.symm, hslot],
      hpending.imp_right fun hf => mem_tail_of_head?_ne hhead hf ?_⟩
    rintro ⟨rfl, -⟩
    exact hne rfl
  | close => exact absurd rfl hd

/-- A deed that puts an override into force guards it. -/
theorem guards_perform_of_grants {lifetime : Nat} (h : l.settings.autoRevoke = some lifetime)
    {d : Deed} (hgrant : d.grants p) : (l.perform d).Guards p := by
  cases d with
  | request path e =>
    simp only [Deed.grants, Bool.and_eq_true, decide_eq_true_eq] at hgrant
    simp only [perform, hgrant.2, if_true, ← hgrant.1]
    exact guards_schedule (l := l.adopt e) h path
  | grant path =>
    simp only [Deed.grants, decide_eq_true_eq] at hgrant
    rw [← hgrant]
    exact guards_schedule (l := { l with store := l.store.reload l.disk }) h path
  | _ => simp [Deed.grants] at hgrant

/-- A deed that neither puts the override of a path into force nor gives its timer up leaves its slot
alone. -/
theorem generation?_perform_of_not_retires {d : Deed} (hgrant : ¬ d.grants p)
    (hd : ¬ d.retires p) : (l.perform d).expiry.generation? p = l.expiry.generation? p := by
  have hschedule (l : Ledger) (path : String) (hne : path ≠ p) :
      (l.schedule path).expiry.generation? p = l.expiry.generation? p := by
    cases hr : l.settings.autoRevoke with
    | none => simp [Ledger.schedule, hr]
    | some lifetime => simp [schedule_of_autoRevoke hr, KeyedTimers.generation?_schedule, hne.symm]
  cases d with
  | fire g => simp [Ledger.perform]
  | request path e =>
    simp only [Ledger.perform]
    split
    · next hok => exact hschedule (l.adopt e) path fun hp => hgrant (by simp [Deed.grants, hp, hok])
    · rfl
  | grant path =>
    exact hschedule { l with store := l.store.reload l.disk } path fun hp =>
      hgrant (by simp [Deed.grants, hp])
  | remove path e =>
    simp only [Ledger.perform]
    split
    · next hok =>
      have hne : path ≠ p := fun h => hd (by simp [Deed.retires, h, hok])
      simp [KeyedTimers.generation?_cancel, hne.symm]
    · rfl
  | clear e =>
    simp only [Ledger.perform]
    split
    · next hok => exact absurd hok hd
    · rfl
  | revoke path e =>
    have hne : path ≠ p := fun h => hd (by simp [Deed.retires, h])
    simp [Ledger.perform, KeyedTimers.generation?_release, hne.symm]
  | close => exact absurd rfl hd
  | _ => rfl

/-- A deed that gives the timer of a path up leaves the path without a slot. -/
theorem generation?_perform_of_retires {d : Deed} (hd : d.retires p) :
    (l.perform d).expiry.generation? p = none := by
  cases d with
  | remove path e =>
    simp only [Deed.retires, Bool.and_eq_true, decide_eq_true_eq] at hd
    simp [Ledger.perform, hd.1, hd.2, KeyedTimers.generation?_cancel]
  | clear e =>
    have hok : e.result.isOk = true := hd
    simp [Ledger.perform, hok, KeyedTimers.generation?_cancelAll]
  | revoke path e =>
    simp only [Deed.retires, decide_eq_true_eq] at hd
    simp [Ledger.perform, hd, KeyedTimers.generation?_release]
  | close => exact KeyedTimers.generation?_cancelAll _ _
  | _ => simp [Deed.retires] at hd

/-- Without a grant no slot comes into being. -/
theorem generation?_perform_of_not_grants {d : Deed} (hgrant : ¬ d.grants p)
    (h : l.expiry.generation? p = none) : (l.perform d).expiry.generation? p = none := by
  by_cases hd : d.retires p
  · exact generation?_perform_of_retires hd
  · rw [generation?_perform_of_not_retires hgrant hd, h]

theorem running_schedule (l : Ledger) (path : String) : (l.schedule path).running = l.running := by
  simp only [schedule]
  split <;> rfl

theorem settings_schedule (l : Ledger) (path : String) :
    (l.schedule path).settings = l.settings := by
  simp only [schedule]
  split <;> rfl

/-- No deed changes the settings. -/
theorem settings_perform (l : Ledger) (d : Deed) : (l.perform d).settings = l.settings := by
  cases d with
  | request path e =>
    simp only [perform]
    split
    · exact settings_schedule (l.adopt e) path
    · rfl
  | grant path => exact settings_schedule { l with store := l.store.reload l.disk } path
  | remove path e =>
    simp only [perform]
    split <;> rfl
  | clear e =>
    simp only [perform]
    split <;> rfl
  | _ => rfl

/-- Only a close ends the monitor. -/
theorem running_perform {d : Deed} (h : d ≠ .close) : (l.perform d).running = l.running := by
  cases d with
  | request path e =>
    simp only [perform]
    split
    · exact running_schedule (l.adopt e) path
    · rfl
  | grant path => exact running_schedule { l with store := l.store.reload l.disk } path
  | remove path e =>
    simp only [perform]
    split <;> rfl
  | clear e =>
    simp only [perform]
    split <;> rfl
  | close => exact absurd rfl h
  | _ => rfl

/-- A monitor that has ended does not run again. -/
theorem running_of_running_perform {d : Deed} (h : (l.perform d).running) :
    l.running ∧ d ≠ .close := by
  have hclose : d ≠ .close := fun hd => by simp [hd, perform] at h
  exact ⟨(running_perform hclose).symm.trans h, hclose⟩

end Ledger

namespace Monitor

variable {m : Monitor} {p : String}

/-- A timer is pending for the override of `p`, or its firing is queued. -/
def Guards (m : Monitor) (p : String) : Prop :=
  ∃ g, m.engine.expiry.generation? p = some g ∧
    ((∃ s ∈ m.engine.expiry.sleepers, s.key = p ∧ s.generation = g) ∨
      Event.overrideExpired p g ∈ m.events)

/-- An action puts the override of `p` into force. -/
def Grants (p : String) (m : Monitor) (a : Action) : Prop :=
  (m.deed a).grants p

/-- An action takes the override of `p` out of the policy in memory and in its file. -/
def TakesBack (p : String) (m : Monitor) (a : Action) : Prop :=
  (m.deed a).takesBack p m.engine.policy.policy.temporaryOverrides

/-- An action gives the timer of `p` up, but does not take the override of `p` out. -/
def Forgets (p : String) (m : Monitor) (a : Action) : Prop :=
  (m.deed a).forgets p m.engine.policy.policy.temporaryOverrides

instance (p : String) (m : Monitor) (a : Action) : Decidable (Grants p m a) :=
  inferInstanceAs (Decidable (_ = true))

instance (p : String) (m : Monitor) (a : Action) : Decidable (TakesBack p m a) :=
  inferInstanceAs (Decidable (_ = true))

instance (p : String) (m : Monitor) (a : Action) : Decidable (Forgets p m a) :=
  inferInstanceAs (Decidable (_ = true))

theorem mem_fired_ledger {g : Nat} :
    (p, g) ∈ m.ledger.fired ↔ Event.overrideExpired p g ∈ m.events := by
  simp only [ledger, List.mem_filterMap]
  constructor
  · rintro ⟨e, he, hf⟩
    cases e <;> simp only [Event.firing?, reduceCtorEq, Option.some.injEq, Prod.mk.injEq] at hf
    rwa [hf.1, hf.2] at he
  · exact fun h => ⟨_, h, rfl⟩

theorem guards_ledger : m.ledger.Guards p ↔ m.Guards p := by
  simp only [Ledger.Guards, Guards, mem_fired_ledger]
  rfl

/-! ## Runs -/

/-- The generations in use are orderly all along. -/
theorem orderly_actAll (h : m.ledger.Orderly) (actions : List Action) :
    (m.actAll actions).ledger.Orderly := by
  induction actions generalizing m with
  | nil => exact h
  | cons a actions ih => exact ih (by rw [ledger_act]; exact h.perform _)

theorem orderly_start (settings : Settings) (around : Surroundings) (daemonRuns : Bool) :
    (start settings around daemonRuns).ledger.Orderly := by
  rw [ledger_start]
  exact ⟨.empty, by simp⟩

theorem settings_ledger_actAll (m : Monitor) (actions : List Action) :
    (m.actAll actions).ledger.settings = m.ledger.settings := by
  induction actions generalizing m with
  | nil => rfl
  | cons a actions ih => rw [actAll_cons, ih, ledger_act, Ledger.settings_perform]

theorem settings_actAll (m : Monitor) (actions : List Action) :
    (m.actAll actions).settings = m.settings :=
  settings_ledger_actAll m actions

/-- A monitor that runs after an action ran before, and did not end with it. -/
theorem deed_ne_close {a : Action} (hrun : (m.act a).running) : m.running ∧ m.deed a ≠ .close := by
  have hact : (m.ledger.perform (m.deed a)).running := by
    rw [← ledger_act]
    exact hrun
  exact Ledger.running_of_running_perform hact

/-- A monitor that runs after some actions has run all along. -/
theorem running_of_running_actAll {actions : List Action} (h : (m.actAll actions).running) :
    m.running := by
  induction actions generalizing m with
  | nil => exact h
  | cons a actions ih => exact (deed_ne_close (ih h)).1

/-- Nothing guards an override without a slot, until it is put into force again. -/
theorem not_guards_actAll {after : List Action} (h : m.ledger.expiry.generation? p = none)
    (hgrant : Along (fun m a => ¬ Grants p m a) m after) : ¬ (m.actAll after).Guards p := by
  induction after generalizing m with
  | nil =>
    rintro ⟨g, hg, -⟩
    exact absurd (h.symm.trans hg) (by simp)
  | cons a after ih =>
    refine ih ?_ hgrant.2
    rw [ledger_act]
    exact Ledger.generation?_perform_of_not_grants hgrant.1 h

/-- An override that is guarded stays so unless it is forgotten.

**Proof sketch.** By induction on the run. The first action that gives the timer up forgets the
override, since it does not take it back, and then the slot is empty for the rest of the run. Any
other action keeps the guard. -/
theorem guards_actAll_iff {after : List Action} (h : m.Guards p) (hl : m.ledger.Orderly)
    (hstay : Along (fun m a => ¬ Grants p m a ∧ ¬ TakesBack p m a) m after)
    (hrun : (m.actAll after).running) :
    (m.actAll after).Guards p ↔ Along (fun m a => ¬ Forgets p m a) m after := by
  induction after generalizing m with
  | nil => exact ⟨fun _ => trivial, fun _ => h⟩
  | cons a after ih =>
    obtain ⟨⟨hgrant, hback⟩, hrest⟩ := hstay
    obtain ⟨hnow, hclose⟩ := deed_ne_close (running_of_running_actAll hrun)
    have hretires := Deed.retires_iff (p := p) m.engine.policy.policy.temporaryOverrides hclose
    by_cases hforgets : Forgets p m a
    · have hslot : (m.act a).ledger.expiry.generation? p = none := by
        rw [ledger_act]
        exact Ledger.generation?_perform_of_retires (hretires.mpr (.inr hforgets))
      have hlost := not_guards_actAll hslot (hrest.mono fun _ _ h => h.1)
      exact ⟨fun hg => absurd hg hlost, fun hg => absurd hforgets hg.1⟩
    · have hkeep : (m.act a).Guards p := by
        rw [← guards_ledger, ledger_act]
        refine (guards_ledger.mpr h).perform hl hnow (allows_deed m a) hgrant fun hr => ?_
        exact (hretires.mp hr).elim hback hforgets
      have hnext : (m.act a).ledger.Orderly := by
        rw [ledger_act]
        exact hl.perform _
      rw [actAll_cons, ih hkeep hnext hrest hrun]
      exact ⟨fun hg => ⟨hforgets, hg⟩, fun hg => hg.2⟩

/-- An override that is put into force, and neither taken back nor put into force again since, is
guarded if and only if no action has forgotten it. -/
theorem guards_iff_never_forgotten (settings : Settings) (around : Surroundings)
    (daemonRuns : Bool) (hrevoke : settings.autoRevoke.isSome) (p : String)
    (before : List Action) (a : Action) (after : List Action)
    (hgrant : Grants p ((start settings around daemonRuns).actAll before) a)
    (hstay : Along (fun m a => ¬ Grants p m a ∧ ¬ TakesBack p m a)
      ((start settings around daemonRuns).actAll (before ++ [a])) after)
    (hrun : ((start settings around daemonRuns).actAll (before ++ a :: after)).running) :
    ((start settings around daemonRuns).actAll (before ++ a :: after)).Guards p ↔
      Along (fun m a => ¬ Forgets p m a)
        ((start settings around daemonRuns).actAll (before ++ [a])) after := by
  have hsplit : before ++ a :: after = (before ++ [a]) ++ after := by simp
  rw [hsplit, actAll_append] at hrun ⊢
  have horderly := orderly_actAll (orderly_start settings around daemonRuns)
  refine guards_actAll_iff ?_ (horderly _) hstay hrun
  obtain ⟨lifetime, hlifetime⟩ := Option.isSome_iff_exists.mp hrevoke
  have hsettings : ((start settings around daemonRuns).actAll before).ledger.settings = settings := by
    rw [settings_ledger_actAll, ledger_start]
  have hact := ledger_act ((start settings around daemonRuns).actAll before) a
  rw [actAll_append, actAll_cons, actAll_nil, ← guards_ledger, hact]
  exact Ledger.guards_perform_of_grants (by rw [hsettings, hlifetime]) hgrant

/-- What leads to the loss of a timer: when the override of `/work/notes.md` is due, a directory is
in the way of the new policy file. -/
def failedRevocation : List Action :=
  [.change (.makeDirs "/p/es_policy.tmp"), .pass 180000, .fireExpiry 1, .takeEvent,
    .change (.removeDir "/p/es_policy.tmp")]

/-- Until its timer has fired the override is guarded, since nothing has forgotten it. -/
theorem guards_until_revocation :
    ((start (.ofPaths (.inDir "/p")) (.emptyDir "/p") false).actAll
      (.send (.requestOverride "/work/notes.md") :: .takeRequest :: failedRevocation.take 3)).Guards
        "/work/notes.md" :=
  (guards_iff_never_forgotten (.ofPaths (.inDir "/p")) (.emptyDir "/p") false rfl "/work/notes.md"
    [.send (.requestOverride "/work/notes.md")] .takeRequest (failedRevocation.take 3)
    (by decide +kernel) (by decide +kernel) (by decide +kernel)).mpr (by decide +kernel)

/-- An override that is in force, and was neither taken back nor put into force again, need not be
guarded: its timer is given up before the attempt to take it back, which can fail. -/
theorem override_stays_after_failed_revocation :
    ¬ ∀ (settings : Settings) (around : Surroundings) (daemonRuns : Bool),
      settings.autoRevoke.isSome → settings.daemon.overrideHelper = none →
      ∀ (p : String) (before : List Action) (a : Action) (after : List Action),
      Grants p ((start settings around daemonRuns).actAll before) a →
      Along (fun m a => ¬ TakesBack p m a)
        ((start settings around daemonRuns).actAll (before ++ [a])) after →
      ((start settings around daemonRuns).actAll (before ++ a :: after)).running →
      p ∈ ((start settings around daemonRuns).actAll
        (before ++ a :: after)).engine.policy.policy.temporaryOverrides →
      ((start settings around daemonRuns).actAll (before ++ a :: after)).Guards p := by
  intro h
  obtain ⟨g, hslot, -⟩ := h (.ofPaths (.inDir "/p")) (.emptyDir "/p") false rfl rfl "/work/notes.md"
    [.send (.requestOverride "/work/notes.md")] .takeRequest failedRevocation (by decide +kernel)
    (by decide +kernel) (by decide +kernel) (by decide +kernel)
  have hnone : ((start (.ofPaths (.inDir "/p")) (.emptyDir "/p") false).actAll
      (.send (.requestOverride "/work/notes.md") :: .takeRequest ::
        failedRevocation)).engine.expiry.generation? "/work/notes.md" = none := by
    decide +kernel
  exact absurd (hnone.symm.trans hslot) (by simp)

end Monitor

end DenialMonitor
