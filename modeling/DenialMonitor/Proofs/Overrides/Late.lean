import DenialMonitor.Proofs.Overrides.AutoRevoke

set_option autoImplicit false

/-!
# Firings that come late

The firing of an override's timer is queued, and other events and requests may be handled before
it: the override may have been put into force again, or taken back, when its turn comes. The firing
carries the generation of its timer. It counts only if that is the generation in the slot of the
path, and then it is the one which the latest grant has put there. Any other firing is dropped
without a trace.

So every grant pays for one firing at most, and the firing of an earlier timer does not shorten the
time of a later grant. All this holds whatever happens to the policy file, and whether the monitor
applies overrides itself or has a helper.

## Main definitions

* `Monitor.CallsBack` — a user takes back the override of a path, or all, and the edit succeeds.
* `Monitor.Handles` — the firing of a timer is handled.
* `Monitor.IsLatest` — a timer is the one that the latest grant of a path has started, and it was
  neither called back nor handled since.
* `Monitor.countAlong` — how many actions of a run have a property.
* `Ledger.Kept` — the override of a path is not to end before its deadline.

## Main results

* `Ledger.generation?_perform_cases` — where the generation in a slot comes from.
* `Ledger.Kept.perform` — every deed that neither calls an override back nor loads a policy without
  it keeps it until its deadline.
* `Monitor.late_firings_are_harmless` — late firings are harmless.
-/

namespace DenialMonitor

/-- Whether a deed takes back the override of `p`, or all overrides, on the word of a user. An edit
that cannot be written is none. -/
def Deed.callsBack (p : String) : Deed → Bool
  | .remove q e => q = p && e.result.isOk
  | .clear e => e.result.isOk
  | _ => false

/-- An override that is called back loses its timer. -/
theorem Deed.retires_of_callsBack {p : String} {d : Deed} (h : d.callsBack p) : d.retires p := by
  cases d with
  | remove q e => exact h
  | clear e => exact h
  | _ => simp [Deed.callsBack] at h

theorem Deed.retires_of_revokes {p : String} {d : Deed} (h : d.revokes p) : d.retires p := by
  cases d with
  | revoke q e => exact h
  | _ => simp [Deed.revokes] at h

theorem Deed.not_revokes_of_grants {p : String} {d : Deed} (h : d.grants p) : ¬ d.revokes p := by
  cases d <;> simp_all [Deed.grants, Deed.revokes]

namespace Ledger

variable {l : Ledger} {d : Deed} {p : String} {deadline lifetime : Nat}

/-! ## Where the generation in a slot comes from -/

/-- A grant starts a timer, if overrides have a lifetime. -/
theorem expiry_perform_of_grants (hgrant : d.grants p) :
    (l.perform d).expiry = match l.settings.autoRevoke with
      | none => l.expiry
      | some lifetime => (l.expiry.schedule p (dueAfter l.now lifetime)).2 := by
  have hschedule (l : Ledger) : (l.schedule p).expiry = match l.settings.autoRevoke with
      | none => l.expiry
      | some lifetime => (l.expiry.schedule p (dueAfter l.now lifetime)).2 := by
    rw [schedule]
    cases l.settings.autoRevoke <;> rfl
  cases d with
  | request q e =>
    obtain ⟨rfl, hok⟩ : q = p ∧ e.result.isOk = true := by simpa [Deed.grants] using hgrant
    simp only [perform, hok, if_true]
    exact hschedule (l.adopt e)
  | grant q =>
    obtain rfl : q = p := by simpa [Deed.grants] using hgrant
    exact hschedule { l with store := l.store.reload l.disk }
  | _ => simp [Deed.grants] at hgrant

/-- Overrides that have no lifetime have no timers, after every deed. -/
theorem generation?_perform_of_autoRevoke_eq_none (hrevoke : l.settings.autoRevoke = none)
    (h : l.expiry.generation? p = none) : (l.perform d).expiry.generation? p = none := by
  by_cases hgrant : d.grants p
  · rw [expiry_perform_of_grants hgrant, hrevoke]
    exact h
  · exact generation?_perform_of_not_grants hgrant h

/-- The generation in a slot after a deed is a new one that a grant has put there, or it was there
before and the deed does not give it up. -/
theorem generation?_perform_cases {g : Nat}
    (hnone : l.settings.autoRevoke = none → l.expiry.generation? p = none)
    (h : (l.perform d).expiry.generation? p = some g) :
    d.grants p ∧ g = l.expiry.latest + 1 ∨
      ¬ d.grants p ∧ ¬ d.retires p ∧ l.expiry.generation? p = some g := by
  by_cases hgrant : d.grants p
  · left
    cases hrevoke : l.settings.autoRevoke with
    | none =>
      have := generation?_perform_of_autoRevoke_eq_none (d := d) hrevoke (hnone hrevoke)
      simp [this] at h
    | some lifetime =>
      rw [expiry_perform_of_grants hgrant, hrevoke] at h
      simp only [KeyedTimers.generation?_schedule, if_true, KeyedTimers.fst_schedule] at h
      exact ⟨hgrant, (Option.some.inj h).symm⟩
  · right
    have hretires : ¬ d.retires p := by
      intro hretires
      simp [generation?_perform_of_retires hretires] at h
    rw [generation?_perform_of_not_retires hgrant hretires] at h
    exact ⟨hgrant, hretires, h⟩

/-- The timer with the generation in a slot was there before a deed, or a grant has just started it. -/
theorem mem_sleepers_perform_cases {s : Sleeper String} (hl : l.Orderly)
    (hrevoke : l.settings.autoRevoke = some lifetime) (hs : s ∈ (l.perform d).expiry.sleepers)
    (hg : (l.perform d).expiry.generation? p = some s.generation) :
    s.due = dueAfter l.now lifetime ∨
      s ∈ l.expiry.sleepers ∧ l.expiry.generation? p = some s.generation := by
  rcases generation?_perform_cases (by simp [hrevoke]) hg with ⟨hgrant, hnew⟩ | ⟨-, -, hold⟩
  · left
    rw [expiry_perform_of_grants hgrant, hrevoke] at hs
    rcases KeyedTimers.mem_sleepers_schedule.mp hs with rfl | ⟨hs, -⟩
    · rfl
    · have := hl.expiry.sleeper_le s hs
      omega
  · right
    rcases mem_sleepers_perform hs with hs | hnew
    · exact ⟨hs, hold⟩
    · have := hl.expiry.slot_le p _ hold
      omega

/-! ## How much is told -/

/-- How often was told that the override of `p` was taken back, with one more if it still may be. -/
def tellings (l : Ledger) (p : String) : Nat :=
  (l.notices p).length + (l.expiry.isPending p).toNat

/-- Of a path is told at most once more after a revocation. -/
theorem length_notices_perform_le (l : Ledger) (d : Deed) (p : String) :
    ((l.perform d).notices p).length ≤ (l.notices p).length + 1 := by
  by_cases hrevokes : d.revokes p
  · cases d with
    | revoke q e =>
      simp only [perform, notices]
      split
      · rw [List.filter_cons]
        split <;> simp
      · omega
    | _ => simp [Deed.revokes] at hrevokes
  · rw [notices_perform hrevokes]
    omega

/-- Only a grant makes it possible that more is told.

**Proof sketch.** Of `p` is told where the firing of its current timer is handled, and that empties
the slot. Without a grant an empty slot stays empty, and a grant leaves what was told. -/
theorem tellings_perform_le (hallow : l.Allows d) :
    (l.perform d).tellings p ≤ l.tellings p + (d.grants p).toNat := by
  unfold tellings KeyedTimers.isPending
  by_cases hgrant : d.grants p
  · rw [notices_perform (Deed.not_revokes_of_grants hgrant), hgrant]
    have := ((l.perform d).expiry.generation? p).isSome.toNat_le
    simp only [Bool.toNat_true]
    omega
  · by_cases hrevokes : d.revokes p
    · have hafter := generation?_perform_of_retires (l := l) (Deed.retires_of_revokes hrevokes)
      have hbefore : l.expiry.generation? p ≠ none :=
        fun h => not_revokes_of_generation?_eq_none h hallow hrevokes
      have hsome : (l.expiry.generation? p).isSome = true := Option.isSome_iff_ne_none.mpr hbefore
      have := length_notices_perform_le l d p
      rw [hafter, hsome]
      simp only [Option.isSome_none, Bool.toNat_false, Bool.toNat_true]
      omega
    · rw [notices_perform hrevokes]
      cases h : l.expiry.generation? p with
      | none =>
        rw [generation?_perform_of_not_grants hgrant h]
        omega
      | some g =>
        have := ((l.perform d).expiry.generation? p).isSome.toNat_le
        simp only [Option.isSome_some, Bool.toNat_true]
        omega

/-! ## What is kept until its deadline -/

/-- The override of `p` is not to end before its deadline: it is in force until then, no current
timer of `p` fires earlier, and neither does one of a grant that is still to come. -/
structure Kept (l : Ledger) (p : String) (deadline lifetime : Nat) : Prop where
  revoke_eq : l.settings.autoRevoke = some lifetime
  le_dueAfter : deadline ≤ dueAfter l.now lifetime
  le_due : ∀ s ∈ l.expiry.sleepers, l.expiry.generation? p = some s.generation → deadline ≤ s.due
  le_now : ∀ g, (p, g) ∈ l.fired → l.expiry.generation? p = some g → deadline ≤ l.now
  mem : l.now < deadline → p ∈ l.overrides

/-- Time does not go back. -/
theorem le_now_perform (l : Ledger) (d : Deed) : l.now ≤ (l.perform d).now := by
  rcases now_perform l d with h | ⟨span, -, h⟩ <;> omega

/-- An edit that does not take the override of `p` back leaves it in force. -/
theorem mem_overrides_perform_of_edit? {e : PolicyEdit} (hallow : l.Allows d)
    (he : d.edit? = some e) (hback : ¬ d.callsBack p) (hrevokes : ¬ d.revokes p)
    (h : p ∈ l.overrides) : p ∈ (l.perform d).overrides := by
  by_cases hwell : l.GoesWell d
  · rw [overrides_perform_of_edit? hallow hwell he]
    cases d with
    | request q e' =>
      obtain rfl : PolicyEdit.add q = e := Option.some.inj he
      simp only [PolicyEdit.overrides]
      split
      · exact h
      · exact List.mem_append_left _ h
    | remove q e' =>
      obtain rfl : PolicyEdit.remove q = e := Option.some.inj he
      have hok : e'.result.isOk = true := hwell
      have hne : p ≠ q := fun hq => hback (by simp [Deed.callsBack, hq, hok])
      simp [PolicyEdit.overrides, h, hne]
    | revoke q e' =>
      obtain rfl : PolicyEdit.remove q = e := Option.some.inj he
      have hne : p ≠ q := fun hq => hrevokes (by simp [Deed.revokes, hq])
      simp [PolicyEdit.overrides, h, hne]
    | clear e' => exact absurd hwell hback
    | _ => simp [Deed.edit?] at he
  · -- an edit that fails leaves the policy in memory as it was
    have hfails := mt (goesWell_iff hallow he).mpr hwell
    have hstore := StoreState.store_edit_of_not_ok hfails
    rw [← state_perform_of_edit? hallow he] at hstore
    have hsame : (l.perform d).overrides = l.overrides :=
      congrArg (·.policy.temporaryOverrides) hstore
    rwa [hsame]

/-- An override that is in force stays so unless it is taken back, or a policy without it is
loaded. -/
theorem mem_overrides_perform_of_not_callsBack (hallow : l.Allows d)
    (hload : d.loads → p ∈ (SecurityPolicy.ofFile l.state.file?).temporaryOverrides)
    (hback : ¬ d.callsBack p) (hrevokes : ¬ d.revokes p) (h : p ∈ l.overrides) :
    p ∈ (l.perform d).overrides := by
  cases he : d.edit? with
  | some e => exact mem_overrides_perform_of_edit? hallow he hback hrevokes h
  | none =>
    by_cases hl : d.loads
    · have hstate := congrArg (·.store.policy.temporaryOverrides) (state_perform_of_loads (l := l) hl)
      rw [overrides]
      exact hstate ▸ hload hl
    · have hstore := congrArg (·.policy.temporaryOverrides) (store_perform (l := l) he hl)
      rw [overrides]
      exact hstore ▸ h

/-- What is kept until its deadline is kept by every deed that neither calls it back nor loads a
policy without it.

**Proof sketch.** The slot of `p` holds the generation from before, or that of a grant, which is due
later. So no current timer fires before the deadline, and a firing that is handled before it is not
that of the current timer. -/
theorem Kept.perform (h : l.Kept p deadline lifetime) (hl : l.Orderly) (hallow : l.Allows d)
    (hload : d.loads → p ∈ (SecurityPolicy.ofFile l.state.file?).temporaryOverrides)
    (hback : ¬ d.callsBack p) : (l.perform d).Kept p deadline lifetime := by
  have hnow := le_now_perform l d
  have hdueAfter : deadline ≤ l.now + min lifetime longestWait := h.le_dueAfter
  refine ⟨by rw [settings_perform]; exact h.revoke_eq, ?_, fun s hs hg => ?_, fun g hf hg => ?_,
    fun hlt => ?_⟩
  · rw [dueAfter]
    omega
  · rcases mem_sleepers_perform_cases hl h.revoke_eq hs hg with hdue | ⟨hs, hg⟩
    · rw [hdue]
      exact h.le_dueAfter
    · exact h.le_due s hs hg
  · rcases generation?_perform_cases (by simp [h.revoke_eq]) hg with ⟨-, hnew⟩ | ⟨-, -, hold⟩
    · -- a firing that is queued is that of an earlier timer
      rcases mem_fired_perform hf with hf | ⟨s, hs, -, heq⟩
      · have := hl.fired_le _ hf
        omega
      · have := hl.expiry.sleeper_le s hs
        have : g = s.generation := (Prod.mk.inj heq).2
        omega
    · rcases mem_fired_perform hf with hf | ⟨s, hs, hdue, heq⟩
      · exact Nat.le_trans (h.le_now g hf hold) hnow
      · obtain ⟨-, rfl⟩ := Prod.mk.inj heq
        have := h.le_due s hs hold
        omega
  · have hbefore : l.now < deadline := Nat.lt_of_le_of_lt hnow hlt
    have hrevokes : ¬ d.revokes p := by
      intro hrevokes
      cases d with
      | revoke q e =>
        obtain rfl : q = p := by simpa [Deed.revokes] using hrevokes
        obtain ⟨-, g, hhead, hg⟩ := hallow
        have := h.le_now g (List.mem_of_mem_head? hhead) hg
        omega
      | _ => simp [Deed.revokes] at hrevokes
    exact mem_overrides_perform_of_not_callsBack hallow hload hback hrevokes (h.mem hbefore)

/-- What is put into force is kept until its lifetime is over.

**Proof sketch.** The slot of `p` holds the generation of the new timer, which no other timer and no
queued firing has. -/
theorem kept_perform_of_grants (hl : l.Orderly) (hrevoke : l.settings.autoRevoke = some lifetime)
    (hallow : l.Allows d)
    (hload : d.loads → p ∈ (SecurityPolicy.ofFile l.state.file?).temporaryOverrides)
    (hgrant : d.grants p) : (l.perform d).Kept p (dueAfter l.now lifetime) lifetime := by
  have hnow := le_now_perform l d
  have hslot {g : Nat} (hg : (l.perform d).expiry.generation? p = some g) :
      g = l.expiry.latest + 1 := by
    rcases generation?_perform_cases (by simp [hrevoke]) hg with ⟨-, hnew⟩ | ⟨hnot, -, -⟩
    · exact hnew
    · exact absurd hgrant hnot
  refine ⟨by rw [settings_perform]; exact hrevoke, ?_, fun s hs hg => ?_, fun g hf hg => ?_,
    fun _ => ?_⟩
  · simp only [dueAfter]
    omega
  · rcases mem_sleepers_perform_cases hl hrevoke hs hg with hdue | ⟨hs, -⟩
    · exact Nat.le_of_eq hdue.symm
    · have := hl.expiry.sleeper_le s hs
      have := hslot hg
      omega
  · rcases mem_fired_perform hf with hf | ⟨s, hs, -, heq⟩
    · have hle : g ≤ l.expiry.latest := hl.fired_le (p, g) hf
      have := hslot hg
      omega
    · have := hl.expiry.sleeper_le s hs
      have : g = s.generation := (Prod.mk.inj heq).2
      have := hslot hg
      omega
  · cases d with
    | request q e =>
      obtain ⟨rfl, hok⟩ : q = p ∧ e.result.isOk = true := by simpa [Deed.grants] using hgrant
      rw [overrides_perform_of_edit? hallow hok rfl]
      simp only [PolicyEdit.overrides]
      split
      · assumption
      · exact List.mem_append_right _ (List.mem_singleton_self _)
    | grant q =>
      have hstate := congrArg (·.store.policy.temporaryOverrides)
        (state_perform_of_loads (l := l) (d := .grant q) rfl)
      rw [overrides]
      exact hstate ▸ hload rfl
    | _ => simp [Deed.grants] at hgrant

end Ledger

namespace Monitor

variable {m : Monitor} {a : Action} {p : String} {g : Nat}

/-! ## What happens to a timer -/

/-- A user takes back the override of `p`, or all overrides, and the policy could be written. -/
def CallsBack (p : String) (m : Monitor) (a : Action) : Prop :=
  (m.deed a).callsBack p

instance (p : String) (m : Monitor) (a : Action) : Decidable (CallsBack p m a) :=
  inferInstanceAs (Decidable (_ = true))

/-- The owning task takes the firing of the timer of `p` with generation `g`. -/
def Handles (p : String) (g : Nat) (m : Monitor) (a : Action) : Prop :=
  (a matches .takeEvent) ∧ m.events.head?.bind Event.firing? = some (p, g)

instance (p : String) (g : Nat) (m : Monitor) (a : Action) : Decidable (Handles p g m a) :=
  inferInstanceAs (Decidable (_ ∧ _))

/-- In a run from `m` the timer of `p` with generation `g` was started by the latest grant of `p`,
and it was neither called back nor handled since. -/
def IsLatest (p : String) (g : Nat) (m : Monitor) (actions : List Action) : Prop :=
  ∃ before a after, actions = before ++ a :: after ∧
    Grants p (m.actAll before) a ∧
    g = (m.actAll before).engine.expiry.latest + 1 ∧
    Along (fun m a => ¬ Grants p m a ∧ ¬ CallsBack p m a ∧ ¬ Handles p g m a)
      (m.actAll (before ++ [a])) after

/-- The event that tells of a firing. -/
theorem exists_events_eq (h : m.events.head?.bind Event.firing? = some (p, g)) :
    ∃ rest, m.events = .overrideExpired p g :: rest := by
  obtain ⟨e, hhead, hfiring⟩ := Option.bind_eq_some_iff.mp h
  obtain ⟨rest, hevents⟩ := List.head?_eq_some_iff.mp hhead
  refine ⟨rest, ?_⟩
  cases e with
  | overrideExpired q g' =>
    obtain ⟨rfl, rfl⟩ : q = p ∧ g' = g := by simpa [Event.firing?] using hfiring
    exact hevents
  | _ => simp [Event.firing?] at hfiring

/-- The firing of the current timer takes its slot away. -/
theorem retires_of_handles (hg : m.engine.expiry.generation? p = some g) (h : Handles p g m a) :
    (m.deed a).retires p := by
  obtain ⟨htake, hhead⟩ := h
  obtain ⟨rest, hevents⟩ := exists_events_eq hhead
  cases a with
  | takeEvent => simp [deed, hevents, eventDeed, hg, Deed.retires]
  | _ => simp at htake

/-- Without a lifetime no path has a timer, after every run from the start. -/
theorem generation?_actAll_of_autoRevoke_eq_none (actions : List Action)
    (hrevoke : m.settings.autoRevoke = none) (h : m.engine.expiry.generation? p = none) :
    (m.actAll actions).engine.expiry.generation? p = none := by
  induction actions generalizing m with
  | nil => exact h
  | cons a actions ih =>
    apply ih
    · have hsettings := Ledger.settings_perform m.ledger (m.deed a)
      rw [← ledger_act] at hsettings
      exact (congrArg (·.autoRevoke) hsettings).trans hrevoke
    · have hslot : m.ledger.expiry.generation? p = none := h
      have hnext := Ledger.generation?_perform_of_autoRevoke_eq_none (d := m.deed a) hrevoke hslot
      rw [← ledger_act] at hnext
      exact hnext

/-- The timer in the slot of a path is the latest one.

**Proof sketch.** By induction on the run, at its end. The last action is a grant that has put the
generation there, or it leaves the generation that was there. It does not call it back and does not
handle its firing then, since both would empty the slot. -/
theorem isLatest_of_generation? (hnone : ∀ p, m.engine.expiry.generation? p = none)
    (actions : List Action) (h : (m.actAll actions).engine.expiry.generation? p = some g) :
    IsLatest p g m actions := by
  induction actions using List.reverseRecOn generalizing g with
  | nil => simp [hnone p] at h
  | append_singleton actions b ih =>
    have hbefore : (m.actAll actions).settings.autoRevoke = none →
        (m.actAll actions).engine.expiry.generation? p = none := by
      intro hrevoke
      apply generation?_actAll_of_autoRevoke_eq_none actions ?_ (hnone p)
      have hsettings := settings_ledger_actAll m actions
      exact (congrArg (·.autoRevoke) hsettings).symm.trans hrevoke
    have hslot : ((m.actAll actions).ledger.perform ((m.actAll actions).deed b)).expiry.generation? p
        = some g := by
      rw [← ledger_act]
      rw [actAll_append] at h
      exact h
    rcases Ledger.generation?_perform_cases hbefore hslot with ⟨hgrant, hnew⟩ | ⟨hgrant, hkeep, hold⟩
    · exact ⟨actions, b, [], rfl, hgrant, hnew, trivial⟩
    · obtain ⟨before, a, after, rfl, hgrants, hg, halong⟩ := ih hold
      refine ⟨before, a, after ++ [b], by simp, hgrants, hg, ?_⟩
      have hsplit : (m.actAll (before ++ [a])).actAll after = m.actAll (before ++ a :: after) := by
        rw [← actAll_append, List.append_assoc, List.singleton_append]
      refine along_append.mpr ⟨halong, ?_, trivial⟩
      rw [hsplit]
      exact ⟨hgrant, fun hback => hkeep (Deed.retires_of_callsBack hback),
        fun hhandles => hkeep (retires_of_handles hold hhandles)⟩

/-- A firing that is not that of the current timer is dropped without a trace. -/
theorem act_takeEvent_of_stale {rest : List Event}
    (hevents : m.events = .overrideExpired p g :: rest)
    (hg : m.engine.expiry.generation? p ≠ some g) :
    m.act .takeEvent = { m with events := rest } := by
  simp only [act, takeEvent, hevents, handleEvent, expireOverride, KeyedTimers.complete, hg,
    if_false]

/-! ## How much is told -/

/-- How many actions of a run have a property, each in the state in which it is taken. -/
def countAlong (P : Monitor → Action → Prop) [∀ m a, Decidable (P m a)] :
    Monitor → List Action → Nat
  | _, [] => 0
  | m, a :: actions => (decide (P m a)).toNat + countAlong P (m.act a) actions

/-- What is told of `p` in a run, or still may be, is paid for by grants. -/
theorem tellings_actAll_le (m : Monitor) (actions : List Action) :
    (m.actAll actions).ledger.tellings p ≤
      m.ledger.tellings p + countAlong (Grants p) m actions := by
  induction actions generalizing m with
  | nil => exact Nat.le_refl _
  | cons a actions ih =>
    have hact := Ledger.tellings_perform_le (p := p) (allows_deed m a)
    rw [← ledger_act] at hact
    have hgrants : decide (Grants p m a) = (m.deed a).grants p := by
      unfold Grants
      exact Bool.decide_eq_true
    have hrest : ((m.act a).actAll actions).ledger.tellings p ≤
        (m.act a).ledger.tellings p + countAlong (Grants p) (m.act a) actions := ih (m.act a)
    rw [actAll_cons, countAlong, hgrants]
    omega

/-! ## What is kept until its deadline -/

/-- What is kept until its deadline is kept by every run in which it is neither called back nor a
policy without it is loaded. -/
theorem kept_actAll {deadline lifetime : Nat} {actions : List Action}
    (h : m.ledger.Kept p deadline lifetime) (hl : m.ledger.Orderly)
    (hload : Along (fun m a => m.Loads a →
      p ∈ (SecurityPolicy.ofFile m.policyFile?).temporaryOverrides) m actions)
    (hback : Along (fun m a => ¬ CallsBack p m a) m actions) :
    (m.actAll actions).ledger.Kept p deadline lifetime := by
  induction actions generalizing m with
  | nil => exact h
  | cons a actions ih =>
    have hact := h.perform hl (allows_deed m a) hload.1 hback.1
    have hl' := hl.perform (m.deed a)
    rw [← ledger_act] at hact hl'
    exact ih hact hl' hload.2 hback.2

/-- What is put into force is in force until its deadline, if it is not called back until then and
no policy without it is loaded. -/
theorem mem_overrides_of_grants {lifetime : Nat} {after : List Action} (hl : m.ledger.Orderly)
    (hrevoke : m.settings.autoRevoke = some lifetime) (hgrants : Grants p m a)
    (hload : Along (fun m a => m.Loads a →
      p ∈ (SecurityPolicy.ofFile m.policyFile?).temporaryOverrides) m (a :: after))
    (hback : Along (fun m a => ¬ CallsBack p m a) (m.act a) after)
    (hlt : ((m.act a).actAll after).around.now < dueAfter m.around.now lifetime) :
    p ∈ ((m.act a).actAll after).overrides := by
  have hkept := Ledger.kept_perform_of_grants hl hrevoke (allows_deed m a) hload.1 hgrants
  have hl' := hl.perform (m.deed a)
  rw [← ledger_act] at hkept hl'
  exact (kept_actAll hkept hl' hload.2 hback).mem hlt

/-! ## Runs from the start -/

/-- No override has been put into force yet. -/
structure Fresh (m : Monitor) : Prop where
  orderly : m.ledger.Orderly
  slot : ∀ p, m.engine.expiry.generation? p = none
  notices : ∀ p, m.notices p = []

theorem fresh_start (settings : Settings) (around : Surroundings) (daemonRuns : Bool) :
    (start settings around daemonRuns).Fresh := by
  refine ⟨orderly_start settings around daemonRuns, fun p => ?_, fun p => ?_⟩
  · rw [← expiry_ledger, ledger_start]
    rfl
  · rw [notices, ledger_start]
    rfl

/-- Of the end of overrides is told at most once for each grant. -/
theorem Fresh.length_notices_le (h : m.Fresh) (actions : List Action) :
    ((m.actAll actions).notices p).length ≤ countAlong (Grants p) m actions := by
  have hzero : m.ledger.tellings p = 0 := by
    have hnotices : m.ledger.notices p = [] := h.notices p
    have hslot : m.ledger.expiry.generation? p = none := h.slot p
    simp [Ledger.tellings, hnotices, KeyedTimers.isPending, hslot]
  have hall := tellings_actAll_le (p := p) m actions
  rw [hzero, Nat.zero_add] at hall
  exact Nat.le_trans (Nat.le_add_right _ _) hall

/-- **Late firings are harmless.** After any run, and for every path `p`: handling the firing of a
timer of `p` changes nothing at all, except where that timer was started by the latest grant of `p`,
and since then the override was not called back and the firing was not handled. So it is not told
more often that the override of `p` was taken back than it was put into force. And an override that
was put into force is in force until its own deadline, whichever firings of `p` are queued by then
and later, if no user calls it back and no policy without it is loaded.

**Proof sketch.** A firing counts only with the generation in the slot of `p`, which is that of the
latest grant. It empties the slot, so it takes another grant until the next one counts. The timer of
a grant is not due before the deadline, and that of a later grant is due later. -/
theorem late_firings_are_harmless (settings : Settings) (around : Surroundings) (daemonRuns : Bool)
    (p : String) (actions : List Action) :
    let s := start settings around daemonRuns
    let m := s.actAll actions
    (∀ g rest, m.events = .overrideExpired p g :: rest → m.act .takeEvent ≠ { m with events := rest } →
      IsLatest p g s actions) ∧
    (m.notices p).length ≤ countAlong (Grants p) s actions ∧
    (∀ lifetime before a after, settings.autoRevoke = some lifetime →
      actions = before ++ a :: after → Grants p (s.actAll before) a →
      Along (fun m a => m.Loads a → p ∈ (SecurityPolicy.ofFile m.policyFile?).temporaryOverrides)
        (s.actAll before) (a :: after) →
      Along (fun m a => ¬ CallsBack p m a) (s.actAll (before ++ [a])) after →
      m.around.now < dueAfter (s.actAll before).around.now lifetime → p ∈ m.overrides) := by
  intro s
  have hfresh : s.Fresh := fresh_start settings around daemonRuns
  have hsettings : s.ledger.settings = settings :=
    congrArg (·.settings) (ledger_start settings around daemonRuns)
  clear_value s
  intro m
  refine ⟨fun g rest hevents hchanges => ?_, hfresh.length_notices_le actions, ?_⟩
  · apply isLatest_of_generation? hfresh.slot actions
    by_contra hg
    exact hchanges (act_takeEvent_of_stale hevents hg)
  · intro lifetime before a after hrevoke hactions hgrants hload hback hlt
    have hm : m = ((s.actAll before).act a).actAll after := by
      show s.actAll actions = _
      rw [hactions, actAll_append, actAll_cons]
    have hrevoke' : (s.actAll before).settings.autoRevoke = some lifetime := by
      rw [← settings_ledger, settings_ledger_actAll, hsettings]
      exact hrevoke
    rw [actAll_append] at hback
    rw [hm] at hlt ⊢
    exact mem_overrides_of_grants (orderly_actAll hfresh.orderly before) hrevoke' hgrants hload hback
      hlt

/-- A path is opened for 100 milliseconds, and opened again after its timer has fired, but before the
firing is handled. -/
def reopened : List Action :=
  [.send (.requestOverride "/work/a"), .takeRequest, .pass 100, .fireExpiry 1,
    .send (.requestOverride "/work/a"), .takeRequest]

/-- The first firing counts as long as the path was not opened again. After that it is dropped, and
the path is open until the second deadline. -/
theorem reopened_until_second_deadline :
    let s := start shortLived (.emptyDir "/p") false
    IsLatest "/work/a" 1 s (reopened.take 4) ∧
      ((s.actAll reopened).notices "/work/a").length ≤ 2 ∧
      "/work/a" ∈ (s.actAll (reopened ++ [.takeEvent, .pass 99])).overrides := by
  have hbefore := late_firings_are_harmless shortLived (.emptyDir "/p") false "/work/a"
    (reopened.take 4)
  have hagain := late_firings_are_harmless shortLived (.emptyDir "/p") false "/work/a" reopened
  have hafter := late_firings_are_harmless shortLived (.emptyDir "/p") false "/work/a"
    (reopened ++ [.takeEvent, .pass 99])
  refine ⟨?_, ?_, ?_⟩
  · let m := (start shortLived (.emptyDir "/p") false).actAll (reopened.take 4)
    obtain ⟨rest, hevents⟩ : ∃ rest, m.events = .overrideExpired "/work/a" 1 :: rest :=
      exists_events_eq (by decide +kernel)
    refine hbefore.1 1 rest hevents fun h => ?_
    have hcount : (m.act .takeEvent).outputs.length ≠ m.outputs.length := by decide +kernel
    exact hcount (congrArg (·.outputs.length) h)
  · exact Nat.le_trans hagain.2.1 (by decide +kernel)
  · exact hafter.2.2 100 (reopened.take 5) .takeRequest [.takeEvent, .pass 99] rfl rfl
      (by decide +kernel) (by decide +kernel) (by decide +kernel) (by decide +kernel)

end Monitor

end DenialMonitor
