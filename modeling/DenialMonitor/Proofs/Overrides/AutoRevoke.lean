import DenialMonitor.Proofs.Overrides.Deadline

set_option autoImplicit false

/-!
# Overrides are taken back in time

A monitor that applies overrides itself and gives them a lifetime takes each of them back when its
lifetime is over, neither earlier nor later, and tells of it once. This takes runs in which edits of
the policy succeed and nobody else changes its file.

An override becomes a promise when it is granted. Pending, it has a timer, or a firing that was not
taken yet, and it is in force in memory and in the file; over, it has neither and is in force in
neither. One action after the other keeps this, and a monitor that is settled has no promise
pending whose deadline has come.

## Main definitions

* `Monitor.Undisturbed` — an action that does not interfere with the policy file.
* `Monitor.Steady` — what holds all along in undisturbed runs.
* `Monitor.KeepsWord` — the promise that comes with an override, as it can be observed.
* `Monitor.Promised` — the promise that comes with an override, as it is kept.

## Main results

* `Monitor.Steady.act`, `Monitor.Promised.act` — one action keeps what holds all along, and every
  promise.
* `Monitor.taken_back_in_time` — overrides are taken back in time.
-/

namespace DenialMonitor

/-- The state file is another file than the policy file, and so is its temporary file. -/
structure MonitorPaths.StateApart (paths : MonitorPaths) : Prop where
  state : Disk.Apart paths.policy paths.state
  temporary : Disk.Apart paths.policy (AtomicWrite.temporary paths.state)

namespace Monitor

variable {m : Monitor} {a : Action} {p : String}

/-! ## Undisturbed runs -/

/-- An action does not interfere: edits of the policy succeed, nobody else changes its file, and time
passes only as it may. -/
def Undisturbed (m : Monitor) : Action → Prop
  | .pass span => m.MayPass span
  | .change c => (m.act (.change c)).policyFile? = m.policyFile?
  | a => ∀ e ∈ (m.deed a).edit?, (m.ledger.state.edit e).2 = true

instance (m : Monitor) (a : Action) : Decidable (m.Undisturbed a) := by
  cases a <;> unfold Undisturbed <;> infer_instance

/-- What holds all along in undisturbed runs of a monitor without a helper. -/
structure Steady (m : Monitor) : Prop where
  orderly : m.ledger.Orderly
  tidy : m.engine.policy.policy.Tidy
  path_eq : m.engine.policy.path = m.settings.paths.policy
  apart : m.settings.paths.StateApart
  unhelped : m.Unhelped
  agrees : m.ledger.Agrees ∨ m.ledger.overrides = []

/-- Taking note of a record leaves the policy file as it is. -/
theorem Steady.read?_acknowledge (h : m.Steady) (id : RecordId) {content : List UInt8}
    (hread : m.around.disk.read? m.engine.policy.path = some content) :
    (Acknowledgement.save m.around.disk m.settings.paths.state id).1.read? m.engine.policy.path =
      some content := by
  rw [h.path_eq] at hread ⊢
  exact Disk.read?_writeAtomically_of_apart h.apart.state h.apart.temporary hread

/-- The deed of an action that does not interfere goes well.

**Proof sketch.** Edits succeed by assumption. Apart from them the monitor writes the state file,
which is another file. It never hears of a helper, and it does not end. -/
theorem Steady.goesWell (h : m.Steady) (hund : m.Undisturbed a) (hrun : (m.act a).running) :
    m.ledger.GoesWell (m.deed a) := by
  have hclose : m.deed a ≠ .close := (deed_ne_close hrun).2
  have hedit {e : PolicyEdit} (hund : ∀ e ∈ (m.deed a).edit?, (m.ledger.state.edit e).2 = true)
      (he : (m.deed a).edit? = some e) : m.ledger.GoesWell (m.deed a) :=
    (Ledger.goesWell_iff (allows_deed m a) he).mpr (hund e he)
  cases a with
  | pass span =>
    obtain ⟨hevents, -⟩ := nothing_ready_of_isSettled hund.1
    exact ⟨by simp [ledger, hevents], hund.le_due⟩
  | change c =>
    intro content hcontent
    have hfile : (m.act (.change c)).policyFile? = m.policyFile? := hund
    exact hfile.trans hcontent
  | takeRequest =>
    cases he : (m.deed .takeRequest).edit? with
    | some e => exact hedit hund he
    | none =>
      simp only [deed] at he hclose ⊢
      cases hrequests : m.requests with
      | nil => trivial
      | cons x rest =>
        obtain ⟨t, r⟩ := x
        rw [hrequests] at he hclose
        simp only at he hclose ⊢
        cases r with
        | refresh => trivial
        | acknowledge =>
          simp only [requestDeed]
          split
          · trivial
          · exact fun content hread => h.read?_acknowledge _ hread
        | requestOverride text =>
          simp only [requestDeed] at he ⊢
          split at he
          · next hcond => simp only [hcond, if_true]; trivial
          · simp [Deed.edit?] at he
        | removeOverride text => simp [requestDeed, Deed.edit?] at he
        | clearOverrides => simp [requestDeed, Deed.edit?] at he
        | restartDaemon => trivial
        | shutdown => exact absurd rfl hclose
  | takeEvent =>
    cases he : (m.deed .takeEvent).edit? with
    | some e => exact hedit hund he
    | none =>
      simp only [deed] at he ⊢
      cases hevents : m.events with
      | nil => trivial
      | cons e rest =>
        rw [hevents] at he
        simp only at he ⊢
        cases e with
        | changed source => cases source <;> trivial
        | overrideExpired path g =>
          simp only [eventDeed] at he ⊢
          split at he
          · simp [Deed.edit?] at he
          · next hg => simp only [hg, if_false]; trivial
        | helperFinished path result t =>
          have := h.unhelped.events (.helperFinished path result t) (by simp [hevents])
          simp [Event.isHelp] at this
        | _ => trivial
  | retire =>
    simp only [deed] at hclose ⊢
    split at hclose
    · exact absurd rfl hclose
    · next hretire => simp only [hretire]; trivial
  | _ => trivial

/-- An action that does not interfere leaves the monitor steady, as long as it runs. -/
theorem Steady.act (h : m.Steady) (hund : m.Undisturbed a) (hrun : (m.act a).running) :
    (m.act a).Steady := by
  have hallow := allows_deed m a
  have hwell := h.goesWell hund hrun
  have hledger := ledger_act m a
  have hsettings : (m.act a).settings = m.settings := by
    have := Ledger.settings_perform m.ledger (m.deed a)
    rw [← hledger] at this
    exact this
  refine ⟨hledger ▸ h.orderly.perform _, ?_, ?_, hsettings ▸ h.apart, h.unhelped.act a, ?_⟩
  · have htidy := Ledger.tidy_perform h.tidy hallow
    rw [← hledger] at htidy
    exact htidy
  · have hpath := Ledger.path_perform hallow
    rw [← hledger] at hpath
    rw [hsettings, ← h.path_eq]
    exact hpath
  · rw [hledger]
    exact Ledger.agrees_or_empty_perform h.agrees h.tidy hallow hwell

theorem steady_start {settings : Settings} (hhelper : settings.daemon.overrideHelper = none)
    (hapart : settings.paths.StateApart) (around : Surroundings) (daemonRuns : Bool) :
    (start settings around daemonRuns).Steady := by
  have hledger := ledger_start settings around daemonRuns
  have hstore : (start settings around daemonRuns).engine.policy =
      (PolicyStore.new settings.paths.policy).reload around.disk := by
    rw [← store_ledger, hledger]
  have hsettings : (start settings around daemonRuns).settings = settings := by
    rw [← settings_ledger, hledger]
  refine ⟨orderly_start settings around daemonRuns, ?_, ?_, ?_,
    unhelped_start hhelper around daemonRuns, ?_⟩
  · rw [hstore]
    exact SecurityPolicy.tidy_ofFile _
  · rw [hstore, hsettings]
    rfl
  · rw [hsettings]
    exact hapart
  · rw [hledger]
    simp only [Ledger.Agrees, Ledger.overrides, Ledger.state, StoreState.file?, PolicyStore.reload,
      PolicyStore.new, SecurityPolicy.ofFile]
    cases hparse : (around.disk.read? settings.paths.policy).bind SecurityPolicy.parse? with
    | none => exact .inr rfl
    | some q => exact .inl ⟨q, rfl, rfl⟩

/-! ## The promise -/

/-- The overrides in memory. -/
def overrides (m : Monitor) : List String :=
  m.engine.policy.policy.temporaryOverrides

/-- The overrides in the policy file, if it can be read and decoded. -/
def overridesInFile? (m : Monitor) : Option (List String) :=
  (m.policyFile?.bind SecurityPolicy.parse?).map (·.temporaryOverrides)

/-- The override of `p` is in force, in memory and in the file. -/
def IsOpen (m : Monitor) (p : String) : Prop :=
  p ∈ m.overrides ∧ ∃ overrides ∈ m.overridesInFile?, p ∈ overrides

/-- The override of `p` is not in force, neither in memory nor in the file. -/
def IsShut (m : Monitor) (p : String) : Prop :=
  p ∉ m.overrides ∧ ∃ overrides ∈ m.overridesInFile?, p ∉ overrides

/-- When it was told that the override of `p` was taken back, latest first. -/
def notices (m : Monitor) (p : String) : List Nat :=
  m.ledger.notices p

/-- A user says a word about the override of `p`. -/
def Speaks (p : String) (m : Monitor) (a : Action) : Prop :=
  (m.deed a).speaks p

instance (p : String) (m : Monitor) (a : Action) : Decidable (Speaks p m a) :=
  inferInstanceAs (Decidable (_ = true))

/-- A user takes the override of `p` back, or all overrides. -/
def Withdraws (p : String) (m : Monitor) (a : Action) : Prop :=
  Speaks p m a ∧ ¬ Grants p m a

instance (p : String) (m : Monitor) (a : Action) : Decidable (Withdraws p m a) :=
  inferInstanceAs (Decidable (_ ∧ _))

/-- The promise that comes with an override: it is in force before its deadline, and not in force
when the monitor is settled from its deadline on. Of the end it is told at most once, at the
deadline: not before, and for certain when the monitor is settled again. -/
structure KeepsWord (m : Monitor) (p : String) (deadline : Nat) (earlier : List Nat) : Prop where
  notices : m.notices p = earlier ∨ m.notices p = deadline :: earlier
  before_deadline : m.around.now < deadline → m.IsOpen p ∧ m.notices p = earlier
  from_deadline : m.isSettled → deadline ≤ m.around.now →
    m.IsShut p ∧ m.notices p = deadline :: earlier

/-- What a promise has come to: it is pending and nothing was told of it, or it is over and its end
was told. -/
def Promised (m : Monitor) (p : String) (deadline : Nat) (earlier : List Nat) : Prop :=
  m.ledger.Agrees ∧
    (m.ledger.Pending p deadline ∧ m.notices p = earlier ∨
      m.ledger.Over p deadline ∧ m.notices p = deadline :: earlier)

variable {deadline : Nat} {earlier : List Nat}

theorem isOpen_of_agrees (h : m.ledger.Agrees) (hp : p ∈ m.overrides) : m.IsOpen p := by
  obtain ⟨q, hq, hoverrides⟩ := h
  have hfile : m.policyFile?.bind SecurityPolicy.parse? = some q := hq
  refine ⟨hp, m.overrides, ?_, hp⟩
  rw [overridesInFile?, hfile, Option.map_some, hoverrides]
  rfl

theorem isShut_of_agrees (h : m.ledger.Agrees) (hp : p ∉ m.overrides) : m.IsShut p := by
  obtain ⟨q, hq, hoverrides⟩ := h
  have hfile : m.policyFile?.bind SecurityPolicy.parse? = some q := hq
  refine ⟨hp, m.overrides, ?_, hp⟩
  rw [overridesInFile?, hfile, Option.map_some, hoverrides]
  rfl

/-- No promise is pending in a settled monitor whose time has come to the deadline. -/
theorem lt_deadline_of_isSettled (h : m.ledger.Pending p deadline) (hsettled : m.isSettled) :
    m.around.now < deadline := by
  obtain ⟨hevents, hready⟩ := nothing_ready_of_isSettled hsettled
  obtain ⟨g, hg, ⟨s, hs, -, rfl⟩ | hf⟩ := h.guards
  · rw [← h.due_eq s hs hg]
    exact KeyedTimers.lt_due_of_ready?_eq_none hready s hs
  · simp [ledger, hevents] at hf

/-- What a promise has come to is what was promised. -/
theorem Promised.keepsWord (h : m.Promised p deadline earlier) :
    m.KeepsWord p deadline earlier := by
  obtain ⟨hagrees, ⟨hpending, hnotices⟩ | ⟨hover, hnotices⟩⟩ := h
  · refine ⟨.inl hnotices, fun _ => ⟨isOpen_of_agrees hagrees hpending.mem, hnotices⟩, ?_⟩
    intro hsettled hle
    have := lt_deadline_of_isSettled hpending hsettled
    omega
  · refine ⟨.inr hnotices, fun hlt => ?_, fun _ _ => ?_⟩
    · have hle : deadline ≤ m.around.now := hover.le_now
      omega
    · exact ⟨isShut_of_agrees hagrees hover.not_mem, hnotices⟩

/-- One action keeps a promise. -/
theorem Promised.act (h : m.Promised p deadline earlier) (hsteady : m.Steady)
    (hund : m.Undisturbed a) (hspeaks : ¬ Speaks p m a) (hrun : (m.act a).running) :
    (m.act a).Promised p deadline earlier := by
  have hallow := allows_deed m a
  have hwell := hsteady.goesWell hund hrun
  have hledger := ledger_act m a
  have hnow : m.ledger.running := (deed_ne_close hrun).1
  obtain ⟨hagrees, hcases⟩ := h
  unfold Promised Monitor.notices at *
  rw [hledger]
  refine ⟨hagrees.perform hsteady.tidy hallow hwell, ?_⟩
  rcases hcases with ⟨hpending, hnotices⟩ | ⟨hover, hnotices⟩
  · by_cases hrevokes : (m.deed a).revokes p
    · right
      obtain ⟨e, he⟩ : ∃ e, m.deed a = .revoke p e := by
        cases hd : m.deed a with
        | revoke q e =>
          rw [hd] at hrevokes
          obtain rfl : q = p := by simpa [Deed.revokes] using hrevokes
          exact ⟨e, rfl⟩
        | _ => simp [hd, Deed.revokes] at hrevokes
      rw [he] at hallow hwell ⊢
      have hover := hpending.perform_revoke hallow hwell
      rwa [hnotices] at hover
    · left
      rw [Ledger.notices_perform hrevokes]
      exact ⟨hpending.perform hsteady.orderly hnow hagrees hallow hwell hspeaks hrevokes, hnotices⟩
  · right
    obtain ⟨hover', hrevokes⟩ := hover.perform hagrees hallow hwell hspeaks
    rw [Ledger.notices_perform hrevokes]
    exact ⟨hover', hnotices⟩

/-- A promise is kept until the next word about it. -/
theorem Promised.actAll (h : m.Promised p deadline earlier) (hsteady : m.Steady)
    {actions : List Action} (hund : Along Undisturbed m actions)
    (hspeaks : Along (fun m a => ¬ Speaks p m a) m actions) (hrun : (m.actAll actions).running) :
    (m.actAll actions).Promised p deadline earlier := by
  induction actions generalizing m with
  | nil => exact h
  | cons a actions ih =>
    have hrun' : (m.act a).running := running_of_running_actAll hrun
    exact ih (h.act hsteady hund.1 hspeaks.1 hrun') (hsteady.act hund.1 hrun') hund.2 hspeaks.2 hrun

/-- A steady monitor stays steady along undisturbed runs. -/
theorem Steady.actAll (h : m.Steady) {actions : List Action} (hund : Along Undisturbed m actions)
    (hrun : (m.actAll actions).running) : (m.actAll actions).Steady := by
  induction actions generalizing m with
  | nil => exact h
  | cons a actions ih => exact ih (h.act hund.1 (running_of_running_actAll hrun)) hund.2 hrun

/-- A grant is a promise. -/
theorem promised_of_grants {lifetime : Nat} (hsteady : m.Steady) (hund : m.Undisturbed a)
    (hrevoke : m.settings.autoRevoke = some lifetime) (hrange : lifetime ≤ longestWait)
    (hrun : (m.act a).running) (hgrants : Grants p m a) :
    (m.act a).Promised p (m.around.now + lifetime) (m.notices p) := by
  have hallow := allows_deed m a
  have hwell := hsteady.goesWell hund hrun
  obtain ⟨e, he⟩ : ∃ e, m.deed a = .request p e := by
    unfold Grants at hgrants
    cases hd : m.deed a with
    | request q e =>
      rw [hd] at hgrants
      obtain ⟨rfl, -⟩ : q = p ∧ _ := by simpa [Deed.grants] using hgrants
      exact ⟨e, rfl⟩
    | grant q =>
      rw [hd] at hwell
      exact hwell.elim
    | _ => simp [hd, Deed.grants] at hgrants
  rw [he] at hallow hwell
  unfold Promised Monitor.notices
  rw [ledger_act, he]
  have hpending := Ledger.pending_request hsteady.orderly hrevoke hrange hallow hwell
  have hagrees := Ledger.agrees_or_empty_perform hsteady.agrees hsteady.tidy hallow hwell
  refine ⟨hagrees.resolve_right fun hempty => ?_, .inl ⟨hpending, ?_⟩⟩
  · simpa [hempty] using hpending.mem
  · exact Ledger.notices_perform (by simp [Deed.revokes])

/-- An action that does not take the override of `p` back because its time is over tells nothing of
`p`. -/
theorem notices_act (h : ¬ (m.deed a).revokes p) : (m.act a).notices p = m.notices p := by
  rw [Monitor.notices, ledger_act, Ledger.notices_perform h, Monitor.notices]

/-- Without a slot for `p`, and without a grant, nothing is told of `p`. -/
theorem notices_actAll_of_generation?_eq_none {actions : List Action}
    (h : m.ledger.expiry.generation? p = none)
    (hgrants : Along (fun m a => ¬ Grants p m a) m actions) :
    (m.actAll actions).notices p = m.notices p := by
  induction actions generalizing m with
  | nil => rfl
  | cons a actions ih =>
    have hslot : (m.act a).ledger.expiry.generation? p = none := by
      rw [ledger_act]
      exact Ledger.generation?_perform_of_not_grants hgrants.1 h
    have hrevokes := Ledger.not_revokes_of_generation?_eq_none h (allows_deed m a)
    rw [actAll_cons, ih hslot hgrants.2, notices_act hrevokes]

/-- An override that is taken back has no slot. -/
theorem generation?_act_of_withdraws (hsteady : m.Steady) (hund : m.Undisturbed a)
    (hrun : (m.act a).running) (hwithdraws : Withdraws p m a) :
    (m.act a).ledger.expiry.generation? p = none := by
  have hwell := hsteady.goesWell hund hrun
  obtain ⟨hspeaks, hgrants⟩ := hwithdraws
  rw [ledger_act]
  refine Ledger.generation?_perform_of_retires ?_
  unfold Speaks Grants at *
  cases hd : m.deed a with
  | request q e =>
    rw [hd] at hwell hspeaks hgrants
    have hok : e.result.isOk := hwell
    exact absurd (by simpa [Deed.speaks, Deed.grants, hok] using hspeaks) hgrants
  | remove q e =>
    rw [hd] at hwell hspeaks
    have hok : e.result.isOk := hwell
    simpa [Deed.speaks, Deed.retires, hok] using hspeaks
  | clear e =>
    rw [hd] at hwell
    exact hwell
  | grant q =>
    rw [hd] at hwell
    exact hwell.elim
  | _ => simp [hd, Deed.speaks] at hspeaks

/-- **Overrides are taken back in time.** Take an undisturbed run of a monitor that applies overrides
itself and gives them a lifetime. Every override that a user puts into force is in force until its
lifetime is over and not from then on, until the user says the next word about it; and of its end is
told exactly once, at that moment. Of an override that a user takes back nothing is told as long as
the user does not put it into force again, and so it is before the user does so for the first time.

**Proof sketch.** A grant is a promise, and every other action keeps it. Without a slot for `p` no
firing is taken for one of `p`, so of `p` nothing is told. -/
theorem taken_back_in_time (settings : Settings) (around : Surroundings) (daemonRuns : Bool)
    {lifetime : Nat} (hrevoke : settings.autoRevoke = some lifetime) (hrange : lifetime ≤ longestWait)
    (hhelper : settings.daemon.overrideHelper = none) (hapart : settings.paths.StateApart)
    (p : String) (before : List Action) (a : Action) (after : List Action)
    (hund : Along Undisturbed (start settings around daemonRuns) (before ++ a :: after))
    (hrun : ((start settings around daemonRuns).actAll (before ++ a :: after)).running) :
    let m₀ := (start settings around daemonRuns).actAll before
    let m := (start settings around daemonRuns).actAll (before ++ a :: after)
    (Grants p m₀ a → Along (fun m a => ¬ Speaks p m a) (m₀.act a) after →
      m.KeepsWord p (m₀.around.now + lifetime) (m₀.notices p)) ∧
    (Withdraws p m₀ a → Along (fun m a => ¬ Grants p m a) (m₀.act a) after →
      m.notices p = m₀.notices p) ∧
    (Along (fun m a => ¬ Grants p m a) (start settings around daemonRuns) (before ++ a :: after) →
      m.notices p = []) := by
  intro m₀ m
  have hm : m = (m₀.act a).actAll after := by
    show (start settings around daemonRuns).actAll (before ++ a :: after) = _
    rw [actAll_append, actAll_cons]
  obtain ⟨hundBefore, hundAct, hundAfter⟩ := along_append.mp hund
  have hstart := steady_start hhelper hapart around daemonRuns
  have hrunAfter : ((m₀.act a).actAll after).running := hm ▸ hrun
  have hrunAct : (m₀.act a).running := running_of_running_actAll hrunAfter
  have hrun₀ : m₀.running := running_of_running_actAll (show (m₀.actAll [a]).running from hrunAct)
  have hsteady : m₀.Steady := hstart.actAll hundBefore hrun₀
  refine ⟨fun hgrants hspeaks => ?_, fun hwithdraws hgrants => ?_, fun hgrants => ?_⟩
  · have hsettings : m₀.settings.autoRevoke = some lifetime := by
      rw [← settings_ledger, settings_ledger_actAll, ledger_start]
      exact hrevoke
    have hpromised := promised_of_grants hsteady hundAct hsettings hrange hrunAct hgrants
    rw [hm]
    exact (hpromised.actAll (hsteady.act hundAct hrunAct) hundAfter hspeaks hrunAfter).keepsWord
  · have hslot := generation?_act_of_withdraws hsteady hundAct hrunAct hwithdraws
    have hrevokes := Deed.not_revokes_of_speaks hwithdraws.1
    rw [hm, notices_actAll_of_generation?_eq_none hslot hgrants, notices_act hrevokes]
  · have hslot : (start settings around daemonRuns).ledger.expiry.generation? p = none := by
      rw [ledger_start]
      rfl
    have hnotices := notices_actAll_of_generation?_eq_none hslot hgrants
    have hempty : (start settings around daemonRuns).notices p = [] := by
      rw [Monitor.notices, ledger_start]
      rfl
    exact hnotices.trans hempty

/-- The files in `/p`, and a short lifetime. -/
def shortLived : Settings :=
  { Settings.ofPaths (.inDir "/p") with autoRevoke := some 100 }

theorem stateApart_shortLived : shortLived.paths.StateApart :=
  ⟨Disk.apart_of_getLast?_ne (a := "es_policy.json") (b := "monitor-state.json") (by decide +kernel)
    (by decide +kernel) (by decide) (by decide) (by decide),
  Disk.apart_of_getLast?_ne (a := "es_policy.json") (b := "monitor-state.tmp") (by decide +kernel)
    (by decide +kernel) (by decide) (by decide) (by decide)⟩

/-- An override that is put into force at the start is taken back after its lifetime. -/
theorem taken_back_after_lifetime :
    let m := (start shortLived (.emptyDir "/p") false).actAll [.send (.requestOverride "/work/a"),
      .takeRequest, .pass 100, .fireExpiry 1, .takeEvent]
    m.IsShut "/work/a" ∧ m.notices "/work/a" = [100] := by
  have h := taken_back_in_time shortLived (.emptyDir "/p") false rfl (by decide) rfl
    stateApart_shortLived "/work/a" [.send (.requestOverride "/work/a")] .takeRequest
    [.pass 100, .fireExpiry 1, .takeEvent] (by decide +kernel) (by decide +kernel)
  exact (h.1 (by decide +kernel) (by decide +kernel)).from_deadline (by decide +kernel)
    (by decide +kernel)

end Monitor

end DenialMonitor
