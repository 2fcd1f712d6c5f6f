import DenialMonitor.Proofs.View.Convergence

set_option autoImplicit false

/-!
# What is shown of a file that is gone

A watch fires when its file goes away, and when it is armed again, but an attempt to arm it that
finds nothing does not fire. So what is shown of a file that is gone depends on whether its source
was loaded since. That is the case where the watch still listened when the file went away. Where the
watch was lost already, because another file had taken the place of the one it was on, and that one
went away before the watch was armed on it, nothing loads the source any more, and what is shown is
the content of a file that is gone.

## Main definitions

* `Monitor.LeavesAbsent` — an action leaves no file at the path of a source.

## Main results

* `Monitor.Regular.holds_none_iff` — what is kept of a file that stays away.
* `Monitor.missing_shown_iff_loaded` — what is shown of a file that stays away.
* `Monitor.removed_replacement_is_shown` — a file that is gone and is still shown.
-/

namespace DenialMonitor

namespace Watch

variable {w : Watch} {delays : RearmDelays} {path : String} {around : Surroundings} {eager : Bool}

/-- A watch that listens fires when it loses its file, unless the operating system has given it up. -/
theorem step_of_listens (h : w.listens) (hcancelled : w.cancelled = false) :
    (w.step delays path around eager).1 = true ∨ (w.step delays path around eager).2.listens := by
  cases hphase : w.phase with
  | armed file queue =>
    simp only [listens, hphase, Bool.not_eq_true', List.contains_eq_mem, decide_eq_false_iff_not] at h
    cases queue with
    | nil =>
      right
      simp [step, hphase, hcancelled, listens]
    | cons signal rest =>
      rw [step_of_armed hphase hcancelled]
      rcases w.handle_cases delays path around file signal rest with
        ⟨-, heq⟩ | ⟨hclosed, -⟩ | hfires
      · right
        rw [heq]
        simpa [listens] using fun hmem => h (List.mem_cons_of_mem signal hmem)
      · exact absurd (by simp [hclosed]) h
      · exact .inl hfires
  | _ => simp [listens, hphase] at h

/-- A watch that listens goes on listening unless it is given up. -/
theorem listens_deliver (h : w.listens) {s : Signal} (hs : s ≠ .closed) : (w.deliver s).listens := by
  unfold deliver
  split
  · next file queue hphase =>
    rw [if_pos h]
    simp only [listens, hphase, Bool.not_eq_true', List.contains_eq_mem,
      decide_eq_false_iff_not] at h ⊢
    simp [h, hs.symm]
  · exact h

/-- A watch that was lost neither fires nor is armed while there is nothing to watch. -/
theorem step_of_absent {attempt : Nat} (h : w.state = .reopening attempt)
    (hcancelled : w.cancelled = false) (habsent : around.file? path = none) (delays : RearmDelays)
    (eager : Bool) :
    (w.step delays path around eager).1 = false ∧
      ∃ attempt', (w.step delays path around eager).2.state = .reopening attempt' := by
  have hwatchable : around.watchable? path = none := by
    unfold Surroundings.watchable?
    split
    · rfl
    · exact habsent
  obtain ⟨due, wait, hphase⟩ := exists_waiting_of_reopening h
  by_cases hdue : due ≤ around.now
  · simp [step, hphase, hdue, hcancelled, retry, hwatchable, await, state]
  · simp [step, hphase, hdue, hcancelled, state]

/-- A watch that was lost does not listen. -/
theorem not_listens_of_reopening {attempt : Nat} (h : w.state = .reopening attempt) :
    ¬ w.listens := by
  obtain ⟨due, wait, hphase⟩ := exists_waiting_of_reopening h
  simp [listens, hphase]

/-- A watch that was lost hears nothing. -/
theorem deliver_of_reopening {attempt : Nat} (h : w.state = .reopening attempt) (s : Signal) :
    w.deliver s = w :=
  deliver_of_not_listens (not_listens_of_reopening h) s

end Watch

namespace Monitor

variable {m : Monitor} {a : Action} {source : Source} {actions : List Action}

/-- An action leaves no file at the path of a source. -/
def LeavesAbsent (source : Source) (m : Monitor) (a : Action) : Prop :=
  (m.act a).around.file? (source.path m.settings.paths) = none

instance (m : Monitor) (a : Action) : Decidable (LeavesAbsent source m a) :=
  inferInstanceAs (Decidable (_ = _))

theorem content?_eq_none (h : m.around.file? (source.path m.settings.paths) = none) :
    m.content? source = none :=
  Disk.read?_eq_none_of_identity?_eq_none h

theorem LeavesAbsent.file?_eq_none (h : LeavesAbsent source m a) :
    (m.act a).around.file? (source.path (m.act a).settings.paths) = none := by
  rw [settings_act]
  exact h

/-! ## What is kept -/

/-- Where nothing leaves a file behind there is none at the end. -/
theorem file?_actAll_eq_none (hgone : m.around.file? (source.path m.settings.paths) = none)
    (habsent : Along (LeavesAbsent source) m actions) :
    (m.actAll actions).around.file? (source.path (m.actAll actions).settings.paths) = none := by
  have hstep : ∀ (m : Monitor) (a : Action), m.around.file? (source.path m.settings.paths) = none →
      LeavesAbsent source m a →
        (m.act a).around.file? (source.path (m.act a).settings.paths) = none :=
    fun _ _ _ h => h.file?_eq_none
  exact habsent.invariant hstep hgone

/-- A file that stays away has the same content all the time, namely none. -/
theorem content?_along (hgone : m.around.file? (source.path m.settings.paths) = none)
    (habsent : Along (LeavesAbsent source) m actions) :
    Along (fun m a => (m.act a).content? source = m.content? source) m actions := by
  induction actions generalizing m with
  | nil => trivial
  | cons a actions ih =>
    have hgone' := habsent.1.file?_eq_none
    exact ⟨(content?_eq_none hgone').trans (content?_eq_none hgone).symm, ih hgone' habsent.2⟩

/-- What is kept of a source that is not loaded stays as it is while the file is away.

**Proof sketch.** The policy may be edited, but an edit that changes it leaves a file behind. -/
theorem Regular.holds_act_iff {content : Option (List UInt8)} (h : m.Regular)
    (hrun : (m.act a).running) (habsent : LeavesAbsent source m a) (hreads : ¬ Reads source m a) :
    (m.act a).engine.Holds content source ↔ m.engine.Holds content source := by
  have hloaded := loaded_act_of_not_reads hrun
  cases source with
  | denials => rw [Engine.Holds, Engine.Holds, hloaded.1 hreads]
  | lastDenial => rw [Engine.Holds, Engine.Holds, hloaded.2 hreads]
  | policy =>
    suffices hstore : (m.act a).ledger.store = m.ledger.store by
      rw [Engine.Holds, Engine.Holds]
      exact Eq.congr_left (congrArg (·.policy) hstore)
    cases he : (m.deed a).edit? with
    | some e =>
      have hstate := state_act_of_edit? he
      have hfile := content?_eq_none habsent.file?_eq_none
      rw [← (h.act a).policyFile?_eq, ← file?_state, hstate] at hfile
      exact (congrArg (·.store) hstate).trans (StoreState.store_edit_of_file?_eq_none hfile)
    | none =>
      rw [ledger_act]
      exact Ledger.store_perform he (mt reads_policy_iff.mpr hreads)

/-- **What is kept of a file that stays away.** It is what belongs to a missing file if and only if it
was so before or the source was loaded since. -/
theorem Regular.holds_none_iff (h : m.Regular) (hrun : (m.actAll actions).running)
    (hgone : m.around.file? (source.path m.settings.paths) = none)
    (habsent : Along (LeavesAbsent source) m actions) :
    (m.actAll actions).engine.Holds none source ↔
      m.engine.Holds none source ∨ Sometime (Reads source) m actions := by
  induction actions generalizing m with
  | nil => simp [Sometime]
  | cons a actions ih =>
    have hrun' : (m.act a).running := running_of_running_actAll hrun
    rw [actAll_cons, ih (h.act a) hrun habsent.1.file?_eq_none habsent.2, Sometime]
    by_cases hreads : Reads source m a
    · have hloaded := h.holds_act_of_reads hreads
      rw [content?_eq_none hgone] at hloaded
      simp [hreads, hloaded]
    · rw [h.holds_act_iff hrun' habsent.1 hreads]
      simp [hreads]

/-! ## What the watch does about it -/

/-- Where it is not given up, a watch that listens goes on so until it fires. -/
theorem along_keepsUntilFiring_listens
    (hopen : ∀ path, Action.signal path .closed ∈ actions →
      ¬ Path.same path (source.path m.settings.paths)) :
    Along (KeepsUntilFiring (·.listens) source) m actions := by
  induction actions generalizing m with
  | nil => trivial
  | cons a actions ih =>
    refine ⟨⟨fun w path s ha hclosed hw => ?_, fun w eager hcancelled hw => ?_⟩, ih ?_⟩
    · apply Watch.listens_deliver hw
      rintro rfl
      exact hopen path (by simp [ha]) (hclosed rfl)
    · exact Watch.step_of_listens hw hcancelled
    · intro path hmem
      rw [settings_act]
      exact hopen path (List.mem_cons_of_mem a hmem)

/-- What is due is kept as missing when the file stays away and the monitor is settled, unless the
watch has still something left to do. -/
theorem Due.holds_none_of_isSettled {P : Watch → Prop} (hdue : m.Due P source) (h : m.Regular)
    (hapart : m.settings.paths.SourcesApart) (hrun : (m.actAll actions).running)
    (hgone : m.around.file? (source.path m.settings.paths) = none)
    (habsent : Along (LeavesAbsent source) m actions)
    (hkeeps : Along (KeepsUntilFiring P source) m actions) (hsettled : (m.actAll actions).isSettled)
    (hrests : ∀ w, (m.actAll actions).watch? source = some w → ¬ P w) :
    (m.actAll actions).engine.Holds none source := by
  have hdue' := hdue.actAll h hapart hrun (content?_along hgone habsent) hkeeps
  have hholds := hdue'.holds_of_isSettled hsettled fun w hw _ => hrests w hw
  rwa [content?_eq_none (file?_actAll_eq_none hgone habsent)] at hholds

/-- A watch that was lost stays so while its file is away, and its change is not queued. -/
theorem Regular.waits_act {w : Watch} {attempt : Nat} (h : m.Regular)
    (hapart : m.settings.paths.SourcesApart) (hrun : (m.act a).running)
    (hgone : m.around.file? (source.path m.settings.paths) = none)
    (hw : m.watch? source = some w) (hlost : w.state = .reopening attempt)
    (hqueued : Event.changed source ∉ m.events) :
    Event.changed source ∉ (m.act a).events ∧
      ∃ w' attempt', (m.act a).watch? source = some w' ∧ w'.state = .reopening attempt' := by
  have hcancelled := (h.not_cancelled (running_of_running_act hrun) hw).1
  refine ⟨fun hnew => ?_, ?_⟩
  · rcases h.fires_of_changed_mem hapart hrun hw hnew with hold | ⟨eager, hfires⟩
    · exact hqueued hold
    · rw [(Watch.step_of_absent hlost hcancelled hgone m.watcher.delays eager).1] at hfires
      exact Bool.false_ne_true hfires
  · rcases h.watch?_act hapart hrun hw with hsame | ⟨path, s, -, -, hheard⟩ |
      ⟨i, eager, -, hstep, -⟩
    · exact ⟨w, attempt, hsame, hlost⟩
    · rw [Watch.deliver_of_reopening hlost] at hheard
      exact ⟨w, attempt, hheard, hlost⟩
    · obtain ⟨attempt', hstill⟩ :=
        (Watch.step_of_absent hlost hcancelled hgone m.watcher.delays eager).2
      exact ⟨_, attempt', hstep, hstill⟩

/-- So nothing of a watch that was lost loads the source while the file is away. -/
theorem Regular.never_changed_along {w : Watch} {attempt : Nat} (h : m.Regular)
    (hapart : m.settings.paths.SourcesApart) (hrun : (m.actAll actions).running)
    (hgone : m.around.file? (source.path m.settings.paths) = none)
    (habsent : Along (LeavesAbsent source) m actions)
    (hw : m.watch? source = some w) (hlost : w.state = .reopening attempt)
    (hqueued : Event.changed source ∉ m.events) :
    Along (fun m _ => Event.changed source ∉ m.events) m actions := by
  induction actions generalizing m w attempt with
  | nil => trivial
  | cons a actions ih =>
    have hrun' : (m.act a).running := running_of_running_actAll hrun
    have hapart' : (m.act a).settings.paths.SourcesApart := by rwa [settings_act]
    obtain ⟨hqueued', w', attempt', hw', hlost'⟩ :=
      h.waits_act hapart hrun' hgone hw hlost hqueued
    exact ⟨hqueued, ih (h.act a) hapart' hrun habsent.1.file?_eq_none habsent.2 hw' hlost' hqueued'⟩

/-- **What is shown of a file that stays away.** Take a run from the start, and let there be no file
at the path of a source from some moment of the run on. Then what is shown of the source is that its
file is missing if and only if that was shown at the moment or the source was loaded since. That is
so as soon as the monitor is settled if its change was queued at the moment, or if its watch listened
then, is not given up by the operating system, and is lost now. But if the watch was lost at the
moment and no change was queued, then none is queued as long as the file is away, so nothing loads
the source then but a refresh and, for the policy, the end of the helper.

**Proof sketch.** While there is no file, loading the source finds none, and no edit that changes the
policy succeeds. A watch that listens is not lost before it fires or is given up. One that was lost
does not fire before it finds a file. -/
theorem missing_shown_iff_loaded (settings : Settings) (around : Surroundings) (daemonRuns : Bool)
    (hapart : settings.paths.SourcesApart) (source : Source) (before after : List Action) :
    let m₀ := (start settings around daemonRuns).actAll before
    let m := m₀.actAll after
    let path := source.path settings.paths
    m₀.around.file? path = none → Along (LeavesAbsent source) m₀ after → m.running →
    (m.Shows source none ↔ m₀.Shows source none ∨ Sometime (Reads source) m₀ after) ∧
    (m.isSettled →
      (.changed source ∈ m₀.events ∨
        (∃ w, m₀.watch? source = some w ∧ w.listens) ∧
          (∀ path', Action.signal path' .closed ∈ after → ¬ Path.same path' path) ∧
          ∃ attempt, m.watcher.state path = .reopening attempt) →
      m.Shows source none) ∧
    (∀ attempt, m₀.watcher.state path = .reopening attempt → .changed source ∉ m₀.events →
      Along (fun m _ => Event.changed source ∉ m.events) m₀ after) := by
  obtain ⟨hregular, hsettings⟩ := regular_actAll_start settings around daemonRuns before
  generalize (start settings around daemonRuns).actAll before = m₀ at hregular hsettings
  subst hsettings
  dsimp only
  intro hgone habsent hrun
  have hregular' := hregular.actAll after
  refine ⟨?_, fun hsettled hcause => ?_, fun attempt hlost hqueued => ?_⟩
  · rw [hregular'.shows_none_iff, hregular.shows_none_iff]
    exact hregular.holds_none_iff hrun hgone habsent
  · apply hregular'.shows_of_holds
    rcases hcause with hqueued | ⟨⟨w, hw, hlistens⟩, hopen, attempt, hlost⟩
    · have hdue : m₀.Due (fun _ => False) source := .inr (.inl hqueued)
      refine hdue.holds_none_of_isSettled hregular hapart hrun hgone habsent ?_ hsettled
        fun _ _ => id
      exact habsent.mono fun _ _ _ => ⟨fun _ _ _ _ _ => id, fun _ _ _ => False.elim⟩
    · have hdue : m₀.Due (·.listens) source := .inr (.inr ⟨w, hw, hlistens⟩)
      refine hdue.holds_none_of_isSettled hregular hapart hrun hgone habsent
        (along_keepsUntilFiring_listens hopen) hsettled fun w hw => ?_
      rw [← settings_actAll m₀ after, state_eq_of_watch? hw] at hlost
      exact Watch.not_listens_of_reopening hlost
  · obtain ⟨w, hw⟩ : ∃ w, m₀.watch? source = some w := by
      apply Watcher.exists_find?_of_isActive
      simp [Watcher.isActive, hlost]
    rw [state_eq_of_watch? hw] at hlost
    exact hregular.never_changed_along hapart hrun hgone habsent hw hlost hqueued

/-- The policy file is removed, the watch on it is told so, and an attempt to open it again fails. -/
def policyRemoved : List Action :=
  [.signal "/p/es_policy.json" (.notice .removed), .runWatch 0 false, .takeEvent, .pass 500,
    .runWatch 0 false]

/-- A policy that is removed while its watch listens is shown as missing. -/
theorem removed_policy_is_missing :
    ((start (.ofPaths (.inDir "/p")) workIsProtected false).actAll
      ([.change (.remove "/p/es_policy.json")] ++ policyRemoved)).Shows .policy none := by
  have h := missing_shown_iff_loaded (.ofPaths (.inDir "/p")) workIsProtected false
    sourcesApart_inDir .policy [.change (.remove "/p/es_policy.json")] policyRemoved
    (by decide +kernel) (by decide +kernel) (by decide +kernel)
  rw [← actAll_append] at h
  have hopen : ∀ path', Action.signal path' .closed ∉ policyRemoved := by
    intro path' hmem
    simp [policyRemoved] at hmem
  exact h.2.1 (by decide +kernel) (.inr ⟨⟨.arm ⟨2⟩, by decide +kernel, by decide +kernel⟩,
    fun path' hmem => absurd hmem (hopen path'), 2, by decide +kernel⟩)

/-- A policy that has replaced another one and is removed before the watch is armed on it is still
shown after an attempt to open it has failed. -/
theorem removed_replacement_is_shown :
    ¬ ∀ (settings : Settings) (around : Surroundings) (daemonRuns : Bool),
      settings.paths.SourcesApart → ∀ (source : Source) (before after : List Action),
      let m₀ := (start settings around daemonRuns).actAll before
      let m := m₀.actAll after
      let path := source.path settings.paths
      m₀.around.file? path = none → Along (LeavesAbsent source) m₀ after → m.running → m.isSettled →
      (∃ attempt, m₀.watcher.state path = .reopening attempt ∧
        m.watcher.state path = .reopening (attempt + 1)) →
      m.Shows source none := by
  intro h
  have hshows := h (.ofPaths (.inDir "/p")) workIsProtected false sourcesApart_inDir .policy
    (policyReplaced ++ [.takeEvent, .change (.remove "/p/es_policy.json")])
    [.pass 500, .runWatch 0 false] (by decide +kernel) (by decide +kernel) (by decide +kernel)
    (by decide +kernel) ⟨1, by decide +kernel⟩
  revert hshows
  decide +kernel

end Monitor

end DenialMonitor
