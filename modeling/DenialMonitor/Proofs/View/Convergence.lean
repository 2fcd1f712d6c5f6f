import DenialMonitor.Proofs.Overrides.Document
import DenialMonitor.Proofs.View.Loading

set_option autoImplicit false

/-!
# What is shown converges to the files

A watch that hears of a change fires, and one that was lost fires when it is armed again. Between
these two moments nothing is heard, and what a watch has not handled when it is lost is dropped. But
a watch that has something to handle, or waits to be armed again, does not come to rest before it
has fired, and what fires leads to a load of the source. So as soon as a file stays as it is, what
is shown of it is what it holds, at the latest when the watch has been armed again and nothing is
left to do.

## Main definitions

* `Monitor.Due` — a source was loaded, or it will be: its change is queued, or its watch has
  something left to do.
* `Watch.Owes` — a watch has something to handle or waits to be armed again.
* `Monitor.rearmDue?` — when the watch of a source is to be armed again.
* `Monitor.LeavesAlone` — an action leaves the file of a source as it is.

## Main results

* `Monitor.Due.act` — an action that leaves the file alone leaves the source due.
* `Monitor.Due.holds_of_isSettled` — what is due was loaded when the monitor is settled.
* `Monitor.view_converges` — what is shown converges to the files.
-/

namespace DenialMonitor

/-! ## What a watch has left to do -/

/-- Whether a watch does anything about a signal. -/
def Signal.matters : Signal → Bool
  | .notice n => n.meaning ≠ .nothing
  | .failure => false
  | .closed => true

namespace Watch

variable {w : Watch}

/-- A watch has something to handle, or it waits to be armed again. -/
def Owes (w : Watch) : Prop :=
  match w.phase with
  | .armed _ queue => ∃ s ∈ queue, s.matters
  | .waiting _ _ _ => True
  | .ended => False

/-- A watch has lost its file and waits for an attempt at the moment `due`. -/
def WaitsUntil (due : Nat) (w : Watch) : Prop :=
  w.due? = some due

theorem WaitsUntil.exists_phase {due : Nat} (h : w.WaitsUntil due) :
    ∃ attempt wait, w.phase = .waiting attempt due wait := by
  cases hphase : w.phase with
  | waiting attempt due' wait =>
    obtain rfl : due' = due := by simpa [WaitsUntil, due?, hphase] using h
    exact ⟨attempt, wait, rfl⟩
  | _ => simp [WaitsUntil, due?, hphase] at h

/-- What is left to do stays so when another signal comes. -/
theorem Owes.deliver (h : w.Owes) (s : Signal) : (w.deliver s).Owes := by
  unfold Watch.deliver
  split
  · next file queue hphase =>
    split
    · simp only [Owes, hphase] at h ⊢
      obtain ⟨s', hs', hmatters⟩ := h
      exact ⟨s', List.mem_append_left _ hs', hmatters⟩
    · exact h
  · exact h

/-- A watch that is sent a signal that matters has something left to do, whether it still listens
or not. -/
theorem owes_deliver (hended : w.hasEnded = false) {s : Signal} (hs : s.matters) :
    (w.deliver s).Owes := by
  cases hphase : w.phase with
  | ended => simp [hasEnded, hphase] at hended
  | waiting attempt due wait => simp [Watch.deliver, Owes, hphase]
  | armed file queue =>
    by_cases hlistens : w.listens
    · simp only [Watch.deliver, hphase, hlistens, if_true, Owes]
      exact ⟨s, by simp, hs⟩
    · rw [deliver_of_not_listens hlistens]
      simp only [Owes, hphase]
      refine ⟨.closed, ?_, rfl⟩
      simpa [listens, hphase] using hlistens

/-- A watch that waits stays so when a signal comes. -/
theorem WaitsUntil.deliver {due : Nat} (h : w.WaitsUntil due) (s : Signal) :
    (w.deliver s).WaitsUntil due := by
  obtain ⟨attempt, wait, hphase⟩ := h.exists_phase
  simp [WaitsUntil, due?, Watch.deliver, hphase]

section

variable {delays : RearmDelays} {path : String} {around : Surroundings} {eager : Bool}

/-- A watch that handles a signal drops it if it does not matter, is lost if it was given up, and fires
otherwise. -/
theorem handle_cases (w : Watch) (delays : RearmDelays) (path : String) (around : Surroundings)
    (file : FileId) (signal : Signal) (rest : List Signal) :
    signal.matters = false ∧
        w.handle delays path around file signal rest = (false, { w with phase := .armed file rest }) ∨
      signal = .closed ∧
        w.handle delays path around file signal rest = (false, w.lose delays around.now) ∨
      (w.handle delays path around file signal rest).1 = true := by
  cases signal with
  | failure => exact .inl ⟨rfl, rfl⟩
  | closed => exact .inr (.inl ⟨rfl, rfl⟩)
  | notice n =>
    cases hmeaning : n.meaning with
    | nothing =>
      exact .inl ⟨by simp [Signal.matters, hmeaning], by simp only [handle, hmeaning]⟩
    | changed => exact .inr (.inr (by simp only [handle, hmeaning]))
    | invalidated => exact .inr (.inr (by simp only [handle, hmeaning]))

/-- A watch that is armed handles its signals in their order. -/
theorem step_of_armed {file : FileId} {signal : Signal} {rest : List Signal}
    (hphase : w.phase = .armed file (signal :: rest)) (hcancelled : w.cancelled = false) :
    w.step delays path around eager = w.handle delays path around file signal rest := by
  simp [step, hphase, hcancelled]

/-- A watch whose wait is over fires if it finds a file to watch. -/
theorem WaitsUntil.step {due : Nat} (h : w.WaitsUntil due) (hcancelled : w.cancelled = false)
    (hthere : (around.watchable? path).isSome) :
    (w.step delays path around eager).1 = true ∨
      (w.step delays path around eager).2.WaitsUntil due := by
  obtain ⟨attempt, wait, hphase⟩ := h.exists_phase
  obtain ⟨file, hfile⟩ := Option.isSome_iff_exists.mp hthere
  by_cases hdue : due ≤ around.now
  · left
    simp [Watch.step, hphase, hdue, hcancelled, retry, hfile]
  · right
    simp [WaitsUntil, due?, Watch.step, hphase, hdue, hcancelled]

/-- A watch that has something left to do fires when it does so, or it has something left
afterwards.

**Proof sketch.** A signal that does not matter leaves the ones behind it. The other signals fire or
make the watch wait. A wait ends in firing if there is a file to watch. -/
theorem Owes.step (h : w.Owes) (hcancelled : w.cancelled = false)
    (hthere : (around.watchable? path).isSome) :
    (w.step delays path around eager).1 = true ∨ (w.step delays path around eager).2.Owes := by
  cases hphase : w.phase with
  | ended => simp [Owes, hphase] at h
  | waiting attempt due wait =>
    have hwaits : w.WaitsUntil due := by simp [WaitsUntil, due?, hphase]
    refine (hwaits.step hcancelled hthere).imp_right fun hwaits => ?_
    obtain ⟨attempt, wait, hphase⟩ := hwaits.exists_phase
    simp [Owes, hphase]
  | armed file queue =>
    simp only [Owes, hphase] at h
    obtain ⟨s, hs, hmatters⟩ := h
    cases queue with
    | nil => simp at hs
    | cons signal rest =>
      rw [step_of_armed hphase hcancelled]
      rcases w.handle_cases delays path around file signal rest with
        ⟨hidle, heq⟩ | ⟨-, heq⟩ | hfires
      · right
        rw [heq]
        rcases List.mem_cons.mp hs with rfl | hs
        · simp [hidle] at hmatters
        · exact ⟨s, hs, hmatters⟩
      · rw [heq]
        exact .inr trivial
      · exact .inl hfires

end

/-- A watch that was lost waits to be armed again. -/
theorem owes_of_reopening {attempt : Nat} (hstate : w.state = .reopening attempt) : w.Owes := by
  obtain ⟨due, wait, hphase⟩ := exists_waiting_of_reopening hstate
  simp [Owes, hphase]

/-- A watch that is not ready has nothing left to do, unless it waits for a moment that is still to
come. -/
theorem not_owes_of_not_isReady {now : Nat} (hready : ¬ w.isReady now)
    (hover : ∀ due ∈ w.due?, due ≤ now) : ¬ w.Owes := by
  intro h
  cases hphase : w.phase with
  | ended => simp [Owes, hphase] at h
  | waiting attempt due wait =>
    have hnow : due ≤ now := hover due (by simp [due?, hphase])
    simp [isReady, hphase, hnow] at hready
  | armed file queue =>
    simp only [Owes, hphase] at h
    obtain ⟨s, hs, -⟩ := h
    simp only [isReady, hphase, Bool.or_eq_true, Bool.not_eq_true', List.isEmpty_eq_false_iff,
      not_or, ne_eq, Decidable.not_not] at hready
    simp [hready.2] at hs

end Watch

namespace Monitor

variable {m : Monitor} {a : Action} {source : Source} {P : Watch → Prop} {actions : List Action}

/-- In a settled monitor no event is queued and no watch has something to do. -/
theorem nothing_taken_in_of_isSettled (h : m.isSettled) :
    m.events = [] ∧ m.watcher.ready? m.around.now = none := by
  refine ⟨(nothing_ready_of_isSettled h).1, ?_⟩
  simp only [isSettled, nextAction?, Option.isNone_iff_eq_none, Option.orElse_eq_orElse,
    Option.orElse_eq_or, Option.or_eq_none_iff, Option.map_eq_none_iff] at h
  exact h.1

/-! ## What is due -/

/-- When the watch of a source is to be armed again, if it waits for that. -/
def rearmDue? (m : Monitor) (source : Source) : Option Nat :=
  (m.watch? source).bind Watch.due?

/-- What is kept of a source is what its file says, or its change is queued, or its watch has
something left to do, which is said by `P`. -/
def Due (P : Watch → Prop) (source : Source) (m : Monitor) : Prop :=
  m.engine.Holds (m.content? source) source ∨ Event.changed source ∈ m.events ∨
    ∃ w, m.watch? source = some w ∧ P w

/-- An action leaves the file of a source as it is. -/
def LeavesAlone (source : Source) (m : Monitor) (a : Action) : Prop :=
  (m.act a).around.file? (source.path m.settings.paths) =
      m.around.file? (source.path m.settings.paths) ∧
    (m.act a).content? source = m.content? source

instance (m : Monitor) (a : Action) : Decidable (LeavesAlone source m a) :=
  inferInstanceAs (Decidable (_ ∧ _))

/-- A change that is queued stays queued until the source is loaded. -/
theorem changed_mem_act (hrun : (m.act a).running) (h : Event.changed source ∈ m.events) :
    Reads source m a ∨ Event.changed source ∈ (m.act a).events := by
  have hturn := turn_act hrun
  show _ ∨ Event.changed source ∈ (m.act a).intake.events
  generalize (m.act a).intake = i at hturn
  cases hturn with
  | signal path s => exact .inr h
  | runWatch i eager => exact .inr (List.mem_append_left _ h)
  | load other rest hevents =>
    rw [hevents] at h
    rcases List.mem_cons.mp h with heq | h
    · obtain rfl : source = other := by simpa using heq
      exact .inl (by simp [Reads, hevents, Event.loads])
    · right
      rw [Intake.events_load]
      exact h
  | refresh t rest hrequests => exact .inl (by simp [Reads, hrequests])
  | drop e rest hevents he =>
    rw [hevents] at h
    rcases List.mem_cons.mp h with rfl | h
    · simp [Event.changed?] at he
    · exact .inr h
  | queue a e he => exact .inr (List.mem_append_left _ h)
  | idle a => exact .inr h

/-- What a watch is about to do does not get lost: it keeps `P` until it fires. -/
structure KeepsUntilFiring (P : Watch → Prop) (source : Source) (m : Monitor) (a : Action) : Prop where
  deliver : ∀ w path s, a = .signal path s →
    (s = .closed → Path.same path (source.path m.settings.paths)) → P w → P (w.deliver s)
  step : ∀ w eager, w.cancelled = false → P w →
    (w.step m.watcher.delays (source.path m.settings.paths) m.around eager).1 = true ∨
      P (w.step m.watcher.delays (source.path m.settings.paths) m.around eager).2

/-- A live watch was not asked to stop. -/
theorem Regular.not_cancelled {w : Watch} (h : m.Regular) (hrun : m.running)
    (hw : m.watch? source = some w) : w.cancelled = false ∧ w.hasEnded = false := by
  obtain ⟨e, he, rfl⟩ := Watcher.exists_of_find? hw
  have hmem := List.mem_of_find?_eq_some he
  exact ⟨(h.live hrun).not_cancelled e hmem, (h.live hrun).not_ended e hmem⟩

/-- An action that leaves the file of a source alone leaves the source due.

**Proof sketch.** What is kept stays what the file says. A change that is queued stays queued until
the source is loaded. The watch keeps what it has left to do until it fires, and then its change is
queued. -/
theorem Due.act (hdue : m.Due P source) (h : m.Regular) (hapart : m.settings.paths.SourcesApart)
    (hrun : (m.act a).running) (hcontent : (m.act a).content? source = m.content? source)
    (hkeeps : KeepsUntilFiring P source m a) : (m.act a).Due P source := by
  unfold Due
  rw [hcontent]
  rcases hdue with hholds | hqueued | ⟨w, hw, hP⟩
  · exact .inl (h.holds_act hrun hcontent hholds)
  · rcases changed_mem_act hrun hqueued with hreads | hqueued
    · exact .inl (h.holds_act_of_reads hreads)
    · exact .inr (.inl hqueued)
  · have hcancelled := (h.not_cancelled (running_of_running_act hrun) hw).1
    rcases h.watch?_act hapart hrun hw with hsame | ⟨path, s, ha, hclosed, hheard⟩ |
      ⟨i, eager, -, hstep, hfires⟩
    · exact .inr (.inr ⟨w, hsame, hP⟩)
    · exact .inr (.inr ⟨_, hheard, hkeeps.deliver w path s ha hclosed hP⟩)
    · rcases hkeeps.step w eager hcancelled hP with hfired | hP
      · exact .inr (.inl (hfires hfired))
      · exact .inr (.inr ⟨_, hstep, hP⟩)

/-- What is due stays due in a run that leaves the file of the source alone. -/
theorem Due.actAll (hdue : m.Due P source) (h : m.Regular)
    (hapart : m.settings.paths.SourcesApart) (hrun : (m.actAll actions).running)
    (hcontent : Along (fun m a => (m.act a).content? source = m.content? source) m actions)
    (hkeeps : Along (KeepsUntilFiring P source) m actions) : (m.actAll actions).Due P source := by
  induction actions generalizing m with
  | nil => exact hdue
  | cons a actions ih =>
    have hrun' : (m.act a).running := running_of_running_actAll hrun
    have hapart' : (m.act a).settings.paths.SourcesApart := by rwa [settings_act]
    exact ih (hdue.act h hapart hrun' hcontent.1 hkeeps.1) (h.act a) hapart' hrun hcontent.2 hkeeps.2

/-- In a settled monitor what was due was loaded, unless the watch has still something left to do. -/
theorem Due.holds_of_isSettled (hdue : m.Due P source) (hsettled : m.isSettled)
    (hrests : ∀ w, m.watch? source = some w → ¬ w.isReady m.around.now → ¬ P w) :
    m.engine.Holds (m.content? source) source := by
  obtain ⟨hevents, hready⟩ := nothing_taken_in_of_isSettled hsettled
  rcases hdue with hholds | hqueued | ⟨w, hw, hP⟩
  · exact hholds
  · simp [hevents] at hqueued
  · exact absurd hP (hrests w hw (Watcher.not_isReady_of_ready?_eq_none hready hw))

/-! ## Files that stay as they are -/

/-- A source that has a live watch keeps one. -/
theorem Regular.exists_watch?_actAll (h : m.Regular) (hapart : m.settings.paths.SourcesApart)
    (hrun : (m.actAll actions).running) (hw : ∃ w, m.watch? source = some w) :
    ∃ w, (m.actAll actions).watch? source = some w := by
  induction actions generalizing m with
  | nil => exact hw
  | cons a actions ih =>
    have hapart' : (m.act a).settings.paths.SourcesApart := by rwa [settings_act]
    obtain ⟨w, hw⟩ := hw
    refine ih (h.act a) hapart' hrun ?_
    rcases h.watch?_act hapart (running_of_running_actAll hrun) hw with hsame |
      ⟨path, s, -, -, hheard⟩ | ⟨i, eager, -, hstep, -⟩
    · exact ⟨_, hsame⟩
    · exact ⟨_, hheard⟩
    · exact ⟨_, hstep⟩

/-- Where its file is there and may be watched, a watch keeps what it has left to do until it
fires. -/
theorem keepsUntilFiring_of_there (hthere : (m.around.file? (source.path m.settings.paths)).isSome)
    (haccepts : m.around.refusesWatches = false) :
    KeepsUntilFiring Watch.Owes source m a ∧
      ∀ due, KeepsUntilFiring (Watch.WaitsUntil due) source m a := by
  have hwatchable : (m.around.watchable? (source.path m.settings.paths)).isSome := by
    simpa [Surroundings.watchable?, haccepts] using hthere
  refine ⟨⟨?_, ?_⟩, fun due => ⟨?_, ?_⟩⟩
  · intro w path s _ _ hw
    exact hw.deliver s
  · intro w eager hcancelled hw
    exact hw.step hcancelled hwatchable
  · intro w path s _ _ hw
    exact hw.deliver s
  · intro w eager hcancelled hw
    exact hw.step hcancelled hwatchable

/-- A run in which the file of a source is there and stays as it is, and may be watched. -/
structure Undisturbing (source : Source) (m : Monitor) (actions : List Action) : Prop where
  there : (m.around.file? (source.path m.settings.paths)).isSome
  alone : Along (LeavesAlone source) m actions
  accepts : Along (fun m _ => m.around.refusesWatches = false) m actions

/-- The rest of such a run is such a run. -/
theorem Undisturbing.tail (h : Undisturbing source m (a :: actions)) :
    Undisturbing source (m.act a) actions := by
  refine ⟨?_, h.alone.2, h.accepts.2⟩
  rw [settings_act, h.alone.1.1]
  exact h.there

/-- Such a run keeps what is due, both what a watch has left to do and the end of its wait. -/
theorem Undisturbing.along (h : Undisturbing source m actions) :
    Along (fun m a => (m.act a).content? source = m.content? source ∧
      KeepsUntilFiring Watch.Owes source m a ∧
        ∀ due, KeepsUntilFiring (Watch.WaitsUntil due) source m a) m actions := by
  induction actions generalizing m with
  | nil => trivial
  | cons a actions ih =>
    exact ⟨⟨h.alone.1.2, keepsUntilFiring_of_there h.there h.accepts.1⟩, ih h.tail⟩

/-- The second part of such a run is such a run. -/
theorem Undisturbing.of_append {before after : List Action}
    (h : Undisturbing source m (before ++ after)) :
    Undisturbing source (m.actAll before) after := by
  induction before generalizing m with
  | nil => exact h
  | cons a before ih => exact ih h.tail

/-- **A watch that has something left to do leads to a load.** In a run that leaves the file of a
source alone, its content is kept when the monitor is settled and no wait is still to end. -/
theorem Regular.holds_of_owes {w : Watch} (h : m.Regular) (hapart : m.settings.paths.SourcesApart)
    (hquiet : Undisturbing source m actions) (hrun : (m.actAll actions).running)
    (hsettled : (m.actAll actions).isSettled) (hw : m.watch? source = some w) (howes : w.Owes)
    (hover : ∀ due ∈ (m.actAll actions).rearmDue? source, due ≤ (m.actAll actions).around.now) :
    (m.actAll actions).engine.Holds ((m.actAll actions).content? source) source := by
  have hdue : m.Due Watch.Owes source := .inr (.inr ⟨w, hw, howes⟩)
  have hdue' := hdue.actAll h hapart hrun (hquiet.along.mono fun _ _ h => h.1)
    (hquiet.along.mono fun _ _ h => h.2.1)
  exact hdue'.holds_of_isSettled hsettled fun w hw hready =>
    Watch.not_owes_of_not_isReady hready fun due hdue =>
      hover due (by simpa [rearmDue?, hw] using hdue)

/-- A watch that waits has led to a load when its wait is over and the monitor is settled. -/
theorem Regular.holds_of_waitsUntil {w : Watch} {due : Nat} (h : m.Regular)
    (hapart : m.settings.paths.SourcesApart) (hquiet : Undisturbing source m actions)
    (hrun : (m.actAll actions).running) (hsettled : (m.actAll actions).isSettled)
    (hw : m.watch? source = some w) (hwaits : w.WaitsUntil due)
    (hover : due ≤ (m.actAll actions).around.now) :
    (m.actAll actions).engine.Holds ((m.actAll actions).content? source) source := by
  have hdue : m.Due (Watch.WaitsUntil due) source := .inr (.inr ⟨w, hw, hwaits⟩)
  have hdue' := hdue.actAll h hapart hrun (hquiet.along.mono fun _ _ h => h.1)
    (hquiet.along.mono fun _ _ h => h.2.2 due)
  refine hdue'.holds_of_isSettled hsettled fun w hw hready hwaits => ?_
  obtain ⟨attempt, wait, hphase⟩ := hwaits.exists_phase
  simp [Watch.isReady, hphase, hover] at hready

/-- The state of a watch is seen at its path. -/
theorem state_eq_of_watch? {w : Watch} (hw : m.watch? source = some w) :
    m.watcher.state (source.path m.settings.paths) = w.state := by
  rw [Watcher.state]
  rw [watch?] at hw
  rw [hw]
  rfl

/-- A signal that matters leaves the watch of the source with something left to do. -/
theorem Regular.owes_act_signal {path : String} {s : Signal} (h : m.Regular) (hrun : m.running)
    (hw : ∃ w, m.watch? source = some w)
    (hsame : Path.same path (source.path m.settings.paths)) (hs : s.matters) :
    ∃ w, (m.act (.signal path s)).watch? source = some w ∧ w.Owes := by
  obtain ⟨w, hw⟩ := hw
  exact ⟨w.deliver s, Watcher.find?_deliver_of_same hw hsame s,
    Watch.owes_deliver (h.not_cancelled hrun hw).2 hs⟩

/-- A notice that matters leads to a load of the source, as soon as nothing is left to do and no wait
is still to end. -/
theorem Regular.holds_of_notice {path : String} {n : Notice} (h : m.Regular)
    (hapart : m.settings.paths.SourcesApart) (hquiet : Undisturbing source m actions)
    (hrun : (m.actAll actions).running) (hsettled : (m.actAll actions).isSettled)
    (hw : ∃ w, m.watch? source = some w) (hmem : Action.signal path (.notice n) ∈ actions)
    (hsame : Path.same path (source.path m.settings.paths)) (hmeaning : n.meaning ≠ .nothing)
    (hover : ∀ due ∈ (m.actAll actions).rearmDue? source, due ≤ (m.actAll actions).around.now) :
    (m.actAll actions).engine.Holds ((m.actAll actions).content? source) source := by
  obtain ⟨early, late, rfl⟩ := List.append_of_mem hmem
  rw [actAll_append, actAll_cons] at hrun hsettled hover ⊢
  have hrunEarly : (m.actAll early).running :=
    running_of_running_act (running_of_running_actAll hrun)
  have hearly := h.actAll early
  rw [← settings_actAll m early] at hapart hsame
  have hwEarly := h.exists_watch?_actAll (by rwa [settings_actAll] at hapart) hrunEarly hw
  obtain ⟨w, hw, howes⟩ := hearly.owes_act_signal hrunEarly hwEarly hsame (s := .notice n)
    (by simp [Signal.matters, hmeaning])
  rw [← settings_act _ (.signal path (.notice n))] at hapart
  exact (hearly.act _).holds_of_owes hapart hquiet.of_append.tail hrun hsettled hw howes hover

/-- **What is shown converges to the files.** Take a run from the start, a source with a live watch
at a moment of the run, and let its file be there and stay as it is from that moment on, while the
operating system accepts watches. If the watch was lost at that moment or is told of something since,
then as soon as nothing is left to do and the watch does not wait for a moment still to come, what is
shown of the source is what its file holds. If the watch was lost at that moment, it is enough that
the wait of that moment is over.

**Proof sketch.** A watch that was lost, or is told of something, has something left to do. It keeps
that until it fires, then the change is queued, and taking it loads the source. In a settled monitor
a watch has nothing left to do unless it waits for a moment still to come. -/
theorem view_converges (settings : Settings) (around : Surroundings) (daemonRuns : Bool)
    (hapart : settings.paths.SourcesApart) (source : Source) (before after : List Action) :
    let m₀ := (start settings around daemonRuns).actAll before
    let m := m₀.actAll after
    let path := source.path settings.paths
    m₀.watcher.isActive path → (m₀.around.file? path).isSome →
    Along (LeavesAlone source) m₀ after →
    Along (fun m _ => m.around.refusesWatches = false) m₀ after →
    m.running → m.isSettled →
    (((∃ attempt, m₀.watcher.state path = .reopening attempt) ∨
        ∃ path' n, Action.signal path' (.notice n) ∈ after ∧ Path.same path' path ∧
          n.meaning ≠ .nothing) →
      (∀ due ∈ m.rearmDue? source, due ≤ m.around.now) → m.Shows source (m.content? source)) ∧
    (∀ due ∈ m₀.rearmDue? source, due ≤ m.around.now → m.Shows source (m.content? source)) := by
  obtain ⟨hregular, hsettings⟩ := regular_actAll_start settings around daemonRuns before
  generalize (start settings around daemonRuns).actAll before = m₀ at hregular hsettings
  subst hsettings
  dsimp only
  intro hactive hthere halone haccepts hrun hsettled
  have hquiet : Undisturbing source m₀ after := ⟨hthere, halone, haccepts⟩
  obtain ⟨w, hw⟩ : ∃ w, m₀.watch? source = some w := Watcher.exists_find?_of_isActive hactive
  refine ⟨fun hcause hover => ?_, fun due hdue hover => ?_⟩ <;>
    apply (hregular.actAll after).shows_of_holds
  · rcases hcause with ⟨attempt, hlost⟩ | ⟨path', n, hmem, hsame, hmeaning⟩
    · rw [state_eq_of_watch? hw] at hlost
      exact hregular.holds_of_owes hapart hquiet hrun hsettled hw (Watch.owes_of_reopening hlost)
        hover
    · exact hregular.holds_of_notice hapart hquiet hrun hsettled ⟨w, hw⟩ hmem hsame hmeaning hover
  · have hwaits : w.WaitsUntil due := by
      show w.due? = some due
      simpa [rearmDue?, hw] using hdue
    exact hregular.holds_of_waitsUntil hapart hquiet hrun hsettled hw hwaits hover

theorem sourcesApart_inDir : (MonitorPaths.inDir "/p").SourcesApart := by
  intro source source' hsame
  cases source <;> cases source' <;> first | rfl | exact absurd hsame (by decide +kernel)

/-- The policy file is replaced, and the watch on it is told so and gives it up. -/
def policyReplaced : List Action :=
  [.change (.write "/p/new" (Utf8.encode "\x7b\"protected_zones\":[\"/home/\"]\x7d")),
    .change (.rename "/p/new" "/p/es_policy.json"),
    .signal "/p/es_policy.json" (.notice (.modified .name)), .runWatch 0 false]

/-- A policy that has replaced another one is shown when its watch has been armed again. -/
theorem replaced_policy_is_shown :
    let m := (start (.ofPaths (.inDir "/p")) workIsProtected false).actAll
      (policyReplaced ++ [.takeEvent, .pass 500, .runWatch 0 false, .takeEvent])
    m.Shows .policy (m.content? .policy) := by
  have h := view_converges (.ofPaths (.inDir "/p")) workIsProtected false sourcesApart_inDir .policy
    policyReplaced [.takeEvent, .pass 500, .runWatch 0 false, .takeEvent] (by decide +kernel)
    (by decide +kernel) (by decide +kernel) (by decide +kernel) (by decide +kernel)
    (by decide +kernel)
  rw [← actAll_append] at h
  exact h.1 (.inl ⟨1, by decide +kernel⟩) (by decide +kernel)

end Monitor

end DenialMonitor
