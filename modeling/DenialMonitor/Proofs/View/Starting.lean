import DenialMonitor.Proofs.View.Absence
import DenialMonitor.Proofs.View.StartSteps

set_option autoImplicit false

/-!
# Changes during the start

The start loads the sources before it watches them, and other things go on meanwhile: files change,
signals come, and watches and readers get to run. What is queued meanwhile is taken when the start
is over. So a change is shown that comes before its source is loaded, and one that the watch of the
source is told of.

In between there is a gap. A watch that is armed again loads its source once more, so that nothing
is missed that happened while it was lost; a watch that is set up by the start does not. So a change
that comes when its source was loaded and is not watched yet is missed, and what was loaded before
is shown until the source is loaded again. A source that cannot be watched at all when the watches
are set up is not watched, and what happens to its file afterwards is not shown either.

## Main definitions

* `Monitor.Move` — a step of the start, or an action.
* `Monitor.Starts` — the start takes its steps in their order, with other things in between.
* `Monitor.Throughout` — what holds at every moment of a run.
* `Monitor.Underway` — what holds all along in a run from the first step of the start on.
* `Monitor.Untouched` — nothing loads or edits what is kept of a source.

## Main results

* `Monitor.Underway.move` — what holds all along is kept.
* `Monitor.Underway.due_moveAll` — what is due stays due.
* `Monitor.holds_moveAll` — what is kept of a source that nothing touches.
* `Monitor.start_misses_no_watched_change` — what is shown of a file that changed during the start.
* `Monitor.change_before_watches_is_missed` — a change in the gap between load and watch.
-/

namespace DenialMonitor

/-- Whether an action goes on beside the start: it is one of the outside, of a watch or of a
reader. -/
def Action.isBackground : Action → Bool
  | .change _ | .refuseWatches _ | .signal _ _ | .pass _ | .runWatch _ _ | .runReader _ => true
  | _ => false

/-- A watch that listens and has something to handle fires when it does so, or it goes on so. -/
theorem Watch.step_of_listens_of_owes {w : Watch} {delays : RearmDelays} {path : String}
    {around : Surroundings} {eager : Bool} (hlistens : w.listens) (howes : w.Owes)
    (hcancelled : w.cancelled = false) :
    (w.step delays path around eager).1 = true ∨
      (w.step delays path around eager).2.listens ∧ (w.step delays path around eager).2.Owes := by
  refine or_iff_not_imp_left.mpr fun hfires => ?_
  refine ⟨(Watch.step_of_listens hlistens hcancelled).resolve_left hfires, ?_⟩
  cases hphase : w.phase with
  | armed file queue =>
    simp only [Owes, hphase] at howes
    obtain ⟨s, hs, hmatters⟩ := howes
    cases queue with
    | nil => simp at hs
    | cons signal rest =>
      rw [step_of_armed hphase hcancelled] at hfires ⊢
      rcases w.handle_cases delays path around file signal rest with
        ⟨hidle, heq⟩ | ⟨rfl, -⟩ | hfired
      · rw [heq]
        rcases List.mem_cons.mp hs with rfl | hs
        · simp [hidle] at hmatters
        · exact ⟨s, hs, hmatters⟩
      · simp [listens, hphase] at hlistens
      · exact absurd hfired hfires
  | _ => simp [listens, hphase] at hlistens

namespace Monitor

/-- What happens from the first step of the start on. -/
inductive Move where
  /-- The start takes a step. -/
  | step (s : StartStep)
  | act (a : Action)

/-- What a move does. -/
def move (m : Monitor) : Move → Monitor
  | .step s => m.startStep s
  | .act a => m.act a

/-- What a list of moves does. -/
def moveAll (m : Monitor) (moves : List Move) : Monitor :=
  moves.foldl move m

/-- The start has the given steps still to take. It takes them in their order, and nothing but what
goes on beside it happens until the last of them is taken. -/
def Starts : List StartStep → List Move → Prop
  | [], [] => True
  | [], .step _ :: _ => False
  | [], .act _ :: moves => Starts [] moves
  | _ :: _, [] => False
  | s :: steps, .step s' :: moves => s' = s ∧ Starts steps moves
  | s :: steps, .act a :: moves => a.isBackground ∧ Starts (s :: steps) moves

instance Starts.decidable : ∀ steps moves, Decidable (Starts steps moves)
  | [], [] => inferInstanceAs (Decidable True)
  | [], .step _ :: _ => inferInstanceAs (Decidable False)
  | [], .act _ :: moves => Starts.decidable [] moves
  | _ :: _, [] => inferInstanceAs (Decidable False)
  | s :: steps, .step s' :: moves =>
    have := Starts.decidable steps moves
    inferInstanceAs (Decidable (s' = s ∧ Starts steps moves))
  | s :: steps, .act a :: moves =>
    have := Starts.decidable (s :: steps) moves
    inferInstanceAs (Decidable (a.isBackground ∧ Starts (s :: steps) moves))

/-- `P` holds at every moment of a run. -/
def Throughout (P : Monitor → Prop) : Monitor → List Move → Prop
  | m, [] => P m
  | m, mv :: moves => P m ∧ Throughout P (m.move mv) moves

instance Throughout.decidable (P : Monitor → Prop) [∀ m, Decidable (P m)] :
    ∀ m moves, Decidable (Throughout P m moves)
  | m, [] => inferInstanceAs (Decidable (P m))
  | m, mv :: moves =>
    have := Throughout.decidable P (m.move mv) moves
    inferInstanceAs (Decidable (P m ∧ Throughout P (m.move mv) moves))

variable {m : Monitor} {mv : Move} {moves before after : List Move} {steps : List StartStep}
  {source : Source} {P : Watch → Prop}

theorem moveAll_cons (m : Monitor) (mv : Move) (moves : List Move) :
    m.moveAll (mv :: moves) = (m.move mv).moveAll moves :=
  rfl

theorem moveAll_append (m : Monitor) (before after : List Move) :
    m.moveAll (before ++ after) = (m.moveAll before).moveAll after :=
  List.foldl_append

section

variable {Q : Monitor → Prop}

theorem Throughout.now (h : Throughout Q m moves) : Q m := by
  cases moves with
  | nil => exact h
  | cons mv moves => exact h.1

theorem Throughout.of_append (h : Throughout Q m (before ++ after)) :
    Throughout Q (m.moveAll before) after := by
  induction before generalizing m with
  | nil => exact h
  | cons mv before ih => exact ih h.2

theorem Throughout.append_left (h : Throughout Q m (before ++ after)) :
    Throughout Q m before := by
  induction before generalizing m with
  | nil => exact h.now
  | cons mv before ih => exact ⟨h.1, ih h.2⟩

end

/-! ## What holds all along -/

/-- The monitor as if it had published what is to be shown. -/
def caughtUp (m : Monitor) : Monitor :=
  m.update fun e => { e with published := e.snapshot }

theorem caughtUp_post (m : Monitor) (e : Event) : (m.post e).caughtUp = m.caughtUp.post e := by
  have hrunning : m.caughtUp.running = m.running := rfl
  unfold post
  rw [hrunning]
  split <;> rfl

/-- What goes on beside the start has nothing to do with what is published. -/
theorem caughtUp_act {a : Action} (ha : a.isBackground) :
    (m.act a).caughtUp = m.caughtUp.act a := by
  cases a with
  | change c => rfl
  | refuseWatches b => rfl
  | signal path s => rfl
  | pass span => rfl
  | runWatch i eager =>
    have hrun : m.caughtUp.watcher.run m.caughtUp.around i eager = m.watcher.run m.around i eager :=
      rfl
    simp only [act, runWatch, hrun]
    split
    · rfl
    · exact caughtUp_post ..
  | runReader i =>
    have hrun : m.caughtUp.tailer.run m.caughtUp.around i = m.tailer.run m.around i := rfl
    simp only [act, runReader, hrun]
    split
    · rfl
    · exact caughtUp_post ..
  | _ => cases ha

theorem running_caughtUp_act {a : Action} (ha : a.isBackground) :
    (m.caughtUp.act a).running = (m.act a).running := by
  rw [← caughtUp_act ha]
  rfl

theorem Regular.caughtUp (h : m.Regular) : m.caughtUp.Regular :=
  ⟨h.tidy, h.path_eq, .inl rfl, h.live⟩

/-- What holds of a monitor but for what it has published holds of it when that is up to date. -/
theorem regular_of_caughtUp (h : m.caughtUp.Regular) (hup : m.engine.UpToDate) : m.Regular :=
  ⟨h.tidy, h.path_eq, hup, h.live⟩

theorem regular_caughtUp_boot (settings : Settings) (around : Surroundings) :
    (boot settings around).caughtUp.Regular :=
  ⟨SecurityPolicy.tidy_empty, rfl, .inl rfl, fun _ => Watcher.live_new _⟩

theorem regular_caughtUp_startStep (h : m.caughtUp.Regular) (s : StartStep) :
    (m.startStep s).caughtUp.Regular := by
  have hstore : (m.startStep s).engine.policy =
      if s = .reload .policy then m.engine.policy.reload m.around.disk else m.engine.policy := by
    rw [← store_ledger, ledger_startStep]
    split <;> rfl
  refine ⟨?_, ?_, .inl rfl, fun hrun => ?_⟩
  · show (m.startStep s).engine.policy.policy.Tidy
    rw [hstore]
    split
    · exact SecurityPolicy.tidy_ofFile _
    · exact h.tidy
  · show (m.startStep s).engine.policy.path = (m.startStep s).settings.paths.policy
    rw [hstore, settings_startStep]
    split <;> exact h.path_eq
  · replace hrun : (m.startStep s).running := hrun
    rw [running_startStep] at hrun
    have hlive : m.watcher.Live fun source => source.path m.settings.paths := h.live hrun
    exact live_startStep hlive s

/-- What holds all along in a run from the first step of the start on, when the given steps are
still to be taken: all that holds of a monitor that has started, but for what is published before
the last step, which publishes. -/
structure Underway (steps : List StartStep) (m : Monitor) : Prop where
  regular_caughtUp : m.caughtUp.Regular
  published : steps = [] ∧ m.Regular ∨ steps.getLast? = some .publish

theorem underway_boot (settings : Settings) (around : Surroundings) (daemonRuns : Bool) :
    Underway (startSteps daemonRuns) (boot settings around) :=
  ⟨regular_caughtUp_boot settings around, .inr rfl⟩

theorem Underway.regular (h : Underway [] m) : m.Regular := by
  rcases h.published with ⟨-, hregular⟩ | hlast
  · exact hregular
  · cases hlast

theorem Underway.path_eq (h : Underway steps m) :
    m.engine.policy.path = m.settings.paths.policy :=
  h.regular_caughtUp.path_eq

theorem Underway.live (h : Underway steps m) (hrun : m.running) :
    m.watcher.Live fun source => source.path m.settings.paths :=
  h.regular_caughtUp.live hrun

theorem Underway.startStep {s : StartStep} (h : Underway (s :: steps) m) :
    Underway steps (m.startStep s) := by
  refine ⟨regular_caughtUp_startStep h.regular_caughtUp s, ?_⟩
  rcases h.published with ⟨hnil, -⟩ | hlast
  · cases hnil
  · cases steps with
    | nil =>
      obtain rfl : s = .publish := by simpa using hlast
      exact .inl ⟨rfl, regular_of_caughtUp (regular_caughtUp_startStep h.regular_caughtUp _)
        (upToDate_publish m)⟩
    | cons s' steps => exact .inr (by rwa [List.getLast?_cons_cons] at hlast)

theorem Underway.act {a : Action} (h : Underway steps m) (ha : steps = [] ∨ a.isBackground) :
    Underway steps (m.act a) := by
  rcases ha with rfl | ha
  · have hregular := h.regular.act a
    exact ⟨hregular.caughtUp, .inl ⟨rfl, hregular⟩⟩
  · refine ⟨?_, ?_⟩
    · rw [caughtUp_act ha]
      exact h.regular_caughtUp.act a
    · rcases h.published with ⟨hnil, hregular⟩ | hlast
      · exact .inl ⟨hnil, hregular.act a⟩
      · exact .inr hlast

/-- A move is the next step of the start or an action that may go on now. -/
theorem Starts.cases (h : Starts steps (mv :: moves)) :
    (∃ s steps', steps = s :: steps' ∧ mv = .step s ∧ Starts steps' moves) ∨
      ∃ a, mv = .act a ∧ (steps = [] ∨ a.isBackground) ∧ Starts steps moves := by
  cases steps with
  | nil =>
    cases mv with
    | step s => exact h.elim
    | act a => exact .inr ⟨a, rfl, .inl rfl, h⟩
  | cons s steps =>
    cases mv with
    | step s' =>
      obtain ⟨rfl, h⟩ := h
      exact .inl ⟨s', steps, rfl, rfl, h⟩
    | act a => exact .inr ⟨a, rfl, .inr h.1, h.2⟩

/-- What holds all along is kept by every move. -/
theorem Underway.move (h : Underway steps m) (hstarts : Starts steps (mv :: moves)) :
    ∃ steps', Underway steps' (m.move mv) ∧ Starts steps' moves := by
  rcases hstarts.cases with ⟨s, steps', rfl, rfl, hrest⟩ | ⟨a, rfl, ha, hrest⟩
  · exact ⟨steps', h.startStep, hrest⟩
  · exact ⟨steps, h.act ha, hrest⟩

theorem Underway.moveAll (h : Underway steps m) (hstarts : Starts steps (before ++ after)) :
    ∃ steps', Underway steps' (m.moveAll before) ∧ Starts steps' after := by
  induction before generalizing m steps with
  | nil => exact ⟨steps, h, hstarts⟩
  | cons mv before ih =>
    obtain ⟨steps', h', hstarts'⟩ := h.move hstarts
    exact ih h' hstarts'

/-- When no move is left the start is over. -/
theorem Starts.eq_nil (h : Starts steps []) : steps = [] := by
  cases steps with
  | nil => rfl
  | cons s steps => exact h.elim

theorem settings_move (m : Monitor) (mv : Move) : (m.move mv).settings = m.settings := by
  cases mv with
  | step s => exact settings_startStep m s
  | act a => exact settings_act m a

theorem settings_moveAll (m : Monitor) (moves : List Move) :
    (m.moveAll moves).settings = m.settings := by
  induction moves generalizing m with
  | nil => rfl
  | cons mv moves ih => exact (ih (m.move mv)).trans (settings_move m mv)

theorem running_of_running_move (h : (m.move mv).running) : m.running := by
  cases mv with
  | step s => exact running_startStep m s ▸ h
  | act a => exact running_of_running_act h

theorem running_of_running_moveAll (h : (m.moveAll moves).running) : m.running := by
  induction moves generalizing m with
  | nil => exact h
  | cons mv moves ih => exact running_of_running_move (ih h)

/-! ## What is due -/

/-- What is published does not matter for what is due. -/
theorem due_caughtUp : m.caughtUp.Due P source ↔ m.Due P source := by
  cases source <;> exact Iff.rfl

/-- An action that may go on now leaves due what is due. -/
theorem Underway.due_act {a : Action} (h : Underway steps m) (ha : steps = [] ∨ a.isBackground)
    (hapart : m.settings.paths.SourcesApart) (hrun : (m.act a).running)
    (hcontent : (m.act a).content? source = m.content? source)
    (hkeeps : KeepsUntilFiring P source m a) (hdue : m.Due P source) : (m.act a).Due P source := by
  rcases ha with rfl | ha
  · exact hdue.act h.regular hapart hrun hcontent hkeeps
  · have hcontent' : (m.caughtUp.act a).content? source = m.caughtUp.content? source := by
      rw [← caughtUp_act ha]
      exact hcontent
    have hdue' := (due_caughtUp.mpr hdue).act h.regular_caughtUp hapart
      (by rwa [running_caughtUp_act ha]) hcontent' ⟨hkeeps.deliver, hkeeps.step⟩
    rw [← caughtUp_act ha] at hdue'
    exact due_caughtUp.mp hdue'

/-- What is due stays due in a run that leaves the file of the source as it is. -/
theorem Underway.due_moveAll {Q : Monitor → Prop} {content : Option (List UInt8)}
    (h : Underway steps m) (hstarts : Starts steps (before ++ after))
    (hapart : m.settings.paths.SourcesApart) (hrun : (m.moveAll before).running)
    (hsame : Throughout (fun m' => m'.content? source = content) m before)
    (hQ : Throughout Q m before)
    (hkeeps : ∀ m' a, m'.settings = m.settings → Q m' → Move.act a ∈ before →
      KeepsUntilFiring P source m' a)
    (hdue : m.Due P source) : (m.moveAll before).Due P source := by
  induction before generalizing m steps with
  | nil => exact hdue
  | cons mv before ih =>
    obtain ⟨steps', h', hstarts'⟩ := h.move hstarts
    have hrun' : (m.move mv).running := running_of_running_moveAll hrun
    have hcontent : (m.move mv).content? source = m.content? source :=
      hsame.2.now.trans hsame.1.symm
    have hsettings := settings_move m mv
    refine ih h' hstarts' (by rwa [hsettings]) hrun hsame.2 hQ.2 (fun m' a hm' hQ' hmem =>
      hkeeps m' a (hm'.trans hsettings) hQ' (List.mem_cons_of_mem _ hmem)) ?_
    rcases hstarts.cases with ⟨s, steps', rfl, rfl, -⟩ | ⟨a, rfl, ha, -⟩
    · exact hdue.startStep h.path_eq (h.live (running_of_running_move hrun')) s
    · exact h.due_act ha hapart hrun' hcontent (hkeeps m a rfl hQ.1 List.mem_cons_self) hdue

/-- A source that has a live watch keeps one. -/
theorem Underway.exists_watch?_act {a : Action} (h : Underway steps m)
    (ha : steps = [] ∨ a.isBackground) (hapart : m.settings.paths.SourcesApart)
    (hrun : (m.act a).running) (hw : ∃ w, m.watch? source = some w) :
    ∃ w, (m.act a).watch? source = some w := by
  rcases ha with rfl | ha
  · have hkept : ∃ w, (m.actAll [a]).watch? source = some w :=
      h.regular.exists_watch?_actAll hapart hrun hw
    exact hkept
  · have hrun' : (m.caughtUp.act a).running := by rwa [running_caughtUp_act ha]
    have hkept : ∃ w, (m.caughtUp.actAll [a]).watch? source = some w :=
      h.regular_caughtUp.exists_watch?_actAll hapart hrun' hw
    rw [actAll_cons, actAll_nil, ← caughtUp_act ha] at hkept
    exact hkept

theorem Underway.exists_watch?_moveAll (h : Underway steps m)
    (hstarts : Starts steps (before ++ after)) (hapart : m.settings.paths.SourcesApart)
    (hrun : (m.moveAll before).running) (hw : ∃ w, m.watch? source = some w) :
    ∃ w, (m.moveAll before).watch? source = some w := by
  induction before generalizing m steps with
  | nil => exact hw
  | cons mv before ih =>
    obtain ⟨steps', h', hstarts'⟩ := h.move hstarts
    have hrun' : (m.move mv).running := running_of_running_moveAll hrun
    refine ih h' hstarts' (by rwa [settings_move]) hrun ?_
    rcases hstarts.cases with ⟨s, steps', rfl, rfl, -⟩ | ⟨a, rfl, ha, -⟩
    · obtain ⟨w, hw⟩ := hw
      exact ⟨w, watch?_startStep (h.live (running_of_running_move hrun')) hw s⟩
    · exact h.exists_watch?_act ha hapart hrun' hw

/-- A signal about the path of a source reaches its watch. -/
theorem Underway.due_signal {R : Watch → Prop} {path : String} {s : Signal}
    (h : Underway steps m) (hrun : m.running)
    (hpath : Path.same path (source.path m.settings.paths))
    (hP : ∀ w, w.hasEnded = false → P w → R (w.deliver s)) (hdue : m.Due P source) :
    (m.act (.signal path s)).Due R source := by
  show m.engine.Holds (m.content? source) source ∨ Event.changed source ∈ m.events ∨
    ∃ w, (m.act (.signal path s)).watch? source = some w ∧ R w
  refine hdue.imp_right (Or.imp_right fun ⟨w, hw, hPw⟩ => ?_)
  have hended := (h.regular_caughtUp.not_cancelled hrun hw).2
  exact ⟨w.deliver s, Watcher.find?_deliver_of_same hw hpath s, hP w hended hPw⟩

/-! ## What happens after a change -/

/-- A run from the first step of the start on, which leaves the file of a source as it is and after
which nothing is left to do. -/
structure Quiet (source : Source) (steps : List StartStep) (m : Monitor) (moves : List Move) : Prop
    where
  underway : Underway steps m
  starts : Starts steps moves
  apart : m.settings.paths.SourcesApart
  running : (m.moveAll moves).running
  settled : (m.moveAll moves).isSettled
  same : Throughout (fun m' => m'.content? source = m.content? source) m moves

/-- A source that is loaded after its file has changed is kept as the file says. -/
theorem Quiet.holds_of_reload (h : Quiet source steps m moves)
    (hmem : Move.step (.reload source) ∈ moves) :
    (m.moveAll moves).engine.Holds ((m.moveAll moves).content? source) source := by
  obtain ⟨hunderway, hstarts, hapart, hrun, hsettled, hsame⟩ := h
  obtain ⟨early, late, rfl⟩ := List.append_of_mem hmem
  obtain ⟨steps', h', hstarts'⟩ := hunderway.moveAll hstarts
  rw [moveAll_append] at hrun hsettled ⊢
  have hsame' := hsame.of_append
  rw [← settings_moveAll m early] at hapart
  generalize m.moveAll early = m' at *
  obtain ⟨steps'', h'', hstarts''⟩ := h'.move hstarts'
  have hloaded : (m'.move (.step (.reload source))).Due (fun _ => False) source := by
    left
    rw [show (m'.move (.step (.reload source))).content? source = m'.content? source from
      content?_startStep m' (.reload source) source]
    exact holds_startStep_reload h'.path_eq source
  rw [← List.append_nil late] at hstarts''
  have hdue := h''.due_moveAll hstarts'' (by rwa [settings_move]) hrun hsame'.2 hsame'.2
    (fun _ _ _ _ _ => ⟨fun _ _ _ _ _ hP => hP.elim, fun _ _ _ hP => hP.elim⟩) hloaded
  exact hdue.holds_of_isSettled hsettled fun _ _ _ hP => hP

/-- What the watch of a source has left to do when its file has changed leads to a load. -/
theorem Quiet.holds_of_watch {Q : Monitor → Prop} {w : Watch} (h : Quiet source steps m moves)
    (hQ : Throughout Q m moves)
    (hkeeps : ∀ m' a, m'.settings = m.settings → Q m' → Move.act a ∈ moves →
      KeepsUntilFiring P source m' a)
    (hw : m.watch? source = some w) (hP : P w)
    (hrests : ∀ w, (m.moveAll moves).watch? source = some w →
      ¬ w.isReady (m.moveAll moves).around.now → ¬ P w) :
    (m.moveAll moves).engine.Holds ((m.moveAll moves).content? source) source := by
  have hstarts := h.starts
  rw [← List.append_nil moves] at hstarts
  have hdue := h.underway.due_moveAll hstarts h.apart h.running h.same hQ hkeeps
    (.inr (.inr ⟨w, hw, hP⟩))
  exact hdue.holds_of_isSettled h.settled hrests

/-- A notice that reaches the watch of a source after its file has changed leads to a load: `P` is
known of the watch before the notice and `R` after it. -/
theorem Quiet.holds_of_notice {Q : Monitor → Prop} {R : Watch → Prop} {w : Watch} {path : String}
    {n : Notice} (h : Quiet source steps m moves) (hQ : Throughout Q m moves)
    (hkeeps : ∀ m' a, m'.settings = m.settings → Q m' → Move.act a ∈ moves →
      KeepsUntilFiring P source m' a ∧ KeepsUntilFiring R source m' a)
    (hw : m.watch? source = some w) (hP : P w)
    (hmem : Move.act (.signal path (.notice n)) ∈ moves)
    (hpath : Path.same path (source.path m.settings.paths))
    (hheard : ∀ w, w.hasEnded = false → P w → R (w.deliver (.notice n)))
    (hrests : ∀ w, (m.moveAll moves).watch? source = some w →
      ¬ w.isReady (m.moveAll moves).around.now → ¬ R w) :
    (m.moveAll moves).engine.Holds ((m.moveAll moves).content? source) source := by
  obtain ⟨hunderway, hstarts, hapart, hrun, hsettled, hsame⟩ := h
  obtain ⟨early, late, rfl⟩ := List.append_of_mem hmem
  obtain ⟨steps', h', hstarts'⟩ := hunderway.moveAll hstarts
  have hsettings := settings_moveAll m early
  have hsame' := hsame.of_append
  have hQ' := hQ.of_append
  rw [moveAll_append] at hrun hsettled hrests ⊢
  have hrunEarly := running_of_running_moveAll hrun
  have hdue : (m.moveAll early).Due P source := by
    refine hunderway.due_moveAll hstarts hapart hrunEarly hsame.append_left hQ.append_left
      (fun m' a hm' hQm hmem => (hkeeps m' a hm' hQm (List.mem_append_left _ hmem)).1)
      (.inr (.inr ⟨w, hw, hP⟩))
  generalize m.moveAll early = m' at *
  obtain ⟨steps'', h'', hstarts''⟩ := h'.move hstarts'
  rw [← hsettings] at hapart hpath
  have hdue' : (m'.move (.act (.signal path (.notice n)))).Due R source :=
    h'.due_signal hrunEarly hpath hheard hdue
  rw [← List.append_nil late] at hstarts''
  have hdue'' := h''.due_moveAll hstarts'' (by rwa [settings_move]) hrun hsame'.2 hQ'.2
    (fun m'' a hm'' hQm hmem => (hkeeps m'' a (hm''.trans ((settings_move ..).trans hsettings)) hQm
      (List.mem_append_right _ (List.mem_cons_of_mem _ hmem))).2) hdue'
  exact hdue''.holds_of_isSettled hsettled hrests

/-- The notice of a change is among the moves. -/
def Heard (path : String) (moves : List Move) : Prop :=
  ∃ path' n, Move.act (.signal path' (.notice n)) ∈ moves ∧ Path.same path' path ∧
    n.meaning ≠ .nothing

/-- Where its watch listens and is not given up, what it is told after its file has changed leads to
a load of the source. -/
theorem Quiet.holds_of_listens {w : Watch} (h : Quiet source steps m moves)
    (hw : m.watch? source = some w) (hlistens : w.listens)
    (hheard : Heard (source.path m.settings.paths) moves)
    (hopen : ∀ path, Move.act (.signal path .closed) ∈ moves →
      ¬ Path.same path (source.path m.settings.paths)) :
    (m.moveAll moves).engine.Holds ((m.moveAll moves).content? source) source := by
  obtain ⟨path, n, hmem, hpath, hmeaning⟩ := hheard
  refine h.holds_of_notice (P := (·.listens)) (R := fun w => w.listens ∧ w.Owes) h.same ?_ hw
    hlistens hmem hpath (fun w hended hlistens => ?_) (fun w _ hready hP => ?_)
  · intro m' a hm' _ hact
    have hdelivered {w : Watch} {path : String} {s : Signal} (ha : a = .signal path s)
        (hclosed : s = .closed → Path.same path (source.path m'.settings.paths))
        (hlistens : w.listens) : (w.deliver s).listens := by
      apply Watch.listens_deliver hlistens
      rintro rfl
      refine hopen path (ha ▸ hact) ?_
      rw [← hm']
      exact hclosed rfl
    exact ⟨⟨fun w path s ha hclosed hP => hdelivered ha hclosed hP,
        fun w eager hcancelled hP => Watch.step_of_listens hP hcancelled⟩,
      ⟨fun w path s ha hclosed hP => ⟨hdelivered ha hclosed hP.1, hP.2.deliver s⟩,
        fun w eager hcancelled hP => Watch.step_of_listens_of_owes hP.1 hP.2 hcancelled⟩⟩
  · exact ⟨Watch.listens_deliver hlistens (by simp), Watch.owes_deliver hended
      (by simp [Signal.matters, hmeaning])⟩
  · refine Watch.not_owes_of_not_isReady hready (fun due hdue => ?_) hP.2
    cases hphase : w.phase <;> simp_all [Watch.listens, Watch.due?]

/-- Where its file is there and may be watched, a watch that was lost when the file changed, or is
told of something since, leads to a load of the source when no wait is still to end. -/
theorem Quiet.holds_of_watchable {w : Watch} (h : Quiet source steps m moves)
    (hthere : Throughout
      (fun m' => (m'.around.watchable? (source.path m.settings.paths)).isSome) m moves)
    (hw : m.watch? source = some w)
    (hcause : (∃ attempt, w.state = .reopening attempt) ∨
      Heard (source.path m.settings.paths) moves)
    (hover : ∀ due ∈ (m.moveAll moves).rearmDue? source, due ≤ (m.moveAll moves).around.now) :
    (m.moveAll moves).engine.Holds ((m.moveAll moves).content? source) source := by
  have hkeeps (m' : Monitor) (a : Action) (hm' : m'.settings = m.settings)
      (hthere : (m'.around.watchable? (source.path m.settings.paths)).isSome) :
      KeepsUntilFiring Watch.Owes source m' a := by
    rw [← hm'] at hthere
    exact ⟨fun w path s _ _ howes => howes.deliver s,
      fun w eager hcancelled howes => howes.step hcancelled hthere⟩
  have hrests (w : Watch) (hw : (m.moveAll moves).watch? source = some w)
      (hready : ¬ w.isReady (m.moveAll moves).around.now) : ¬ w.Owes :=
    Watch.not_owes_of_not_isReady hready fun due hdue =>
      hover due (by simpa [rearmDue?, hw] using hdue)
  rcases hcause with ⟨attempt, hlost⟩ | ⟨path, n, hmem, hpath, hmeaning⟩
  · exact h.holds_of_watch hthere (fun m' a hm' hthere _ => hkeeps m' a hm' hthere) hw
      (Watch.owes_of_reopening hlost) hrests
  · refine h.holds_of_notice (P := fun _ => True) hthere (fun m' a hm' hthere _ =>
      ⟨⟨fun _ _ _ _ _ _ => trivial, fun _ _ _ _ => .inr trivial⟩, hkeeps m' a hm' hthere⟩) hw
      trivial hmem hpath (fun w hended _ => Watch.owes_deliver hended ?_) hrests
    simp [Signal.matters, hmeaning]

/-! ## What is not loaded again -/

/-- A move loads a source, or edits the policy. -/
def Touches (source : Source) (m : Monitor) : Move → Prop
  | .step s => s = .reload source
  | .act a => Reads source m a ∨ source = .policy ∧ (m.deed a).edit?.isSome

instance Touches.decidable (source : Source) (m : Monitor) : ∀ mv, Decidable (Touches source m mv)
  | .step s => inferInstanceAs (Decidable (s = .reload source))
  | .act a => inferInstanceAs
      (Decidable (Reads source m a ∨ source = .policy ∧ (m.deed a).edit?.isSome))

/-- Nothing in a run loads a source or edits the policy. -/
def Untouched (source : Source) : Monitor → List Move → Prop
  | _, [] => True
  | m, mv :: moves => ¬ Touches source m mv ∧ Untouched source (m.move mv) moves

instance Untouched.decidable (source : Source) :
    ∀ m moves, Decidable (Untouched source m moves)
  | _, [] => inferInstanceAs (Decidable True)
  | m, mv :: moves =>
    have := Untouched.decidable source (m.move mv) moves
    inferInstanceAs (Decidable (¬ Touches source m mv ∧ Untouched source (m.move mv) moves))

/-- What is kept of a source stays as it is while nothing touches it, whatever becomes of its
file. -/
theorem holds_move {content : Option (List UInt8)} (hrun : (m.move mv).running)
    (huntouched : ¬ Touches source m mv) (h : m.engine.Holds content source) :
    (m.move mv).engine.Holds content source := by
  cases mv with
  | step s => exact holds_startStep huntouched h
  | act a =>
    obtain ⟨hreads, hedit⟩ := not_or.mp huntouched
    have hloaded := loaded_act_of_not_reads (m := m) (a := a) hrun
    cases source with
    | denials => rwa [Engine.Holds, show (m.move (.act a)).engine.log = _ from hloaded.1 hreads]
    | lastDenial =>
      rwa [Engine.Holds, show (m.move (.act a)).engine.lastDenial = _ from hloaded.2 hreads]
    | policy =>
      have hnone : (m.deed a).edit? = none := by simpa using hedit
      have hstore : (m.act a).ledger.store = m.ledger.store := by
        rw [ledger_act]
        exact Ledger.store_perform hnone (mt reads_policy_iff.mpr hreads)
      have hpolicy : (m.act a).engine.policy.policy = m.engine.policy.policy :=
        congrArg (·.policy) hstore
      rwa [Engine.Holds, show (m.move (.act a)).engine.policy.policy = _ from hpolicy]

theorem holds_moveAll {content : Option (List UInt8)} (hrun : (m.moveAll moves).running)
    (huntouched : Untouched source m moves) (h : m.engine.Holds content source) :
    (m.moveAll moves).engine.Holds content source := by
  induction moves generalizing m with
  | nil => exact h
  | cons mv moves ih =>
    have hrun' : (m.move mv).running := running_of_running_moveAll hrun
    exact ih hrun huntouched.2 (holds_move hrun' huntouched.1 h)

/-! ## What is watched from the start on -/

theorem exists_watch?_registerWatches
    (h : m.watcher.Live fun source => source.path m.settings.paths)
    (hthere : (m.around.watchable? (source.path m.settings.paths)).isSome) :
    ∃ w, (m.startStep .registerWatches).watch? source = some w := by
  show ∃ w, (m.startStep .registerWatches).intake.watcher.find?
    (source.path (m.startStep .registerWatches).settings.paths) = some w
  rw [settings_startStep, intake_startStep]
  exact exists_find?_registerEach h (by cases source <;> decide) hthere

/-- A source whose file could be watched when the watches were set up has a live watch from then
on. -/
theorem Underway.isActive_of_registered {early late : List Move} (h : Underway steps m)
    (hstarts : Starts steps (early ++ .step .registerWatches :: (late ++ after)))
    (hapart : m.settings.paths.SourcesApart)
    (hrun : (m.moveAll (early ++ .step .registerWatches :: late)).running)
    (hthere : ((m.moveAll early).around.watchable? (source.path m.settings.paths)).isSome) :
    (m.moveAll (early ++ .step .registerWatches :: late)).watcher.isActive
      (source.path m.settings.paths) := by
  rw [moveAll_append, moveAll_cons] at hrun ⊢
  obtain ⟨steps', h', hstarts'⟩ := h.moveAll hstarts
  rw [← settings_moveAll m early] at hapart hthere ⊢
  generalize m.moveAll early = m' at *
  obtain ⟨steps'', h'', hstarts''⟩ := h'.move hstarts'
  have hrun'' := running_of_running_moveAll hrun
  have hregistered : ∃ w, (m'.move (.step .registerWatches)).watch? source = some w :=
    exists_watch?_registerWatches (h'.live (running_of_running_move hrun'')) hthere
  rw [← settings_move m' (.step .registerWatches)] at hapart ⊢
  obtain ⟨w, hw⟩ := h''.exists_watch?_moveAll hstarts'' hapart hrun hregistered
  obtain ⟨_, hlater, -⟩ := h''.moveAll hstarts''
  rw [watch?, settings_moveAll] at hw
  exact (hlater.live hrun).isActive_of_find? hw

/-- **The start misses no change that it can see.** Take a run from the first step of the start on,
with anything going on in between, and let the file of a source stay as it is from some moment on.
If the source is still to be loaded at that moment, then what is shown of it is what its file holds
as soon as the start is over and nothing is left to do. The same holds after the watches were set
up, if the source has a watch that listens at that moment, is not given up and is told of the
change. And it holds for every live watch, if the file is there and may be watched, and the watch
was lost at that moment or is told of something since, when no wait is still to end. A source has a
live watch if its file was there and could be watched when the watches were set up. Where nothing
loads the source since that moment, and nothing edits the policy, what was kept of it then is shown,
whatever its file holds.

**Proof sketch.** Until the last step of the start only what is published is behind. A source that
was loaded is kept as its file says. A watch that is told of a change fires, or it is lost and fires
when it is armed again; the change is queued then, and taken when the start is over. -/
theorem start_misses_no_watched_change (settings : Settings) (around : Surroundings)
    (daemonRuns : Bool) (hapart : settings.paths.SourcesApart) (source : Source)
    (before after : List Move) (hstarts : Starts (startSteps daemonRuns) (before ++ after)) :
    let booted := boot settings around
    let m₀ := booted.moveAll before
    let m := m₀.moveAll after
    let path := source.path settings.paths
    m.running → m.isSettled →
    Throughout (fun m' => m'.content? source = m₀.content? source) m₀ after →
    (Move.step (.reload source) ∈ after → m.Shows source (m.content? source)) ∧
    ((∃ w, m₀.watch? source = some w ∧ w.listens) → Heard path after →
      (∀ path', Move.act (.signal path' .closed) ∈ after → ¬ Path.same path' path) →
      m.Shows source (m.content? source)) ∧
    (m₀.watcher.isActive path → Throughout (fun m' => (m'.around.watchable? path).isSome) m₀ after →
      (∃ attempt, m₀.watcher.state path = .reopening attempt) ∨ Heard path after →
      (∀ due ∈ m.rearmDue? source, due ≤ m.around.now) → m.Shows source (m.content? source)) ∧
    (∀ early late, before = early ++ .step .registerWatches :: late →
      ((booted.moveAll early).around.watchable? path).isSome → m₀.watcher.isActive path) ∧
    ∀ content, m₀.engine.Holds content source → Untouched source m₀ after →
      m.Shows source content := by
  intro booted m₀ m path hrun hsettled hsame
  obtain ⟨steps, hunderway, hstarts'⟩ := (underway_boot settings around daemonRuns).moveAll hstarts
  have hsettings : m₀.settings = settings := settings_moveAll booted before
  have hquiet : Quiet source steps m₀ after :=
    ⟨hunderway, hstarts', by rwa [hsettings], hrun, hsettled, hsame⟩
  have hregular : m.Regular := by
    have hend := hstarts'
    rw [← List.append_nil after] at hend
    obtain ⟨steps', h', hdone⟩ := hunderway.moveAll hend
    obtain rfl := hdone.eq_nil
    exact h'.regular
  have hpath : path = source.path m₀.settings.paths := by rw [hsettings]
  rw [hpath]
  refine ⟨fun hmem => ?_, fun ⟨w, hw, hlistens⟩ hheard hopen => ?_,
    fun hactive hthere hcause hover => ?_, fun early late hbefore hthere => ?_,
    fun content hholds huntouched => ?_⟩
  · exact hregular.shows_of_holds (hquiet.holds_of_reload hmem)
  · exact hregular.shows_of_holds (hquiet.holds_of_listens hw hlistens hheard hopen)
  · obtain ⟨w, hw⟩ : ∃ w, m₀.watch? source = some w := Watcher.exists_find?_of_isActive hactive
    refine hregular.shows_of_holds (hquiet.holds_of_watchable hthere hw ?_ hover)
    rwa [state_eq_of_watch? hw] at hcause
  · rw [hsettings] at hthere ⊢
    have hbooted := underway_boot settings around daemonRuns
    have hrun₀ : m₀.running := running_of_running_moveAll hrun
    subst hbefore
    rw [List.append_assoc, List.cons_append] at hstarts
    exact hbooted.isActive_of_registered hstarts hapart hrun₀ hthere
  · exact hregular.shows_of_holds (holds_moveAll hrun huntouched hholds)

/-- The first `n` steps of the start. -/
def opening (n : Nat) : List Move :=
  ((startSteps false).take n).map .step

/-- The steps behind them. -/
def ending (n : Nat) : List Move :=
  ((startSteps false).drop n).map .step

/-- Another policy is written to the file. -/
def homeWritten : Move :=
  .act (.change (.write "/p/es_policy.json"
    (Utf8.encode "\x7b\"protected_zones\":[\"/home/\"]\x7d")))

/-- The watch on the policy file is told of the change and gets to run before the start is over. -/
def toldDuringStart : List Move :=
  [.act (.signal "/p/es_policy.json" (.notice (.modified .content))), .act (.runWatch 0 false)] ++
    ending 6 ++ [.act .takeEvent]

/-- What is done when the start is over with a watch that was lost meanwhile. -/
def armedAgain : List Move :=
  [.act .takeEvent, .act (.pass 500), .act (.runWatch 0 false), .act .takeEvent]

/-- A policy is shown that is written before it is loaded, that is written when the watches were set
up, or that replaces the one that is watched then. The one that was loaded is still shown if another
one is written before the watches are set up. -/
theorem policy_written_during_start_is_shown :
    let booted := boot (.ofPaths (.inDir "/p")) workIsProtected
    let early := (booted.moveAll (opening 1 ++ [homeWritten])).moveAll (ending 1)
    let late := (booted.moveAll (opening 6 ++ [homeWritten])).moveAll toldDuringStart
    let replaced := (booted.moveAll (opening 5 ++ .step .registerWatches ::
      policyReplaced.map .act)).moveAll (ending 6 ++ armedAgain)
    let between := (booted.moveAll (opening 2 ++ [homeWritten])).moveAll (ending 2)
    early.Shows .policy (early.content? .policy) ∧ late.Shows .policy (late.content? .policy) ∧
      replaced.Shows .policy (replaced.content? .policy) ∧
      between.Shows .policy (booted.content? .policy) := by
  refine ⟨?_, ?_, ?_, ?_⟩
  · have h := start_misses_no_watched_change (.ofPaths (.inDir "/p")) workIsProtected false
      sourcesApart_inDir .policy (opening 1 ++ [homeWritten]) (ending 1) (by decide +kernel)
      (by decide +kernel) (by decide +kernel) (by decide +kernel)
    exact h.1 (by simp [ending, startSteps, Source.all])
  · have h := start_misses_no_watched_change (.ofPaths (.inDir "/p")) workIsProtected false
      sourcesApart_inDir .policy (opening 6 ++ [homeWritten]) toldDuringStart (by decide +kernel)
      (by decide +kernel) (by decide +kernel) (by decide +kernel)
    have hopen : ∀ path', Move.act (.signal path' .closed) ∉ toldDuringStart := by
      intro path' hmem
      simp [toldDuringStart, ending, startSteps, Source.all] at hmem
    exact h.2.1 ⟨.arm ⟨2⟩, by decide +kernel, by decide +kernel⟩
      ⟨"/p/es_policy.json", .modified .content, by simp [toldDuringStart], by decide +kernel,
        by decide⟩
      fun path' hmem => absurd hmem (hopen path')
  · have h := start_misses_no_watched_change (.ofPaths (.inDir "/p")) workIsProtected false
      sourcesApart_inDir .policy
      (opening 5 ++ .step .registerWatches :: policyReplaced.map .act) (ending 6 ++ armedAgain)
      (by decide +kernel) (by decide +kernel) (by decide +kernel) (by decide +kernel)
    have hactive := h.2.2.2.1 (opening 5) (policyReplaced.map .act) rfl (by decide +kernel)
    exact h.2.2.1 hactive (by decide +kernel) (.inl ⟨1, by decide +kernel⟩) (by decide +kernel)
  · have h := start_misses_no_watched_change (.ofPaths (.inDir "/p")) workIsProtected false
      sourcesApart_inDir .policy (opening 2 ++ [homeWritten]) (ending 2) (by decide +kernel)
      (by decide +kernel) (by decide +kernel) (by decide +kernel)
    exact h.2.2.2.2 _ rfl (by decide +kernel)

/-- Whether the start misses nothing: let the file of a source stay as it is from some moment of a
run on, and be there and open to watches since. If a watch of the source that listens at the moment
is told of the change, then what is shown of the source is what its file holds. -/
def MissesNothing (settings : Settings) (around : Surroundings) (daemonRuns : Bool)
    (source : Source) (before after : List Move) : Prop :=
  let m₀ := (boot settings around).moveAll before
  let m := m₀.moveAll after
  let path := source.path settings.paths
  settings.paths.SourcesApart → Starts (startSteps daemonRuns) (before ++ after) →
    m.running → m.isSettled →
    Throughout (fun m' => m'.content? source = m₀.content? source) m₀ after →
    Throughout (fun m' => (m'.around.watchable? path).isSome) m₀ after →
    ((∃ w, m₀.watch? source = some w ∧ w.listens) → Heard path after) →
    m.Shows source (m.content? source)

/-- The start misses a policy that is written between the load of the policy and the setting up of
its watch. The watch listens afterwards, but nothing tells it of what it was too late for. -/
theorem change_before_watches_is_missed :
    ¬ MissesNothing (.ofPaths (.inDir "/p")) workIsProtected false .policy
        (opening 2 ++ [homeWritten]) (ending 2) ∧
      ((boot (.ofPaths (.inDir "/p")) workIsProtected).moveAll
        (opening 2 ++ [homeWritten] ++ ending 2)).watch? .policy = some (.arm ⟨2⟩) := by
  refine ⟨fun h => ?_, by decide +kernel⟩
  have hunwatched : ((boot (.ofPaths (.inDir "/p")) workIsProtected).moveAll
      (opening 2 ++ [homeWritten])).watch? .policy = none := by decide +kernel
  have hshows := h sourcesApart_inDir (by decide +kernel) (by decide +kernel) (by decide +kernel)
    (by decide +kernel) (by decide +kernel) fun ⟨w, hw, _⟩ => by simp [hunwatched] at hw
  revert hshows
  decide +kernel

/-- Where the operating system refuses the watch, the start goes on without it, and the monitor does
not see what is written afterwards. -/
theorem change_of_unwatched_source_is_not_shown :
    let around := { workIsProtected with refusesWatches := true }
    let m := (boot (.ofPaths (.inDir "/p")) around).moveAll (opening 8 ++ [homeWritten])
    m.isSettled ∧ m.watch? .policy = none ∧ ¬ m.Shows .policy (m.content? .policy) := by
  decide +kernel

end Monitor

end DenialMonitor
