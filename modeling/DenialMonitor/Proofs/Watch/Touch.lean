import DenialMonitor.Proofs.Watch.Live

set_option autoImplicit false

/-!
# What can happen to a watch

At any moment a watch rests, hears a signal, is asked to stop, or gets to run. Only a watch that gets
to run changes its state: it handles the oldest signal that it has heard, or it tries to open its
path again, or it ends, since it was asked to stop. So it can be said of each touch where it leads
and whether the watch fires.

## Main definitions

* `Watch.Touch`, `Watch.touch` — what can happen to a watch, and where it leads.
* `Watch.handled?`, `Watch.attempts` — what a watch does that gets to run.
* `Signal.Loses` — a signal after which a watch is given up.
* `WatchState.Precedes` — the states that can follow each other.
* `Watch.Abides` — the laws of a watch.

## Main results

* `Watch.touch_cases` — the four ways of a touch.
* `Watch.abides_touch` — every touch abides by the laws.
-/

namespace DenialMonitor

/-- The states that can follow a state. Attempts are counted up to a bound. -/
def WatchState.Precedes : WatchState → WatchState → Prop
  | .watching, s => s = .watching ∨ s = .reopening 1 ∨ s = .stopped
  | .reopening k, s =>
    s = .reopening k ∨ s = .reopening (min (k + 1) Watch.maxAttempt) ∨ s = .watching ∨ s = .stopped
  | .stopped, s => s = .stopped

namespace Signal

/-- Whether a signal is the notice of a change. -/
def isChange : Signal → Bool
  | .notice n => n.meaning ≠ .nothing
  | _ => false

/-- A signal after which a watch that is armed on `file` is given up where its path names `current`:
the file was removed or renamed, or it was changed and is not the one that the path names, or the
operating system has given the watch up. -/
def Loses (current : Option FileId) (file : FileId) : Signal → Prop
  | .notice n => n = .removed ∨ n = .modified .name ∨ n.meaning = .changed ∧ current ≠ some file
  | .failure => False
  | .closed => True

end Signal

/-- Only removals and renamings say that a watch no longer stands for the file at its path. -/
theorem Notice.meaning_eq_invalidated_iff {n : Notice} :
    n.meaning = .invalidated ↔ n = .removed ∨ n = .modified .name := by
  cases n with
  | accessed how => cases how <;> simp [meaning]
  | modified what => cases what <;> simp [meaning]
  | _ => simp [meaning]

namespace Watch

/-- What can happen to a watch. -/
inductive Touch where
  | rest
  | hear (signal : Signal)
  | stop
  | turn (eager : Bool)
  deriving DecidableEq, Repr

/-- Where a touch leads, and whether the watch fires. -/
def touch (w : Watch) (delays : RearmDelays) (path : String) (s : Surroundings) :
    Touch → Bool × Watch
  | .rest => (false, w)
  | .hear signal => (false, w.deliver signal)
  | .stop => (false, w.cancel)
  | .turn eager => w.step delays path s eager

/-- The signal that a watch handles, and the file on which it is armed. -/
def handled? (w : Watch) : Touch → Option (FileId × Signal)
  | .turn _ =>
    match w.phase with
    | .armed file (signal :: _) => if w.cancelled then none else some (file, signal)
    | _ => none
  | _ => none

/-- Whether a watch tries to open its path again. -/
def attempts (w : Watch) (now : Nat) : Touch → Bool
  | .turn eager =>
    match w.phase with
    | .waiting _ due _ => due ≤ now && (!w.cancelled || eager)
    | _ => false
  | _ => false

/-- The laws of a watch on `path` that is touched and is `w'` then. -/
structure Abides (path : String) (s : Surroundings) (w : Watch) (t : Touch) (fired : Bool)
    (w' : Watch) : Prop where
  /-- Its states follow each other in their order. -/
  precedes : w.state.Precedes w'.state
  /-- It is given up exactly where it handles a signal that loses its file. -/
  lost_iff : w.state = .watching → (w'.state = .reopening 1 ↔
    ∃ file signal, w.handled? t = some (file, signal) ∧ signal.Loses (s.file? path) file)
  /-- It ends exactly where it gets to run after it was asked to stop, unless it tries once more. -/
  ended_iff : w'.state = .stopped ↔ w.state = .stopped ∨
    w.cancelled = true ∧ (∃ eager, t = .turn eager) ∧ w.attempts s.now t = false
  /-- As long as it is not given up, it stays armed on its file. -/
  armed_on : ∀ file queue, w.phase = .armed file queue → w'.state = .watching →
    ∃ queue', w'.phase = .armed file queue'
  /-- It is armed again exactly where an attempt finds a file at its path. -/
  rearmed_iff : ∀ k, w.state = .reopening k →
    (w'.state = .watching ↔ w.attempts s.now t = true ∧ (s.file? path).isSome)
  /-- Then it is armed on that file. -/
  rearmed_on : ∀ k, w.state = .reopening k → w'.state = .watching →
    ∃ file, s.file? path = some file ∧ w'.phase = .armed file []
  /-- An attempt that finds none is counted. -/
  missed : ∀ k, w.state = .reopening k → w.attempts s.now t = true → s.file? path = none →
    w'.state = .reopening (min (k + 1) maxAttempt)
  /-- It fires exactly where it handles the notice of a change or is armed again. -/
  fired_iff : fired = true ↔
    (∃ file signal, w.handled? t = some (file, signal) ∧ signal.isChange) ∨
      w.attempts s.now t = true ∧ (s.file? path).isSome

variable {w : Watch} {delays : RearmDelays} {path : String} {s : Surroundings} {t : Touch}

/-- The phase of a watch is the same as before, but for signals that have come behind its queue. -/
def GoesOn (w w' : Watch) : Prop :=
  w'.phase = w.phase ∨
    ∃ file queue more, w.phase = .armed file queue ∧ w'.phase = .armed file (queue ++ more)

theorem GoesOn.state_eq {w w' : Watch} (h : w.GoesOn w') : w'.state = w.state := by
  rcases h with heq | ⟨file, queue, more, hphase, hphase'⟩
  · simp [state, heq]
  · simp [state, hphase, hphase']

theorem GoesOn.exists_armed {w w' : Watch} {file : FileId} {queue : List Signal} (h : w.GoesOn w')
    (hphase : w.phase = .armed file queue) : ∃ more, w'.phase = .armed file (queue ++ more) := by
  rcases h with heq | ⟨file', queue', more, hphase', hmore⟩
  · exact ⟨[], by simp [heq, hphase]⟩
  · obtain ⟨rfl, rfl⟩ : file' = file ∧ queue' = queue := by simpa [hphase'] using hphase
    exact ⟨more, hmore⟩

/-- What a touch comes to. -/
inductive Way (w : Watch) (delays : RearmDelays) (path : String) (s : Surroundings) (t : Touch) :
    Prop where
  /-- The watch handles the oldest signal. -/
  | handles (file : FileId) (signal : Signal) (rest : List Signal)
    (hphase : w.phase = .armed file (signal :: rest)) (hhandled : w.handled? t = some (file, signal))
    (hattempts : w.attempts s.now t = false)
    (heq : w.touch delays path s t = w.handle delays path s file signal rest)
  /-- It tries to open its path again. -/
  | attempts (attempt due wait : Nat) (hphase : w.phase = .waiting attempt due wait)
    (hhandled : w.handled? t = none) (hattempts : w.attempts s.now t = true)
    (heq : w.touch delays path s t = w.retry delays path s attempt wait)
  /-- It ends. -/
  | ends (hhandled : w.handled? t = none) (hattempts : w.attempts s.now t = false)
    (hcancelled : w.cancelled = true) (hturn : ∃ eager, t = .turn eager)
    (heq : w.touch delays path s t = (false, ⟨.ended, true⟩))
  /-- It goes on with what it is doing, with more signals in its queue at most. -/
  | stays (hhandled : w.handled? t = none) (hattempts : w.attempts s.now t = false)
    (hturn : w.state ≠ .stopped → w.cancelled = true → ∀ eager, t ≠ .turn eager)
    (hfired : (w.touch delays path s t).1 = false)
    (hcancelled : w.cancelled = true → (w.touch delays path s t).2.cancelled = true)
    (hgoes : w.GoesOn (w.touch delays path s t).2)

theorem goesOn_self (w : Watch) : w.GoesOn w :=
  .inl rfl

theorem goesOn_deliver (w : Watch) (signal : Signal) : w.GoesOn (w.deliver signal) := by
  cases hphase : w.phase with
  | armed file queue =>
    unfold deliver
    simp only [hphase]
    split
    · exact .inr ⟨file, queue, [signal], hphase, rfl⟩
    · exact .inl rfl
  | _ => exact .inl (by simp [deliver, hphase])

/-- A watch that waits tries to open its path where the wait is over, or else ends where it was asked
to stop. -/
theorem way_turn_of_waiting (attempt due wait : Nat) (cancelled : Bool) (delays : RearmDelays)
    (path : String) (s : Surroundings) (eager : Bool) :
    Way ⟨.waiting attempt due wait, cancelled⟩ delays path s (.turn eager) := by
  by_cases hattempt : due ≤ s.now ∧ (!cancelled ∨ eager)
  · refine .attempts attempt due wait rfl rfl ?_ ?_
    · simpa [Watch.attempts] using hattempt
    · simp only [touch, step]
      rw [if_pos hattempt]
  · have hattempts : (⟨.waiting attempt due wait, cancelled⟩ : Watch).attempts s.now
        (.turn eager) = false := by
      simpa [Watch.attempts] using hattempt
    have htouch : (⟨.waiting attempt due wait, cancelled⟩ : Watch).touch delays path s
        (.turn eager) = if cancelled then (false, ⟨.ended, cancelled⟩)
          else (false, ⟨.waiting attempt due wait, cancelled⟩) := by
      simp only [touch, step]
      rw [if_neg hattempt]
    cases cancelled with
    | true => exact .ends rfl hattempts rfl ⟨eager, rfl⟩ htouch
    | false =>
      exact .stays rfl hattempts (by simp) (congrArg Prod.fst htouch) (by simp)
        (.inl (congrArg (·.2.phase) htouch))

theorem way_turn (w : Watch) (delays : RearmDelays) (path : String) (s : Surroundings)
    (eager : Bool) : Way w delays path s (.turn eager) := by
  obtain ⟨phase, cancelled⟩ := w
  cases phase with
  | ended => exact .stays rfl rfl (by simp [state]) rfl id (goesOn_self _)
  | waiting attempt due wait => exact way_turn_of_waiting attempt due wait cancelled ..
  | armed file queue =>
    cases cancelled with
    | true => exact .ends (by cases queue <;> rfl) rfl rfl ⟨eager, rfl⟩ rfl
    | false =>
      cases queue with
      | nil => exact .stays rfl rfl (by simp) rfl id (goesOn_self _)
      | cons signal rest => exact .handles file signal rest rfl rfl rfl rfl

/-- Every touch comes to one of the four. -/
theorem way_touch (w : Watch) (delays : RearmDelays) (path : String) (s : Surroundings) (t : Touch) :
    Way w delays path s t := by
  cases t with
  | rest => exact .stays rfl rfl (by simp) rfl id w.goesOn_self
  | hear signal =>
    exact .stays rfl rfl (by simp) rfl (w.cancelled_deliver signal).trans (w.goesOn_deliver signal)
  | stop => exact .stays rfl rfl (by simp) rfl (fun _ => rfl) (.inl rfl)
  | turn eager => exact w.way_turn delays path s eager

/-! ## Handling a signal -/

section

variable {file : FileId} {signal : Signal} {rest : List Signal}

theorem fst_handle (w : Watch) (delays : RearmDelays) (path : String) (s : Surroundings)
    (file : FileId) (signal : Signal) (rest : List Signal) :
    (w.handle delays path s file signal rest).1 = signal.isChange := by
  cases signal with
  | notice n => cases h : n.meaning <;> simp [handle, Signal.isChange, h]
  | _ => rfl

theorem snd_handle_of_loses (h : signal.Loses (s.file? path) file) :
    (w.handle delays path s file signal rest).2 = w.lose delays s.now := by
  cases signal with
  | failure => exact h.elim
  | closed => rfl
  | notice n =>
    simp only [Signal.Loses, ← or_assoc, ← Notice.meaning_eq_invalidated_iff] at h
    rcases h with h | ⟨h, hgone⟩
    · simp [handle, h]
    · simp [handle, h, hgone]

theorem snd_handle_of_not_loses (h : ¬ signal.Loses (s.file? path) file) :
    (w.handle delays path s file signal rest).2 = { w with phase := .armed file rest } := by
  cases signal with
  | failure => rfl
  | closed => exact absurd trivial h
  | notice n =>
    simp only [Signal.Loses, ← or_assoc, ← Notice.meaning_eq_invalidated_iff, not_or, not_and,
      ne_eq, not_not] at h
    cases hmeaning : n.meaning with
    | nothing => simp [handle, hmeaning]
    | changed => simp [handle, hmeaning, h.2 hmeaning]
    | invalidated => exact absurd hmeaning h.1

/-- A watch that handles a signal abides by the laws. -/
theorem abides_handle (hphase : w.phase = .armed file (signal :: rest))
    (hhandled : w.handled? t = some (file, signal)) (hattempts : w.attempts s.now t = false)
    (hcancelled : w.cancelled = false) :
    Abides path s w t (w.handle delays path s file signal rest).1
      (w.handle delays path s file signal rest).2 := by
  have hstate : w.state = .watching := by simp [state, hphase]
  by_cases hloses : signal.Loses (s.file? path) file
  · have hlost : (w.lose delays s.now).state = .reopening 1 := rfl
    rw [fst_handle, snd_handle_of_loses hloses]
    exact
      { precedes := by simp [hstate, hlost, WatchState.Precedes]
        lost_iff := by simp [hlost, hhandled, hloses]
        ended_iff := by simp [hlost, hstate, hcancelled]
        armed_on := by simp [hlost]
        rearmed_iff := by simp [hstate]
        rearmed_on := by simp [hstate]
        missed := by simp [hstate]
        fired_iff := by simp [hhandled, hattempts] }
  · have hstays (c : Bool) : (⟨.armed file rest, c⟩ : Watch).state = .watching := rfl
    rw [fst_handle, snd_handle_of_not_loses hloses]
    exact
      { precedes := by simp [hstate, hstays, WatchState.Precedes]
        lost_iff := by simp [hstays, hhandled, hloses]
        ended_iff := by simp [hstays, hstate, hcancelled]
        armed_on := by simp [hphase]
        rearmed_iff := by simp [hstate]
        rearmed_on := by simp [hstate]
        missed := by simp [hstate]
        fired_iff := by simp [hhandled, hattempts] }

end

/-! ## Opening a path again -/

/-- A watch that tries to open its path abides by the laws, where the operating system accepts
watches. -/
theorem abides_retry {attempt due wait : Nat} (haccepts : s.refusesWatches = false)
    (hphase : w.phase = .waiting attempt due wait) (hhandled : w.handled? t = none)
    (hattempts : w.attempts s.now t = true) :
    Abides path s w t (w.retry delays path s attempt wait).1
      (w.retry delays path s attempt wait).2 := by
  have hstate : w.state = .reopening attempt := by simp [state, hphase]
  have hwatchable : s.watchable? path = s.file? path := by simp [Surroundings.watchable?, haccepts]
  cases hfile : s.file? path with
  | none =>
    have hmissed : (w.retry delays path s attempt wait) =
        (false, w.await s.now (min (attempt + 1) maxAttempt) (delays.next wait)) := by
      simp [retry, hwatchable, hfile]
    have hstate' (now k wait : Nat) : (w.await now k wait).state = .reopening k := rfl
    rw [hmissed]
    exact
      { precedes := by simp [hstate, hstate', WatchState.Precedes]
        lost_iff := by simp [hstate]
        ended_iff := by simp [hstate, hstate', hattempts]
        armed_on := by simp [hphase]
        rearmed_iff := by simp [hstate', hfile]
        rearmed_on := by simp [hstate']
        missed := by simp [hstate, hstate']
        fired_iff := by simp [hhandled, hfile] }
  | some file =>
    have hfound : (w.retry delays path s attempt wait) =
        (true, { w with phase := .armed file [] }) := by
      simp [retry, hwatchable, hfile]
    have hstate' : ({ w with phase := .armed file [] } : Watch).state = .watching := rfl
    rw [hfound]
    exact
      { precedes := by simp [hstate, hstate', WatchState.Precedes]
        lost_iff := by simp [hstate]
        ended_iff := by simp [hstate, hstate', hattempts]
        armed_on := by simp [hphase]
        rearmed_iff := by simp [hstate', hattempts, hfile]
        rearmed_on := by simp [hfile]
        missed := by simp [hfile]
        fired_iff := by simp [hattempts, hfile] }

/-! ## All touches -/

/-- A watch that gets to handle a signal was not asked to stop. -/
theorem cancelled_of_handled? {x : FileId × Signal} (h : w.handled? t = some x) :
    w.cancelled = false := by
  cases t with
  | turn eager =>
    simp only [handled?] at h
    split at h
    · split at h
      · cases h
      · next hcancelled => simpa using hcancelled
    · cases h
  | _ => cases h

/-- Every touch abides by the laws, where the operating system accepts watches. -/
theorem abides_touch (w : Watch) (delays : RearmDelays) (path : String) (t : Touch)
    (haccepts : s.refusesWatches = false) :
    Abides path s w t (w.touch delays path s t).1 (w.touch delays path s t).2 := by
  cases way_touch w delays path s t with
  | handles file signal rest hphase hhandled hattempts heq =>
    rw [heq]
    exact abides_handle hphase hhandled hattempts (cancelled_of_handled? hhandled)
  | attempts attempt due wait hphase hhandled hattempts heq =>
    rw [heq]
    exact abides_retry haccepts hphase hhandled hattempts
  | ends hhandled hattempts hcancelled hturn heq =>
    have hended : (⟨.ended, true⟩ : Watch).state = .stopped := rfl
    rw [heq]
    exact
      { precedes := by cases w.state <;> simp [hended, WatchState.Precedes]
        lost_iff := by simp [hended, hhandled]
        ended_iff := by simp [hended, hcancelled, hturn, hattempts]
        armed_on := by simp [hended]
        rearmed_iff := by simp [hended, hattempts]
        rearmed_on := by simp [hended]
        missed := by simp [hattempts]
        fired_iff := by simp [hhandled, hattempts] }
  | stays hhandled hattempts hturn hfired hcancelled hgoes =>
    have hstate := hgoes.state_eq
    exact
      { precedes := by rw [hstate]; cases w.state <;> simp [WatchState.Precedes]
        lost_iff := by intro h; simp [hstate, hhandled, h]
        ended_iff := by
          rw [hstate]
          refine ⟨.inl, fun h => h.elim id ?_⟩
          rintro ⟨hcancelled, ⟨eager, heager⟩, -⟩
          by_contra hne
          exact hturn hne hcancelled eager heager
        armed_on := fun file queue hphase _ =>
          (hgoes.exists_armed hphase).elim fun more hmore => ⟨_, hmore⟩
        rearmed_iff := by intro k h; simp [hstate, hattempts, h]
        rearmed_on := by intro k h; simp [hstate, h]
        missed := by simp [hattempts]
        fired_iff := by simp [hfired, hhandled, hattempts] }

end Watch

end DenialMonitor
