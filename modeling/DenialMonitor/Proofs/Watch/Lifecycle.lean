import DenialMonitor.Proofs.Watch.Watching

set_option autoImplicit false

/-!
# The life of a watch

A watch that is followed through a run abides by its laws at every action. So its firings can be
counted: there is one for each notice of a change that it handles, and one each time it is armed
again. A notice that it has heard cannot be lost without a firing, for what loses the file of a watch
makes it fire as well — unless the operating system gives the watch up, which is no notice, or the
owner asks the watch to stop. A watch that was asked to stop never fires again, unless its wait was
over already.

## Main definitions

* `Watching.Follows` — a watch can be followed by its number and its path.
* `Watching.count` — how many actions of a run have a property.
* `Watching.fires`, `Watching.handles`, `Watching.rearms` — what a watch does in an action.
* `Watching.IdlePasses` — time passes only while a watch has nothing to do.

## Main results

* `Watching.Follows.abides` — a watch abides by its laws at every action.
* `Watching.Follows.count_fires` — its firings.
* `Watching.Follows.fires_or_holds` — what becomes of a notice that was heard.
* `Watching.Follows.count_fires_of_stop` — nothing becomes of a watch that was asked to stop.
* `Watching.watch_abides_by_its_laws` — the life of every watch.
* `Watching.given_up_watch_is_opened_again` — a watch is lost without a notice.
-/

namespace DenialMonitor

namespace Watch

/-- A signal waits to be handled. -/
def Holds (signal : Signal) (w : Watch) : Prop :=
  ∃ file queue, w.phase = .armed file queue ∧ signal ∈ queue

variable {w : Watch} {delays : RearmDelays} {path : String} {s : Surroundings} {t : Touch}

/-- A watch that was asked to stop stays so. -/
theorem cancelled_touch (h : w.cancelled = true) (delays : RearmDelays) (path : String)
    (s : Surroundings) (t : Touch) : (w.touch delays path s t).2.cancelled = true := by
  cases t with
  | rest => exact h
  | hear signal => exact (w.cancelled_deliver signal).trans h
  | stop => rfl
  | turn eager => exact (w.cancelled_step ..).trans h

/-- A watch that handles a signal does not try to open its path. -/
theorem attempts_of_handled? {x : FileId × Signal} (now : Nat) (h : w.handled? t = some x) :
    w.attempts now t = false := by
  cases t with
  | turn eager =>
    simp only [handled?, attempts] at h ⊢
    cases hphase : w.phase <;> simp [hphase] at h ⊢
  | _ => rfl

/-- A signal that was heard waits to be handled. -/
theorem holds_deliver (h : w.listens) (signal : Signal) : (w.deliver signal).Holds signal := by
  cases hphase : w.phase with
  | armed file queue => exact ⟨file, queue ++ [signal], by simp [deliver, hphase, h], by simp⟩
  | _ => simp [listens, hphase] at h

/-- What becomes of a notice of a change in a touch: the watch fires, or was asked to stop, or the
notice waits, or the watch finds that it was given up and is to be opened again. -/
theorem Holds.touch {signal : Signal} (h : w.Holds signal) (hchange : signal.isChange)
    (delays : RearmDelays) (path : String) (s : Surroundings) (t : Touch) :
    (w.touch delays path s t).1 = true ∨ (w.touch delays path s t).2.cancelled = true ∨
      (w.touch delays path s t).2.Holds signal ∨
      (∃ file, w.handled? t = some (file, .closed)) ∧
        ∃ k, (w.touch delays path s t).2.state = .reopening k := by
  obtain ⟨file, queue, hphase, hmem⟩ := h
  cases way_touch w delays path s t with
  | handles file' signal' rest hphase' hhandled hattempts heq =>
    obtain ⟨rfl, rfl⟩ : file' = file ∧ signal' :: rest = queue := by
      simpa [hphase] using hphase'.symm
    rw [heq, fst_handle]
    by_cases hfires : signal'.isChange
    · exact .inl hfires
    have hrest : signal ∈ rest := by
      rcases List.mem_cons.mp hmem with rfl | hrest
      · exact absurd hchange hfires
      · exact hrest
    cases signal' with
    | closed => exact .inr (.inr (.inr ⟨⟨file', hhandled⟩, 1, rfl⟩))
    | failure => exact .inr (.inr (.inl ⟨file', rest, rfl, hrest⟩))
    | notice n =>
      have hnothing : n.meaning = .nothing := by simpa [Signal.isChange] using hfires
      refine .inr (.inr (.inl ⟨file', rest, ?_, hrest⟩))
      simp [handle, hnothing]
  | attempts attempt due wait hphase' => simp [hphase] at hphase'
  | ends hhandled hattempts hcancelled hturn heq =>
    rw [heq]
    exact .inr (.inl rfl)
  | stays hhandled hattempts hturn hfired hcancelled hgoes =>
    obtain ⟨more, hmore⟩ := hgoes.exists_armed hphase
    exact .inr (.inr (.inl ⟨file, _, hmore, List.mem_append_left _ hmem⟩))

/-- A watch that waits for an attempt fires, or was asked to stop, or waits. -/
theorem touch_of_reopening {k : Nat} (h : w.state = .reopening k)
    (haccepts : s.refusesWatches = false) (delays : RearmDelays) (path : String) (t : Touch) :
    (w.touch delays path s t).1 = true ∨ (w.touch delays path s t).2.cancelled = true ∨
      ∃ k', (w.touch delays path s t).2.state = .reopening k' := by
  have habides := w.abides_touch delays path t haccepts
  have hprecedes := habides.precedes
  rw [h] at hprecedes
  rcases hprecedes with hstate | hstate | hstate | hstate
  · exact .inr (.inr ⟨_, hstate⟩)
  · exact .inr (.inr ⟨_, hstate⟩)
  · exact .inl (habides.fired_iff.mpr (.inr ((habides.rearmed_iff k h).mp hstate)))
  · rcases habides.ended_iff.mp hstate with hended | ⟨hcancelled, -⟩
    · simp [h] at hended
    · exact .inr (.inl (cancelled_touch hcancelled ..))

/-- A watch has ended, or it was asked to stop before its wait was over. -/
def IsOver (now : Nat) (w : Watch) : Prop :=
  w.phase = .ended ∨ w.cancelled = true ∧ ∀ due ∈ w.due?, now < due

/-- Such a watch does not fire, and it stays over as long as no time passes. -/
theorem IsOver.touch (h : w.IsOver s.now) (delays : RearmDelays) (path : String) (t : Touch) :
    (w.touch delays path s t).1 = false ∧ (w.touch delays path s t).2.IsOver s.now := by
  cases way_touch w delays path s t with
  | handles file signal rest hphase hhandled hattempts heq =>
    have hcancelled := cancelled_of_handled? hhandled
    rcases h with hended | ⟨hstopped, -⟩
    · simp [hphase] at hended
    · simp [hcancelled] at hstopped
  | attempts attempt due wait hphase hhandled hattempts heq =>
    rcases h with hended | ⟨-, hdue⟩
    · simp [hphase] at hended
    · have hnot := hdue due (by simp [due?, hphase])
      cases t with
      | turn eager =>
        simp only [Watch.attempts, hphase, Bool.and_eq_true, decide_eq_true_eq] at hattempts
        omega
      | _ => simp [Watch.attempts] at hattempts
  | ends hhandled hattempts hcancelled hturn heq =>
    rw [heq]
    exact ⟨rfl, .inl rfl⟩
  | stays hhandled hattempts hturn hfired hcancelled hgoes =>
    refine ⟨hfired, ?_⟩
    rcases h with hended | ⟨hstopped, hdue⟩
    · refine .inl ?_
      rcases hgoes with heq | ⟨file, queue, more, hphase, -⟩
      · exact heq.trans hended
      · simp [hended] at hphase
    · refine .inr ⟨hcancelled hstopped, ?_⟩
      rcases hgoes with heq | ⟨file, queue, more, hphase, hphase'⟩
      · simpa [due?, heq] using hdue
      · simp [due?, hphase']

/-- A watch that is over has nothing to do only if it has ended. -/
theorem IsOver.ended_of_not_isReady {now : Nat} (h : w.IsOver now) (hready : w.isReady now = false) :
    w.phase = .ended := by
  rcases h with hended | ⟨hcancelled, -⟩
  · exact hended
  · cases hphase : w.phase with
    | ended => rfl
    | _ => simp [isReady, hphase, hcancelled] at hready

end Watch

namespace Watching

/-- How many actions of a run have a property. -/
def count (p : Watching → Action → Bool) : Watching → List Action → Nat
  | _, [] => 0
  | w, a :: actions => (p w a).toNat + count p (w.act a) actions

/-- Whether watch number `n` fires. -/
def fires (n : Nat) (w : Watching) (a : Action) : Bool :=
  w.fired? a = some n

/-- Whether watch number `n` handles a signal of a kind. -/
def handles (n : Nat) (kind : Signal → Bool) (w : Watching) (a : Action) : Bool :=
  ((w.watchOf n).handled? (w.touchOf n a)).any fun x => kind x.2

/-- Whether watch number `n` on `path` is armed again. -/
def rearms (n : Nat) (path : String) (w : Watching) (a : Action) : Bool :=
  (w.watchOf n).attempts w.around.now (w.touchOf n a) && (w.around.file? path).isSome

/-- Time passes only while watch number `n` has nothing to do. -/
def IdlePasses (n : Nat) : Watching → List Action → Prop
  | _, [] => True
  | w, a :: actions =>
    ((∃ span, a = .pass span) → (w.watchOf n).isReady w.around.now = false) ∧
      IdlePasses n (w.act a) actions

/-- Watch number `n` on `path` can be followed, where the operating system accepts watches. -/
structure Follows (w : Watching) (n : Nat) (path : String) : Prop where
  sound : w.Sound
  lt_asked : n < w.asked
  isOn : w.IsOn n path
  accepts : w.around.refusesWatches = false

variable {w : Watching} {n : Nat} {path : String}

theorem count_cons_pos {p : Watching → Action → Bool} {a : Action} {actions : List Action}
    (h : p w a = true ∨ 0 < count p (w.act a) actions) : 0 < count p w (a :: actions) := by
  simp only [count]
  rcases h with h | h
  · rw [h, Bool.toNat_true]
    omega
  · omega

theorem refusesWatches_act (w : Watching) (a : Action) :
    (w.act a).around.refusesWatches = w.around.refusesWatches := by
  cases a <;> rfl

namespace Follows

theorem act (h : w.Follows n path) (a : Action) : (w.act a).Follows n path :=
  ⟨h.sound.act a, Nat.lt_of_lt_of_le h.lt_asked (w.asked_le_act a), h.isOn.act h.lt_asked a,
    (w.refusesWatches_act a).trans h.accepts⟩

theorem actAll (h : w.Follows n path) (actions : List Action) :
    (w.actAll actions).Follows n path := by
  induction actions generalizing w with
  | nil => exact h
  | cons a actions ih => exact ih (h.act a)

/-- What an action does to the watch, and whether it fires. -/
theorem touch_eq (h : w.Follows n path) (a : Action) :
    (w.watchOf n).touch w.watcher.delays path w.around (w.touchOf n a) =
      (fires n w a, (w.act a).watchOf n) := by
  obtain ⟨hwatch, hfired⟩ := h.sound.touches h.lt_asked h.isOn a
  refine Prod.ext ?_ hwatch.symm
  rw [Bool.eq_iff_iff, ← hfired, fires, decide_eq_true_iff]

/-- The watch abides by its laws at every action. -/
theorem abides (h : w.Follows n path) (a : Action) :
    (w.watchOf n).Abides path w.around (w.touchOf n a) (fires n w a) ((w.act a).watchOf n) := by
  have htouch := (w.watchOf n).abides_touch w.watcher.delays path (w.touchOf n a) h.accepts
  rw [h.touch_eq a] at htouch
  exact htouch

/-- A watch that was asked to stop stays so. -/
theorem cancelled_actAll (h : w.Follows n path) (hcancelled : (w.watchOf n).cancelled = true)
    (actions : List Action) : ((w.actAll actions).watchOf n).cancelled = true := by
  induction actions generalizing w with
  | nil => exact hcancelled
  | cons a actions ih =>
    refine ih (h.act a) ?_
    have htouch :=
      Watch.cancelled_touch hcancelled w.watcher.delays path w.around (w.touchOf n a)
    rw [h.touch_eq a] at htouch
    exact htouch

/-- There is one firing for each notice of a change that is handled, and one each time the watch is
armed again. -/
theorem count_fires (h : w.Follows n path) (actions : List Action) :
    count (fires n) w actions =
      count (handles n Signal.isChange) w actions + count (rearms n path) w actions := by
  induction actions generalizing w with
  | nil => rfl
  | cons a actions ih =>
    have hone : (fires n w a).toNat =
        (handles n Signal.isChange w a).toNat + (rearms n path w a).toNat := by
      have hfired := (h.abides a).fired_iff
      cases hhandled : (w.watchOf n).handled? (w.touchOf n a) with
      | some x =>
        have hattempts := Watch.attempts_of_handled? w.around.now hhandled
        simp only [hhandled, hattempts, Option.some.injEq, Bool.false_eq_true, false_and,
          or_false] at hfired
        have heq : fires n w a = x.2.isChange := by
          rw [Bool.eq_iff_iff, hfired]
          constructor
          · rintro ⟨file, signal, rfl, hchange⟩
            exact hchange
          · exact fun hchange => ⟨x.1, x.2, rfl, hchange⟩
        simp [heq, handles, rearms, hhandled, hattempts]
      | none =>
        have heq : fires n w a = rearms n path w a := by
          rw [Bool.eq_iff_iff, hfired]
          simp [hhandled, rearms]
        simp [heq, handles, hhandled]
    simp only [count, ih (h.act a), hone]
    omega

/-- A watch that waits for an attempt goes on waiting until it fires or is asked to stop. -/
theorem fires_or_reopening (h : w.Follows n path) {k : Nat} (hstate : w.stateOf n = .reopening k)
    (actions : List Action) :
    0 < count (fires n) w actions ∨ ((w.actAll actions).watchOf n).cancelled = true ∨
      ∃ k', (w.actAll actions).stateOf n = .reopening k' := by
  induction actions generalizing w k with
  | nil => exact .inr (.inr ⟨k, hstate⟩)
  | cons a actions ih =>
    have htouch :=
      Watch.touch_of_reopening hstate h.accepts w.watcher.delays path (w.touchOf n a)
    rw [h.touch_eq a] at htouch
    rcases htouch with hfires | hcancelled | ⟨k', hstate'⟩
    · exact .inl (count_cons_pos (.inl hfires))
    · exact .inr (.inl ((h.act a).cancelled_actAll hcancelled actions))
    · exact (ih (h.act a) hstate').imp_left fun hcount => count_cons_pos (.inr hcount)

/-- A notice of a change that waits to be handled makes the watch fire, unless the watch is asked to
stop or finds that it was given up. As long as it has not fired then, the notice waits, or the watch
waits for an attempt. -/
theorem fires_or_holds (h : w.Follows n path) {signal : Signal} (hchange : signal.isChange)
    (hholds : (w.watchOf n).Holds signal) (actions : List Action) :
    0 < count (fires n) w actions ∨ ((w.actAll actions).watchOf n).cancelled = true ∨
      ((w.actAll actions).watchOf n).Holds signal ∨
      0 < count (handles n (· = .closed)) w actions ∧
        ∃ k, (w.actAll actions).stateOf n = .reopening k := by
  induction actions generalizing w with
  | nil => exact .inr (.inr (.inl hholds))
  | cons a actions ih =>
    have htouch := hholds.touch hchange w.watcher.delays path w.around (w.touchOf n a)
    rw [h.touch_eq a] at htouch
    rcases htouch with hfires | hcancelled | hholds' | ⟨⟨file, hclosed⟩, k, hstate⟩
    · exact .inl (count_cons_pos (.inl hfires))
    · exact .inr (.inl ((h.act a).cancelled_actAll hcancelled actions))
    · rcases ih (h.act a) hholds' with hcount | hcancelled | hholds | ⟨hcount, hstate⟩
      · exact .inl (count_cons_pos (.inr hcount))
      · exact .inr (.inl hcancelled)
      · exact .inr (.inr (.inl hholds))
      · exact .inr (.inr (.inr ⟨count_cons_pos (.inr hcount), hstate⟩))
    · rcases (h.act a).fires_or_reopening hstate actions with hcount | hcancelled | hstate'
      · exact .inl (count_cons_pos (.inr hcount))
      · exact .inr (.inl hcancelled)
      · have hgiven : handles n (· = .closed) w a = true := by simp [handles, hclosed]
        exact .inr (.inr (.inr ⟨count_cons_pos (.inl hgiven), hstate'⟩))

/-- A watch that is over does not fire any more, as long as time passes only while it has nothing to
do. -/
theorem count_fires_of_isOver (h : w.Follows n path) (hover : (w.watchOf n).IsOver w.around.now)
    {actions : List Action} (hpasses : IdlePasses n w actions) : count (fires n) w actions = 0 := by
  induction actions generalizing w with
  | nil => rfl
  | cons a actions ih =>
    obtain ⟨hidle, hpasses⟩ := hpasses
    have htouch := hover.touch w.watcher.delays path (w.touchOf n a)
    rw [h.touch_eq a] at htouch
    obtain ⟨hsilent, hover'⟩ : fires n w a = false ∧
      ((w.act a).watchOf n).IsOver w.around.now := htouch
    have hlater : ((w.act a).watchOf n).IsOver (w.act a).around.now := by
      cases a with
      | pass span =>
        -- no time passes before the watch has ended
        exact .inl (hover.ended_of_not_isReady (hidle ⟨span, rfl⟩))
      | _ => exact hover'
    rw [count, hsilent, ih (h.act a) hlater hpasses]
    rfl

/-- A watch that is asked to stop before its wait is over does not fire any more. -/
theorem count_fires_of_stop (h : w.Follows n path) {a : Action} (hstop : w.touchOf n a = .stop)
    (hdue : ∀ due ∈ (w.watchOf n).due?, w.around.now < due) {after : List Action}
    (hpasses : IdlePasses n (w.act a) after) : count (fires n) (w.act a) after = 0 := by
  have htouch := h.touch_eq a
  rw [hstop] at htouch
  have hwatch : (w.act a).watchOf n = (w.watchOf n).cancel := (congrArg Prod.snd htouch).symm
  have hnow : (w.act a).around.now = w.around.now := by
    cases a with
    | pass span =>
      simp only [touchOf] at hstop
      split at hstop <;> cases hstop
    | _ => rfl
  refine (h.act a).count_fires_of_isOver (.inr ?_) hpasses
  rw [hwatch, hnow]
  exact ⟨rfl, hdue⟩

/-- A signal that an armed watch hears waits to be handled. -/
theorem holds_of_hear (h : w.Follows n path) {p : String} {signal : Signal}
    (hhears : w.touchOf n (.signal p signal) = .hear signal) :
    ((w.act (.signal p signal)).watchOf n).Holds signal := by
  have htouch := h.touch_eq (.signal p signal)
  rw [hhears] at htouch
  have hwatch : (w.act (.signal p signal)).watchOf n = (w.watchOf n).deliver signal :=
    (congrArg Prod.snd htouch).symm
  rw [hwatch]
  refine Watch.holds_deliver ?_ signal
  simp only [touchOf] at hhears
  split at hhears
  · cases hhears
  · next e he =>
    rw [watchOf_of_entryOf? he]
    split at hhears
    · next hheard =>
      simp only [Watcher.hears, Watcher.isArmedOn, Bool.or_eq_true, Bool.and_eq_true] at hheard
      rcases hheard with ⟨-, hlistens⟩ | ⟨-, -, hlistens⟩ <;> exact hlistens
    · cases hhears

end Follows

/-! ## New watches -/

theorem sound_start (delays : RearmDelays) (around : Surroundings) : (start delays around).Sound :=
  ⟨by simp [start, Watcher.new], by simp [start, Watcher.new], by simp [start, Watcher.new]⟩

theorem Sound.actAll (h : w.Sound) (actions : List Action) : (w.actAll actions).Sound := by
  induction actions generalizing w with
  | nil => exact h
  | cons a actions ih => exact ih (h.act a)

theorem refusesWatches_actAll (w : Watching) (actions : List Action) :
    (w.actAll actions).around.refusesWatches = w.around.refusesWatches := by
  induction actions generalizing w with
  | nil => rfl
  | cons a actions ih => exact (ih (w.act a)).trans (w.refusesWatches_act a)

/-- A path that names a file can be watched; the new watch is armed on the file, and can be
followed. -/
theorem Sound.watch (h : w.Sound) (haccepts : w.around.refusesWatches = false) {file : FileId}
    (hfile : w.around.file? path = some file) :
    (w.watcher.watch path w.asked w.around).1 = true ∧
      (w.act (.watch path)).watchOf w.asked = .arm file ∧
      (w.act (.watch path)).Follows w.asked path := by
  have hwatchable : w.around.watchable? path = some file := by
    simp [Surroundings.watchable?, haccepts, hfile]
  have hentries : (w.act (.watch path)).watcher.entries =
      (w.watcher.stop path).2.entries ++ [⟨path, w.asked, .arm file⟩] := by
    simp [Watching.act, Watcher.watch, hwatchable]
  have hearlier : ∀ e ∈ (w.watcher.stop path).2.entries, e.tag < w.asked := by
    intro e' he'
    obtain ⟨e, he, rfl⟩ := List.mem_map.mp he'
    have hlt := h.tag_lt e he
    split <;> exact hlt
  refine ⟨by simp [Watcher.watch, hwatchable], ?_, h.act _, Nat.lt_succ_self _, ?_, haccepts⟩
  · have hnone : (w.watcher.stop path).2.entries.find? (·.tag = w.asked) = none := by
      rw [List.find?_eq_none]
      intro e he
      have hlt := hearlier e he
      simp only [decide_eq_true_eq]
      omega
    rw [watchOf, entryOf?, hentries, List.find?_append, hnone]
    simp
  · intro e he htag
    rw [hentries] at he
    rcases List.mem_append.mp he with he | he
    · have hlt := hearlier e he
      omega
    · rw [List.mem_singleton.mp he]

/-- **The life of every watch.** A path that names a file can be watched where the operating system
accepts watches, and the new watch is armed on that file. Whatever happens then, it abides by its laws
at every action, and it fires as often as it handles notices of changes and is armed again. A notice
of a change that it hears makes it fire, unless it is asked to stop or finds that it was given up: as
long as it has not fired then, the notice waits, or the watch waits for an attempt and fires when it
is armed again. It does not fire after it was asked to stop before its wait was over, as long as time
passes only while it has nothing to do.

**Proof sketch.** Every action is one touch of the watch, and what a touch comes to is known from the
watch alone. -/
theorem watch_abides_by_its_laws (delays : RearmDelays) (around : Surroundings)
    (haccepts : around.refusesWatches = false) (earlier : List Action) (path : String)
    (file : FileId) (hfile : ((start delays around).actAll earlier).around.file? path = some file) :
    let w := (start delays around).actAll earlier
    let n := w.asked
    let started := w.act (.watch path)
    (w.watcher.watch path n w.around).1 = true ∧ started.watchOf n = .arm file ∧
    ∀ actions,
      let m := started.actAll actions
      (∀ a, (m.watchOf n).Abides path m.around (m.touchOf n a) (fires n m a)
        ((m.act a).watchOf n)) ∧
      count (fires n) started actions =
        count (handles n Signal.isChange) started actions + count (rearms n path) started actions ∧
      (∀ p signal after, m.touchOf n (.signal p signal) = .hear signal → signal.isChange →
        let heard := m.act (.signal p signal)
        let later := heard.actAll after
        0 < count (fires n) heard after ∨ (later.watchOf n).cancelled = true ∨
          (later.watchOf n).Holds signal ∨
          0 < count (handles n (· = .closed)) heard after ∧ ∃ k, later.stateOf n = .reopening k) ∧
      ∀ a after, m.touchOf n a = .stop → (∀ due ∈ (m.watchOf n).due?, m.around.now < due) →
        IdlePasses n (m.act a) after → count (fires n) (m.act a) after = 0 := by
  intro w n started
  have hsound : w.Sound := (sound_start delays around).actAll earlier
  have haccepts' : w.around.refusesWatches = false :=
    (refusesWatches_actAll _ earlier).trans haccepts
  obtain ⟨hanswer, harmed, hstarted⟩ := hsound.watch haccepts' hfile
  refine ⟨hanswer, harmed, fun actions => ?_⟩
  intro m
  have hm : m.Follows n path := hstarted.actAll actions
  refine ⟨hm.abides, hstarted.count_fires actions, ?_, ?_⟩
  · intro p signal after hhears hchange
    exact (hm.act _).fires_or_holds hchange (hm.holds_of_hear hhears) after
  · intro a after hstop hdue hpasses
    exact hm.count_fires_of_stop hstop hdue hpasses

/-- Someone makes a directory with a file in it. -/
def policyWritten : List Action :=
  [.change (.makeDirs "/srv"), .change (.write "/srv/es_policy.json" [])]

/-- A watch on the file fires when it hears that the file was removed, and when the file has been
found again. -/
theorem removal_and_return_fire :
    let w := (start ⟨500, 8000⟩ ⟨Disk.empty, false, 0⟩).actAll policyWritten
    let actions : List Action :=
      [.signal "/srv/es_policy.json" (.notice .removed), .run 0 false, .pass 500, .run 0 false]
    w.around.file? "/srv/es_policy.json" = some ⟨2⟩ ∧
      count (fires 0) (w.act (.watch "/srv/es_policy.json")) actions = 2 := by
  intro w actions
  have hfile : w.around.file? "/srv/es_policy.json" = some ⟨2⟩ := by decide +kernel
  have hcount := ((watch_abides_by_its_laws ⟨500, 8000⟩ ⟨Disk.empty, false, 0⟩ rfl policyWritten
    "/srv/es_policy.json" ⟨2⟩ hfile).2.2 actions).2.1
  exact ⟨hfile, hcount.trans (by decide +kernel)⟩

/-- A watch is lost without a notice where the operating system gives it up, though its file is still
the one at the path. -/
theorem given_up_watch_is_opened_again :
    let w := (start ⟨500, 8000⟩ ⟨Disk.empty, false, 0⟩).actAll policyWritten
    let m := (w.act (.watch "/srv/es_policy.json")).act (.signal "/srv/es_policy.json" .closed)
    let a : Action := .run 0 false
    ¬ (m.stateOf 0 = .watching → ((m.act a).stateOf 0 = .reopening 1 ↔
      ∃ file n, (m.watchOf 0).handled? (m.touchOf 0 a) = some (file, .notice n) ∧
        (n = .removed ∨ n = .modified .name ∨
          n.meaning = .changed ∧ m.around.file? "/srv/es_policy.json" ≠ some file))) := by
  intro w m a h
  obtain ⟨file, n, hhandled, -⟩ := (h (by decide +kernel)).mp (by decide +kernel)
  have hclosed : (m.watchOf 0).handled? (m.touchOf 0 a) = some (⟨2⟩, .closed) := by decide +kernel
  rw [hclosed] at hhandled
  cases hhandled

end Watching

end DenialMonitor
