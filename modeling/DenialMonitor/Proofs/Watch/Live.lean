import DenialMonitor.Watch.Watcher
import Mathlib.Data.List.Nodup

set_option autoImplicit false

/-!
# Live watches

While nobody asks a watch to stop, it goes on for ever: a watcher only gains watches, and each of
them stays where it is. So the watch on a path can be followed through a run. It changes when it is
sent a signal and when it gets to run, and by nothing else.

## Main definitions

* `Watcher.Live` — every watch is on the path of its tag and goes on.

## Main results

* `Watcher.Live.deliver`, `Watcher.Live.run`, `Watcher.Live.watch` — operations keep watches live.
* `Watcher.find?_deliver`, `Watcher.find?_deliver_of_same`, `Watcher.Live.find?_run`,
  `Watcher.Live.find?_watch` — the watch on a path after an operation.
-/

namespace DenialMonitor

/-- Where an element of a list is replaced by one with the same answer, the first element with the
answer `true` is the one it was, unless that is the one which is replaced. Elements are told apart by
`f`. -/
theorem find?_set_of_nodup {α β : Type} {f : α → β} {p : α → Bool} {l : List α} {i : Nat}
    {a b x : α} (hnodup : (l.map f).Nodup) (hi : l[i]? = some a) (hb : p b = p a)
    (hx : l.find? p = some x) :
    (f a = f x → (l.set i b).find? p = some b) ∧ (f a ≠ f x → (l.set i b).find? p = some x) := by
  induction l generalizing i with
  | nil => simp at hi
  | cons y ys ih =>
    rw [List.map_cons, List.nodup_cons] at hnodup
    obtain ⟨hy, hnodup⟩ := hnodup
    have hnew {z : α} (hz : z ∈ ys) : f z ≠ f y := fun heq =>
      hy (heq ▸ List.mem_map.mpr ⟨z, hz, rfl⟩)
    cases i with
    | zero =>
      obtain rfl : y = a := by simpa using hi
      rw [List.set_cons_zero, List.find?_cons, hb]
      cases hpy : p y with
      | true =>
        obtain rfl : y = x := by simpa [hpy] using hx
        simp
      | false =>
        have hrest : ys.find? p = some x := by simpa [hpy] using hx
        exact ⟨fun heq => absurd heq.symm (hnew (List.mem_of_find?_eq_some hrest)), fun _ => hrest⟩
    | succ i =>
      have hi' : ys[i]? = some a := by simpa using hi
      rw [List.set_cons_succ, List.find?_cons]
      cases hpy : p y with
      | true =>
        obtain rfl : y = x := by simpa [hpy] using hx
        exact ⟨fun heq => absurd heq (hnew (List.mem_of_getElem? hi')), fun _ => rfl⟩
      | false => exact ih hnodup hi' (by simpa [hpy] using hx)

namespace Watch

variable {w : Watch}

/-! ## One watch -/

@[simp]
theorem cancelled_deliver (w : Watch) (s : Signal) : (w.deliver s).cancelled = w.cancelled := by
  unfold deliver
  split
  · split <;> rfl
  · rfl

theorem hasEnded_deliver (w : Watch) (s : Signal) : (w.deliver s).hasEnded = w.hasEnded := by
  unfold deliver hasEnded
  split
  · next hphase => split <;> simp [hphase]
  · rfl

/-- A watch that is seen to be opened again waits for its next attempt. -/
theorem exists_waiting_of_reopening {attempt : Nat} (h : w.state = .reopening attempt) :
    ∃ due wait, w.phase = .waiting attempt due wait := by
  cases hphase : w.phase with
  | waiting n due wait =>
    obtain rfl : n = attempt := by simpa [state, hphase] using h
    exact ⟨due, wait, rfl⟩
  | _ => simp [state, hphase] at h

/-- A watch that does not listen is not changed by a signal. -/
theorem deliver_of_not_listens (h : ¬ w.listens) (s : Signal) : w.deliver s = w := by
  unfold deliver
  split
  · simp [h]
  · rfl

/-- A watch that handles a signal gets a new phase, and it does not end. -/
theorem exists_handle_eq (w : Watch) (delays : RearmDelays) (path : String) (s : Surroundings)
    (file : FileId) (signal : Signal) (rest : List Signal) :
    ∃ phase, (w.handle delays path s file signal rest).2 = { w with phase } ∧ phase ≠ .ended := by
  unfold handle
  cases signal with
  | failure => exact ⟨_, rfl, by simp⟩
  | closed => exact ⟨_, rfl, by simp⟩
  | notice n =>
    simp only
    cases n.meaning with
    | nothing => exact ⟨_, rfl, by simp⟩
    | invalidated => exact ⟨_, rfl, by simp⟩
    | changed =>
      simp only
      split <;> exact ⟨_, rfl, by simp⟩

/-- So does one that tries to open its path again. -/
theorem exists_retry_eq (w : Watch) (delays : RearmDelays) (path : String) (s : Surroundings)
    (attempt wait : Nat) :
    ∃ phase, (w.retry delays path s attempt wait).2 = { w with phase } ∧ phase ≠ .ended := by
  unfold retry
  split <;> exact ⟨_, rfl, by simp⟩

/-- A watch that gets to run gets a new phase. It does not end unless it was asked to stop. -/
theorem exists_step_eq (w : Watch) (delays : RearmDelays) (path : String) (s : Surroundings)
    (eager : Bool) :
    ∃ phase, (w.step delays path s eager).2 = { w with phase } ∧
      (w.cancelled = false → w.hasEnded = false → phase ≠ .ended) := by
  unfold step
  split
  · next hphase => exact ⟨w.phase, rfl, by simp [hasEnded, hphase]⟩
  · next hphase =>
    split
    · next hcancelled => exact ⟨.ended, rfl, by simp [hcancelled]⟩
    · split
      · exact ⟨w.phase, rfl, by simp [hphase]⟩
      · obtain ⟨phase, heq, hne⟩ := w.exists_handle_eq delays path s _ _ _
        exact ⟨phase, heq, fun _ _ => hne⟩
  · next hphase =>
    split
    · obtain ⟨phase, heq, hne⟩ := w.exists_retry_eq delays path s _ _
      exact ⟨phase, heq, fun _ _ => hne⟩
    · split
      · next hcancelled => exact ⟨.ended, rfl, by simp [hcancelled]⟩
      · exact ⟨w.phase, rfl, by simp [hphase]⟩

@[simp]
theorem cancelled_step (w : Watch) (delays : RearmDelays) (path : String) (s : Surroundings)
    (eager : Bool) : (w.step delays path s eager).2.cancelled = w.cancelled := by
  obtain ⟨phase, heq, -⟩ := w.exists_step_eq delays path s eager
  rw [heq]

/-- A watch that was not asked to stop does not end. -/
theorem hasEnded_step (hcancelled : w.cancelled = false) (hended : w.hasEnded = false)
    (delays : RearmDelays) (path : String) (s : Surroundings) (eager : Bool) :
    (w.step delays path s eager).2.hasEnded = false := by
  obtain ⟨phase, heq, hne⟩ := w.exists_step_eq delays path s eager
  rw [heq]
  simpa [hasEnded] using hne hcancelled hended

end Watch

namespace Watcher

variable {τ : Type} {w : Watcher τ} {p path : String} {x : Watch}

/-- The entry behind the live watch on a path. -/
theorem exists_of_find? (h : w.find? p = some x) :
    ∃ e, w.entries.find? (isLive p) = some e ∧ e.watch = x :=
  Option.map_eq_some_iff.mp h

/-- Every watch is on the path of its tag, no two of them have the same tag, and none of them was
asked to stop or has ended. -/
structure Live (w : Watcher τ) (pathOf : τ → String) : Prop where
  path_eq : ∀ e ∈ w.entries, e.path = pathOf e.tag
  nodup : (w.entries.map (·.tag)).Nodup
  not_cancelled : ∀ e ∈ w.entries, e.watch.cancelled = false
  not_ended : ∀ e ∈ w.entries, e.watch.hasEnded = false

variable {pathOf : τ → String}

/-! ## Signals -/

theorem Live.deliver (h : w.Live pathOf) (path : String) (s : Signal) :
    (w.deliver path s).2.Live pathOf := by
  have hentry : ∀ e' ∈ (w.deliver path s).2.entries, ∃ e ∈ w.entries,
      e' = e ∨ e' = { e with watch := e.watch.deliver s } := by
    intro e' he'
    obtain ⟨e, he, rfl⟩ := List.mem_map.mp he'
    refine ⟨e, he, ?_⟩
    split
    · exact .inr rfl
    · exact .inl rfl
  have htags : (w.deliver path s).2.entries.map (·.tag) = w.entries.map (·.tag) := by
    simp only [Watcher.deliver, List.map_map]
    refine List.map_congr_left fun e _ => ?_
    simp only [Function.comp_apply]
    split <;> rfl
  refine ⟨fun e' he' => ?_, htags ▸ h.nodup, fun e' he' => ?_, fun e' he' => ?_⟩ <;>
    obtain ⟨e, he, rfl | rfl⟩ := hentry e' he'
  · exact h.path_eq e' he
  · exact h.path_eq e he
  · exact h.not_cancelled e' he
  · exact (Watch.cancelled_deliver e.watch s).trans (h.not_cancelled e he)
  · exact h.not_ended e' he
  · exact (Watch.hasEnded_deliver e.watch s).trans (h.not_ended e he)

/-- The live entry of a path stays the live one where a signal is sent. -/
theorem find?_entries_deliver (w : Watcher τ) (path : String) (s : Signal) (p : String) :
    (w.deliver path s).2.entries.find? (isLive p) = (w.entries.find? (isLive p)).map fun e =>
      if hears path s e then { e with watch := e.watch.deliver s } else e := by
  simp only [Watcher.deliver, List.find?_map]
  congr 2
  funext e
  simp only [Function.comp_apply, isLive]
  split <;> simp

/-- Where a signal is sent, the watch on a path hears it or stays as it is. That a watch is given up
is heard only on its own path. -/
theorem find?_deliver (h : w.find? p = some x) (path : String) (s : Signal) :
    (w.deliver path s).2.find? p = some x ∨
      (s = .closed → Path.same path p) ∧ (w.deliver path s).2.find? p = some (x.deliver s) := by
  obtain ⟨e, he, rfl⟩ := exists_of_find? h
  simp only [find?, find?_entries_deliver, he, Option.map_some]
  split
  · next hhears =>
    right
    refine ⟨?_, rfl⟩
    rintro rfl
    have hlive : isLive p e = true := List.find?_some he
    simp only [isLive, hears, isArmedOn, ne_eq, not_true_eq_false, decide_false, Bool.false_and,
      Bool.or_false, Bool.and_eq_true, Path.same, decide_eq_true_eq] at hlive hhears ⊢
    rw [← hhears.1, hlive.1]
  · exact .inl rfl

/-- The watch on a path hears a signal about the path, as long as it listens. -/
theorem find?_deliver_of_same (h : w.find? p = some x) (hsame : Path.same path p) (s : Signal) :
    (w.deliver path s).2.find? p = some (x.deliver s) := by
  obtain ⟨e, he, rfl⟩ := exists_of_find? h
  simp only [find?, find?_entries_deliver, he, Option.map_some]
  split
  · rfl
  · next hdeaf =>
    have hlive : isLive p e = true := List.find?_some he
    have hpath : Path.same e.path path = true := by
      simp only [isLive, Bool.and_eq_true, Path.same, decide_eq_true_eq] at hlive hsame ⊢
      rw [hlive.1, hsame]
    have hnot : ¬ e.watch.listens := by
      intro hlistens
      simp [hears, isArmedOn, hpath, hlistens] at hdeaf
    rw [Watch.deliver_of_not_listens hnot]

/-! ## Runs of a watch -/

/-- No watch is forgotten when a live one gets to run. -/
theorem Live.entries_run (h : w.Live pathOf) {i : Nat} {e : WatchEntry τ}
    (hi : w.entries[i]? = some e) (s : Surroundings) (eager : Bool) :
    (w.run s i eager).2.entries =
      w.entries.set i { e with watch := (e.watch.step w.delays e.path s eager).2 } := by
  simp only [Watcher.run, hi]
  rw [List.filter_eq_self]
  have hmem := List.mem_of_getElem? hi
  intro e' he'
  rcases List.mem_or_eq_of_mem_set he' with he' | rfl
  · simp [h.not_ended e' he']
  · simp [Watch.hasEnded_step (h.not_cancelled e hmem) (h.not_ended e hmem)]

/-- A watch that gets to run keeps its tag. -/
theorem map_tag_set {i : Nat} {e : WatchEntry τ} (hi : w.entries[i]? = some e) (watch : Watch) :
    (w.entries.set i { e with watch }).map (·.tag) = w.entries.map (·.tag) := by
  apply List.ext_getElem?
  intro j
  rw [List.getElem?_map, List.getElem?_map, List.getElem?_set]
  split
  · next hij =>
    obtain ⟨hlt, -⟩ := List.getElem?_eq_some_iff.mp hi
    rw [if_pos hlt, ← hij, hi]
    rfl
  · rfl

theorem Live.run (h : w.Live pathOf) (s : Surroundings) (i : Nat) (eager : Bool) :
    (w.run s i eager).2.Live pathOf := by
  cases hi : w.entries[i]? with
  | none => simpa [Watcher.run, hi] using h
  | some e =>
    have hmem := List.mem_of_getElem? hi
    have hentries := h.entries_run hi s eager
    refine ⟨fun e' he' => ?_, ?_, fun e' he' => ?_, fun e' he' => ?_⟩
    case refine_2 =>
      rw [hentries, map_tag_set hi]
      exact h.nodup
    all_goals
      rw [hentries] at he'
      rcases List.mem_or_eq_of_mem_set he' with he' | rfl
    · exact h.path_eq e' he'
    · exact h.path_eq e hmem
    · exact h.not_cancelled e' he'
    · exact (Watch.cancelled_step ..).trans (h.not_cancelled e hmem)
    · exact h.not_ended e' he'
    · exact Watch.hasEnded_step (h.not_cancelled e hmem) (h.not_ended e hmem) ..

/-- Where one of the watches gets to run, it is the one on a given path, or the one on the path
stays as it is and its tag is not that of the watch that runs. -/
theorem Live.find?_run (h : w.Live pathOf) (hx : w.find? p = some x) (s : Surroundings) (i : Nat)
    (eager : Bool) :
    ∃ e ∈ w.entries, isLive p e ∧
      ((w.run s i eager).2.find? p = some x ∧ (w.run s i eager).1 ≠ some e.tag ∨
        (w.run s i eager).2.find? p = some (x.step w.delays e.path s eager).2 ∧
        (w.run s i eager).1 = if (x.step w.delays e.path s eager).1 then some e.tag else none) := by
  obtain ⟨e₀, he₀, rfl⟩ := exists_of_find? hx
  have hmem₀ := List.mem_of_find?_eq_some he₀
  refine ⟨e₀, hmem₀, List.find?_some he₀, ?_⟩
  cases hi : w.entries[i]? with
  | none => exact .inl ⟨by simpa [Watcher.run, hi] using hx, by simp [Watcher.run, hi]⟩
  | some e =>
    have hfired : (w.run s i eager).1 =
        if (e.watch.step w.delays e.path s eager).1 then some e.tag else none := by
      simp [Watcher.run, hi]
    have hpred : isLive p { e with watch := (e.watch.step w.delays e.path s eager).2 } = isLive p e := by
      simp [isLive]
    simp only [find?, h.entries_run hi s eager, hfired]
    obtain ⟨hruns, hrests⟩ := find?_set_of_nodup h.nodup hi hpred he₀
    by_cases htag : e.tag = e₀.tag
    · right
      obtain rfl : e = e₀ :=
        List.inj_on_of_nodup_map h.nodup (List.mem_of_getElem? hi) hmem₀ htag
      exact ⟨by rw [hruns rfl, Option.map_some], rfl⟩
    · left
      refine ⟨by rw [hrests htag, Option.map_some], ?_⟩
      split <;> simp [htag]

/-- Where no watch has anything to do, neither has the one on a path. -/
theorem not_isReady_of_ready?_eq_none {now : Nat} (h : w.ready? now = none)
    (hx : w.find? p = some x) : ¬ x.isReady now := by
  obtain ⟨e, he, rfl⟩ := exists_of_find? hx
  have hall := List.findIdx?_eq_none_iff.mp h e (List.mem_of_find?_eq_some he)
  simp [hall]

/-! ## New watches -/

/-- A path that has a live watch is watched. -/
theorem Live.isActive_of_find? (h : w.Live pathOf) (hx : w.find? p = some x) : w.isActive p := by
  obtain ⟨e, he, rfl⟩ := exists_of_find? hx
  have hended := h.not_ended e (List.mem_of_find?_eq_some he)
  simp only [Watch.hasEnded, decide_eq_false_iff_not] at hended
  simp only [isActive, Watcher.state, hx, Option.map_some, Option.getD_some, Watch.state]
  split <;> simp_all

/-- A path that is not watched has no live watch. -/
theorem Live.find?_eq_none (h : w.Live pathOf) (hp : ¬ w.isActive p) : w.find? p = none :=
  Option.eq_none_iff_forall_ne_some.mpr fun _ hx => hp (h.isActive_of_find? hx)

/-- The path of every watch is watched. -/
theorem Live.isActive_of_mem (h : w.Live pathOf) {e : WatchEntry τ} (he : e ∈ w.entries) :
    w.isActive e.path := by
  have hlive : isLive e.path e = true := by simp [isLive, Path.same, h.not_cancelled e he]
  obtain ⟨e', he'⟩ := Option.isSome_iff_exists.mp (List.find?_isSome.mpr ⟨e, he, hlive⟩)
  have hfind : w.find? e.path = some e'.watch := by rw [find?, he', Option.map_some]
  exact h.isActive_of_find? hfind

theorem exists_find?_of_isActive (hp : w.isActive p) : ∃ x, w.find? p = some x := by
  cases hx : w.find? p with
  | none => simp [isActive, Watcher.state, hx] at hp
  | some x => exact ⟨x, rfl⟩

/-- Where a path has no live watch there is nothing to stop. -/
theorem stop_of_find?_eq_none (h : w.find? p = none) : (w.stop p).2 = w := by
  have hnone : ∀ e ∈ w.entries, isLive p e = false := by
    have := List.find?_eq_none.mp (Option.map_eq_none_iff.mp h)
    simpa using this
  have hmap : w.entries.map (fun e => if isLive p e then { e with watch := e.watch.cancel } else e) =
      w.entries := by
    refine Eq.trans (List.map_congr_left fun e he => ?_) (List.map_id w.entries)
    simp [hnone e he]
  simp only [stop, hmap]

/-- A watch on a path that is not watched comes behind the other ones, if the path can be
watched. -/
theorem Live.entries_watch (h : w.Live pathOf) (hp : ¬ w.isActive p) (tag : τ) (s : Surroundings) :
    (w.watch p tag s).2.entries = w.entries ∨
      ∃ file, (w.watch p tag s).2.entries = w.entries ++ [⟨p, tag, .arm file⟩] := by
  simp only [Watcher.watch, stop_of_find?_eq_none (h.find?_eq_none hp)]
  split
  · exact .inl rfl
  · next file _ => exact .inr ⟨file, rfl⟩

theorem Live.watch (h : w.Live pathOf) {tag : τ} (hp : ¬ w.isActive (pathOf tag))
    (s : Surroundings) : (w.watch (pathOf tag) tag s).2.Live pathOf := by
  rcases h.entries_watch hp tag s with hsame | ⟨file, hnew⟩
  · exact ⟨hsame ▸ h.path_eq, hsame ▸ h.nodup, hsame ▸ h.not_cancelled, hsame ▸ h.not_ended⟩
  · refine ⟨fun e he => ?_, ?_, fun e he => ?_, fun e he => ?_⟩
    case refine_2 =>
      rw [hnew, List.map_append, List.nodup_append]
      refine ⟨h.nodup, by simp, fun t ht t' ht' htt' => ?_⟩
      obtain ⟨e, he, rfl⟩ := List.mem_map.mp ht
      -- a watch with the same tag would be a live one on the same path
      obtain rfl : t' = tag := by simpa using ht'
      have hactive := h.isActive_of_mem he
      rw [h.path_eq e he, htt'] at hactive
      exact hp hactive
    all_goals
      rw [hnew] at he
      rcases List.mem_append.mp he with he | he
    · exact h.path_eq e he
    · rw [List.mem_singleton.mp he]
    · exact h.not_cancelled e he
    · rw [List.mem_singleton.mp he]
      rfl
    · exact h.not_ended e he
    · rw [List.mem_singleton.mp he]
      rfl

/-- A new watch leaves the watches on other paths as they are. -/
theorem Live.find?_watch (h : w.Live pathOf) {q : String} (hq : ¬ w.isActive q)
    (hx : w.find? p = some x) (tag : τ) (s : Surroundings) :
    (w.watch q tag s).2.find? p = some x := by
  obtain ⟨e, he, rfl⟩ := exists_of_find? hx
  rcases h.entries_watch hq tag s with hsame | ⟨file, hnew⟩
  · simp only [find?, hsame, he, Option.map_some]
  · simp only [find?, hnew, List.find?_append, he, Option.some_or, Option.map_some]

theorem live_new (delays : RearmDelays) : (Watcher.new delays).Live pathOf :=
  ⟨by simp [Watcher.new], by simp [Watcher.new], by simp [Watcher.new], by simp [Watcher.new]⟩

end Watcher

end DenialMonitor
