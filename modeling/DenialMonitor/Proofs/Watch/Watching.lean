import DenialMonitor.Disk.Change
import DenialMonitor.Proofs.Watch.Touch

set_option autoImplicit false

/-!
# A watcher in its surroundings

Around a watcher files change, time passes and the operating system sends signals, and its owner
starts and stops watches. Each of these actions, and each turn of one of the watches, is one touch
of every single watch. So a watch can be followed from its start to its end by its number, whatever
becomes of the other ones.

## Main definitions

* `Watching` — a watcher in its surroundings; `Watching.act` is what an action does.
* `Watching.watchOf`, `Watching.touchOf` — a watch by its number, and what an action does to it.
* `Watching.Sound` — what holds all along.

## Main results

* `Watching.Sound.touches` — an action does to every watch what its touch says.
* `Watching.Sound.act`, `Watching.IsOn.act` — what holds all along.
-/

namespace DenialMonitor

/-- A watcher in its surroundings. Watches are numbered in the order in which they were asked for. -/
structure Watching where
  watcher : Watcher Nat
  around : Surroundings
  /-- How many watches were asked for. -/
  asked : Nat

namespace Watching

/-- What can happen to a watcher. -/
inductive Action where
  /-- Someone changes files. -/
  | change (c : DiskChange)
  /-- Time passes, in milliseconds. -/
  | pass (span : Nat)
  /-- The operating system sends a signal about a path. -/
  | signal (path : String) (s : Signal)
  /-- The owner asks for a watch, which takes the place of an earlier one on the path. -/
  | watch (path : String)
  | stop (path : String)
  | stopAll
  /-- The watch at place `i` gets to run. -/
  | run (i : Nat) (eager : Bool)
  deriving Repr

/-- Before any watch was asked for. -/
def start (delays : RearmDelays) (around : Surroundings) : Watching :=
  ⟨.new delays, around, 0⟩

/-- What an action does. -/
def act (w : Watching) : Action → Watching
  | .change c => { w with around := { w.around with disk := (w.around.disk.apply c).1 } }
  | .pass span => { w with around := { w.around with now := w.around.now + span } }
  | .signal path s => { w with watcher := (w.watcher.deliver path s).2 }
  | .watch path =>
    { w with watcher := (w.watcher.watch path w.asked w.around).2, asked := w.asked + 1 }
  | .stop path => { w with watcher := (w.watcher.stop path).2 }
  | .stopAll => { w with watcher := w.watcher.stopAll }
  | .run i eager => { w with watcher := (w.watcher.run w.around i eager).2 }

/-- What a list of actions does. -/
def actAll (w : Watching) (actions : List Action) : Watching :=
  actions.foldl act w

/-- The number of the watch that fires in an action. -/
def fired? (w : Watching) : Action → Option Nat
  | .run i eager => (w.watcher.run w.around i eager).1
  | _ => none

/-- The entry of watch number `n`. -/
def entryOf? (w : Watching) (n : Nat) : Option (WatchEntry Nat) :=
  w.watcher.entries.find? (·.tag = n)

/-- Watch number `n`. One that has ended is forgotten. -/
def watchOf (w : Watching) (n : Nat) : Watch :=
  ((w.entryOf? n).map (·.watch)).getD ⟨.ended, true⟩

/-- What watch number `n` is doing. -/
def stateOf (w : Watching) (n : Nat) : WatchState :=
  (w.watchOf n).state

/-- What an action does to watch number `n`. -/
def touchOf (w : Watching) (n : Nat) (a : Action) : Watch.Touch :=
  match w.entryOf? n with
  | none => .rest
  | some e =>
    match a with
    | .signal path s => if Watcher.hears path s e then .hear s else .rest
    | .watch path | .stop path => if Watcher.isLive path e then .stop else .rest
    | .stopAll => .stop
    | .run i eager => if w.watcher.entries[i]? = some e then .turn eager else .rest
    | .change _ | .pass _ => .rest

/-- No two watches have the same number, and none of them has ended. -/
structure Sound (w : Watching) : Prop where
  nodup : (w.watcher.entries.map (·.tag)).Nodup
  tag_lt : ∀ e ∈ w.watcher.entries, e.tag < w.asked
  not_ended : ∀ e ∈ w.watcher.entries, e.watch.hasEnded = false

/-- Watch number `n` is on the given path, unless it has ended. -/
def IsOn (w : Watching) (n : Nat) (path : String) : Prop :=
  ∀ e ∈ w.watcher.entries, e.tag = n → e.path = path

variable {w : Watching} {n : Nat} {path : String}

/-! ## Entries -/

/-- Where keys do not repeat, the entry with a key is found among those that are kept if it is
kept. -/
theorem find?_filter_of_nodup {α : Type} {f : α → Nat} {l : List α} (hnodup : (l.map f).Nodup)
    (q : α → Bool) (b : Nat) :
    (l.filter q).find? (f · = b) = (l.find? (f · = b)).filter q := by
  induction l with
  | nil => rfl
  | cons x l ih =>
    rw [List.map_cons, List.nodup_cons] at hnodup
    obtain ⟨hx, hnodup⟩ := hnodup
    by_cases hb : f x = b
    · have hrest : (l.filter q).find? (f · = b) = none := by
        rw [List.find?_eq_none]
        intro y hy heq
        have hmem := List.mem_map_of_mem (f := f) (List.mem_of_mem_filter hy)
        rw [of_decide_eq_true heq, ← hb] at hmem
        exact hx hmem
      rw [List.filter_cons]
      cases hq : q x <;> simp [hb, hq, hrest, Option.filter]
    · rw [List.filter_cons]
      cases hq : q x <;> simp [hb, ih hnodup]

theorem find?_map_of_tag {entries : List (WatchEntry Nat)} {g : WatchEntry Nat → WatchEntry Nat}
    (hg : ∀ e, (g e).tag = e.tag) (n : Nat) :
    (entries.map g).find? (·.tag = n) = (entries.find? (·.tag = n)).map g := by
  rw [List.find?_map]
  congr 2
  funext e
  simp [hg]

theorem watchOf_of_entryOf? {e : WatchEntry Nat} (h : w.entryOf? n = some e) :
    w.watchOf n = e.watch := by
  simp [watchOf, h]

/-- A watch is touched as its action says: the watch afterwards, and whether it fires. -/
def Touches (w : Watching) (n : Nat) (path : String) (a : Action) : Prop :=
  (w.act a).watchOf n =
      ((w.watchOf n).touch w.watcher.delays path w.around (w.touchOf n a)).2 ∧
    (w.fired? a = some n ↔
      ((w.watchOf n).touch w.watcher.delays path w.around (w.touchOf n a)).1 = true)

/-- An action that leaves all entries alone leaves a watch at rest. -/
theorem touches_of_rest {a : Action} (hfired : w.fired? a = none)
    (hentry : (w.act a).entryOf? n = w.entryOf? n) (hrest : w.touchOf n a = .rest) :
    w.Touches n path a := by
  unfold Touches
  rw [hrest, hfired]
  simp [watchOf, hentry, Watch.touch]

/-- An action that does the same to all entries of a kind does it to a watch. -/
theorem touches_of_map {a : Action} (cond : WatchEntry Nat → Bool) {t : Watch.Touch}
    {op : Watch → Watch} (hfired : w.fired? a = none)
    (hop : ∀ x : Watch, x.touch w.watcher.delays path w.around t = (false, op x))
    (hentry : (w.act a).entryOf? n =
      (w.entryOf? n).map fun e => if cond e then { e with watch := op e.watch } else e)
    (htouch : ∀ e, w.entryOf? n = some e → w.touchOf n a = if cond e then t else .rest) :
    w.Touches n path a := by
  unfold Touches
  cases he : w.entryOf? n with
  | none =>
    have hrest : w.touchOf n a = .rest := by simp [touchOf, he]
    rw [he] at hentry
    simp [watchOf, he, hentry, hrest, Watch.touch, hfired]
  | some e =>
    rw [he] at hentry
    rw [htouch e he, watchOf_of_entryOf? he, hfired]
    cases hcond : cond e with
    | true => simp [watchOf, hentry, hcond, hop]
    | false => simp [watchOf, hentry, hcond, Watch.touch]

theorem entryOf?_stop (watcher : Watcher Nat) (path : String) (n : Nat) :
    (watcher.stop path).2.entries.find? (·.tag = n) =
      (watcher.entries.find? (·.tag = n)).map fun e =>
        if Watcher.isLive path e then { e with watch := e.watch.cancel } else e :=
  find?_map_of_tag (fun e => by split <;> rfl) n

/-- A new watch has a number of its own. -/
theorem entryOf?_watch (watcher : Watcher Nat) (path : String) {tag : Nat} (hn : n < tag)
    (s : Surroundings) :
    (watcher.watch path tag s).2.entries.find? (·.tag = n) =
      (watcher.entries.find? (·.tag = n)).map fun e =>
        if Watcher.isLive path e then { e with watch := e.watch.cancel } else e := by
  rw [← entryOf?_stop]
  simp only [Watcher.watch]
  split
  · rfl
  · have hne : tag ≠ n := by omega
    simp [List.find?_append, hne]

theorem Sound.entryOf?_of_mem (h : w.Sound) {e : WatchEntry Nat} (he : e ∈ w.watcher.entries) :
    w.entryOf? e.tag = some e := by
  have hsome : (w.entryOf? e.tag).isSome := by
    rw [entryOf?, List.find?_isSome]
    exact ⟨e, he, by simp⟩
  obtain ⟨e', he'⟩ := Option.isSome_iff_exists.mp hsome
  have htag : e'.tag = e.tag := by simpa using List.find?_some he'
  rw [he', List.inj_on_of_nodup_map h.nodup (List.mem_of_find?_eq_some he') he htag]

/-- What a turn leaves of the entry with a number: it is forgotten where its watch has ended. -/
theorem Sound.entryOf?_run (h : w.Sound) {i : Nat} {e : WatchEntry Nat}
    (hi : w.watcher.entries[i]? = some e) (eager : Bool) (n : Nat) :
    (w.act (.run i eager)).entryOf? n =
      if e.tag = n then
        (some { e with watch := (e.watch.step w.watcher.delays e.path w.around eager).2 }).filter
          (!·.watch.hasEnded)
      else w.entryOf? n := by
  have hmem := List.mem_of_getElem? hi
  generalize hstepped : (e.watch.step w.watcher.delays e.path w.around eager).2 = stepped
  have hentries : (w.act (.run i eager)).watcher.entries =
      (w.watcher.entries.set i { e with watch := stepped }).filter (!·.watch.hasEnded) := by
    simp [act, Watcher.run, hi, hstepped]
  have htags := Watcher.map_tag_set hi stepped
  have hnodup : ((w.watcher.entries.set i { e with watch := stepped }).map (·.tag)).Nodup :=
    htags ▸ h.nodup
  rw [entryOf?, hentries, find?_filter_of_nodup hnodup]
  cases hx : w.entryOf? n with
  | none =>
    have hnone : ∀ tag ∈ w.watcher.entries.map (·.tag), tag ≠ n := by
      intro tag htag
      obtain ⟨e', he', rfl⟩ := List.mem_map.mp htag
      simpa using List.find?_eq_none.mp hx e' he'
    rw [if_neg (hnone e.tag (List.mem_map_of_mem hmem)), List.find?_eq_none.mpr]
    · rfl
    · intro e' he'
      have htag := hnone e'.tag (htags ▸ List.mem_map_of_mem he')
      simpa using htag
  | some x =>
    have hx' : x.tag = n := by simpa using List.find?_some hx
    obtain ⟨hsame, hother⟩ := find?_set_of_nodup (b := { e with watch := stepped }) h.nodup hi
      (by simp) hx
    by_cases htag : e.tag = n
    · rw [if_pos htag, hsame (by rw [htag, hx'])]
    · rw [if_neg htag, hother (by rw [hx']; exact htag)]
      simp [Option.filter, h.not_ended x (List.mem_of_find?_eq_some hx)]

/-- A watch that has ended in its turn was asked to stop, and nothing else is left of it. -/
theorem step_eq_of_hasEnded {x : Watch} {delays : RearmDelays} {s : Surroundings} {eager : Bool}
    (hbefore : x.hasEnded = false) (hafter : (x.step delays path s eager).2.hasEnded = true) :
    (x.step delays path s eager).2 = ⟨.ended, true⟩ := by
  obtain ⟨phase, heq, hne⟩ := x.exists_step_eq delays path s eager
  rw [heq] at hafter ⊢
  obtain rfl : phase = .ended := by simpa [Watch.hasEnded] using hafter
  have hcancelled : x.cancelled = true := by
    by_contra hnot
    exact hne (by simpa using hnot) hbefore rfl
  simp [hcancelled]

/-- A watch that gets to run is touched, and no other one is. -/
theorem Sound.touches_run (h : w.Sound) (hon : w.IsOn n path) (i : Nat) (eager : Bool) :
    w.Touches n path (.run i eager) := by
  unfold Touches
  cases hi : w.watcher.entries[i]? with
  | none =>
    have hact : w.act (.run i eager) = w := by simp [act, Watcher.run, hi]
    have hrest : w.touchOf n (.run i eager) = .rest := by
      unfold touchOf
      split <;> simp [hi]
    simp [hact, hrest, fired?, Watcher.run, hi, Watch.touch]
  | some e =>
    have hmem := List.mem_of_getElem? hi
    have hfired : w.fired? (.run i eager) =
        if (e.watch.step w.watcher.delays e.path w.around eager).1 then some e.tag else none := by
      simp [fired?, Watcher.run, hi]
    have hentry := h.entryOf?_run hi eager n
    by_cases htag : e.tag = n
    · obtain rfl := hon e hmem htag
      have he : w.entryOf? n = some e := htag ▸ h.entryOf?_of_mem hmem
      have hturn : w.touchOf n (.run i eager) = .turn eager := by simp [touchOf, he, hi]
      rw [hturn, watchOf_of_entryOf? he, hfired]
      refine ⟨?_, by simp [Watch.touch, htag]⟩
      rw [if_pos htag] at hentry
      rw [watchOf, hentry, Watch.touch]
      by_cases hended : (e.watch.step w.watcher.delays e.path w.around eager).2.hasEnded
      · rw [step_eq_of_hasEnded (h.not_ended e hmem) hended]
        rfl
      · simp [Option.filter, hended]
    · have hrest : w.touchOf n (.run i eager) = .rest := by
        unfold touchOf
        split
        · rfl
        · next e' he' =>
          have htag' : e'.tag = n := by simpa using List.find?_some he'
          have hne : e ≠ e' := fun heq => htag (heq ▸ htag')
          simp [hi, hne]
      rw [if_neg htag] at hentry
      rw [hrest, hfired]
      refine ⟨?_, ?_⟩
      · simp only [watchOf, hentry, Watch.touch]
      · simp only [Watch.touch, Bool.false_eq_true, iff_false]
        split <;> simp [htag]

/-- An action does to every watch what its touch says. -/
theorem Sound.touches (h : w.Sound) (hn : n < w.asked) (hon : w.IsOn n path) (a : Action) :
    w.Touches n path a := by
  cases a with
  | change c => exact touches_of_rest rfl rfl (by unfold touchOf; split <;> rfl)
  | pass span => exact touches_of_rest rfl rfl (by unfold touchOf; split <;> rfl)
  | signal path' s =>
    exact touches_of_map _ (t := .hear s) rfl (fun _ => rfl)
      (find?_map_of_tag (fun e => by split <;> rfl) n) (fun e he => by simp [touchOf, he])
  | watch path' =>
    exact touches_of_map _ (t := .stop) rfl (fun _ => rfl) (entryOf?_watch _ _ hn _)
      (fun e he => by simp [touchOf, he])
  | stop path' =>
    exact touches_of_map _ (t := .stop) rfl (fun _ => rfl) (entryOf?_stop _ _ _)
      (fun e he => by simp [touchOf, he])
  | stopAll =>
    refine touches_of_map (fun _ => true) (t := .stop) rfl (fun _ => rfl) ?_
      (fun e he => by simp [touchOf, he])
    exact find?_map_of_tag (g := fun e => { e with watch := e.watch.cancel }) (fun _ => rfl) n
  | run i eager => exact h.touches_run hon i eager

/-! ## What holds all along -/

theorem asked_le_act (w : Watching) (a : Action) : w.asked ≤ (w.act a).asked := by
  cases a <;> simp [act]

/-- Where the entries come from that there are after an action. -/
theorem exists_of_mem_act {a : Action} {e' : WatchEntry Nat}
    (he' : e' ∈ (w.act a).watcher.entries) :
    (∃ e ∈ w.watcher.entries, e'.tag = e.tag ∧ e'.path = e.path ∧
      (e.watch.hasEnded = false → e'.watch.hasEnded = false)) ∨
    e'.tag = w.asked ∧ w.asked < (w.act a).asked ∧ e'.watch.hasEnded = false := by
  have hmap {g : WatchEntry Nat → WatchEntry Nat}
      (hg : ∀ e, (g e).tag = e.tag ∧ (g e).path = e.path ∧
        (g e).watch.hasEnded = e.watch.hasEnded) (hmem : e' ∈ w.watcher.entries.map g) :
      ∃ e ∈ w.watcher.entries, e'.tag = e.tag ∧ e'.path = e.path ∧
        (e.watch.hasEnded = false → e'.watch.hasEnded = false) := by
    obtain ⟨e, he, rfl⟩ := List.mem_map.mp hmem
    exact ⟨e, he, (hg e).1, (hg e).2.1, fun h => (hg e).2.2.trans h⟩
  cases a with
  | change c => exact .inl ⟨e', he', rfl, rfl, id⟩
  | pass span => exact .inl ⟨e', he', rfl, rfl, id⟩
  | signal path s =>
    refine .inl (hmap (fun e => ?_) he')
    split
    · exact ⟨rfl, rfl, Watch.hasEnded_deliver e.watch s⟩
    · exact ⟨rfl, rfl, rfl⟩
  | stop path => exact .inl (hmap (fun e => by split <;> exact ⟨rfl, rfl, rfl⟩) he')
  | stopAll =>
    exact .inl (hmap (g := fun e => { e with watch := e.watch.cancel }) (fun e => ⟨rfl, rfl, rfl⟩) he')
  | watch path =>
    simp only [act, Watcher.watch] at he'
    split at he'
    · exact .inl (hmap (fun e => by split <;> exact ⟨rfl, rfl, rfl⟩) he')
    · rcases List.mem_append.mp he' with he' | he'
      · exact .inl (hmap (fun e => by split <;> exact ⟨rfl, rfl, rfl⟩) he')
      · obtain rfl := List.mem_singleton.mp he'
        exact .inr ⟨rfl, Nat.lt_succ_self _, rfl⟩
  | run i eager =>
    simp only [act, Watcher.run] at he'
    split at he'
    · exact .inl ⟨e', he', rfl, rfl, id⟩
    · next e hi =>
      obtain ⟨hset, hended⟩ := List.mem_filter.mp he'
      rcases List.mem_or_eq_of_mem_set hset with hmem | rfl
      · exact .inl ⟨e', hmem, rfl, rfl, id⟩
      · exact .inl ⟨e, List.mem_of_getElem? hi, rfl, rfl, fun _ => by simpa using hended⟩

/-- No two watches have the same number after an action: a new one gets a number beyond all
others. -/
theorem Sound.nodup_act (h : w.Sound) (a : Action) :
    ((w.act a).watcher.entries.map (·.tag)).Nodup := by
  have hmap {g : WatchEntry Nat → WatchEntry Nat} (hg : ∀ e, (g e).tag = e.tag) :
      ((w.watcher.entries.map g).map (·.tag)).Nodup := by
    have htags : (w.watcher.entries.map g).map (·.tag) = w.watcher.entries.map (·.tag) := by
      rw [List.map_map]
      exact List.map_congr_left fun e _ => hg e
    exact htags ▸ h.nodup
  cases a with
  | change c => exact h.nodup
  | pass span => exact h.nodup
  | signal path s => exact hmap fun e => by split <;> rfl
  | stop path => exact hmap fun e => by split <;> rfl
  | stopAll => exact hmap fun e => rfl
  | watch path =>
    have hstopped : ((w.watcher.stop path).2.entries.map (·.tag)).Nodup :=
      hmap fun e => by split <;> rfl
    simp only [Watching.act, Watcher.watch]
    split
    · exact hstopped
    · rw [List.map_append, List.nodup_append]
      refine ⟨hstopped, by simp, fun tag htag tag' htag' heq => ?_⟩
      obtain ⟨e', he', rfl⟩ := List.mem_map.mp htag
      obtain ⟨e, he, rfl⟩ := List.mem_map.mp he'
      have hlt := h.tag_lt e he
      obtain rfl : tag' = w.asked := by simpa using htag'
      have hkept : (if Watcher.isLive path e then { e with watch := e.watch.cancel } else e).tag =
          e.tag := by split <;> rfl
      rw [hkept] at heq
      omega
  | run i eager =>
    simp only [Watching.act, Watcher.run]
    split
    · exact h.nodup
    · next e hi =>
      have hnodup := Watcher.map_tag_set hi
        (e.watch.step w.watcher.delays e.path w.around eager).2 ▸ h.nodup
      exact hnodup.sublist (List.filter_sublist.map _)

theorem Sound.act (h : w.Sound) (a : Action) : (w.act a).Sound := by
  refine ⟨h.nodup_act a, fun e' he' => ?_, fun e' he' => ?_⟩
  · rcases exists_of_mem_act he' with ⟨e, he, htag, -⟩ | ⟨htag, hlt, -⟩
    · rw [htag]
      exact Nat.lt_of_lt_of_le (h.tag_lt e he) (w.asked_le_act a)
    · rw [htag]
      exact hlt
  · rcases exists_of_mem_act he' with ⟨e, he, -, -, hended⟩ | ⟨-, -, hended⟩
    · exact hended (h.not_ended e he)
    · exact hended

theorem IsOn.act (h : w.IsOn n path) (hn : n < w.asked) (a : Action) : (w.act a).IsOn n path := by
  intro e' he' htag'
  rcases exists_of_mem_act he' with ⟨e, he, htag, hpath, -⟩ | ⟨htag, -⟩
  · rw [hpath]
    exact h e he (htag ▸ htag')
  · omega

end Watching

end DenialMonitor
