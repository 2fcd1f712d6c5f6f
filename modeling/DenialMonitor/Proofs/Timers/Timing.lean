import DenialMonitor.Proofs.Timers.Orderly
import DenialMonitor.Timers.Timeline
import Mathlib.Data.List.Induction
import Mathlib.Data.List.Nodup

set_option autoImplicit false

/-!
# Timers in use

The owner of a set of timers schedules, cancels and completes them in any order, for any keys, while
time passes and timers fire. Time does not pass beyond the moment at which a timer is due, so a timer
that fires does so at that moment. What matters to a timer is who holds the slot of its key: only
while its own generation is there, cancelling, replacing or clearing keeps it from firing. A timer
that was completed has given its slot up and cannot be stopped any more, except together with all
others.

## Main definitions

* `Timing` — a set of timers, the time, and what has fired; `Timing.act` is what a step does.
* `Timing.Allows` — the steps that can come next.
* `Timing.generations` — the generations that are given out along a run.
* `Timing.IsLatest` — a generation is that of the latest timer of a key, which is still held.
* `Timing.FiresOnTime` — when a timer fires, and what keeps it from firing.

## Main results

* `Timing.generation?_actAll_iff` — whose generation is in the slot of a key.
* `Timing.Asleep.act`, `Timing.Asleep.actAll` — what becomes of a timer in a step and in a run.
* `Timing.timers_fire_on_time` — all that is promised of timers.
* `Timing.long_delay_is_cut_and_due_timer_stopped` — a timer is due after thirty years at the latest,
  and can still be stopped when it is due.
-/

namespace DenialMonitor

namespace KeyedTimers

variable {κ : Type} [DecidableEq κ] {t : KeyedTimers κ} {k : κ} {g : Nat} {s : Sleeper κ}

/-! ## Slots -/

/-- Each key has one slot at most. -/
def OneSlotPerKey (t : KeyedTimers κ) : Prop :=
  (t.slots.map (·.1)).Nodup

theorem generation?_eq_none_iff : t.generation? k = none ↔ k ∉ t.slots.map (·.1) := by
  simp only [generation?, Option.map_eq_none_iff, List.find?_eq_none, decide_eq_true_eq,
    List.mem_map, not_exists, not_and]

theorem mem_slots_of_generation? (h : t.generation? k = some g) : (k, g) ∈ t.slots := by
  obtain ⟨p, hp, rfl⟩ := Option.map_eq_some_iff.mp h
  have hkey : p.1 = k := by simpa using List.find?_some hp
  exact hkey ▸ List.mem_of_find?_eq_some hp

/-- The slot of a key is the only one that it has. -/
theorem OneSlotPerKey.generation?_iff (h : t.OneSlotPerKey) :
    t.generation? k = some g ↔ (k, g) ∈ t.slots := by
  refine ⟨mem_slots_of_generation?, fun hmem => ?_⟩
  cases hslot : t.generation? k with
  | none => exact absurd (List.mem_map_of_mem hmem) (generation?_eq_none_iff.mp hslot)
  | some g' =>
    have heq := List.inj_on_of_nodup_map h (mem_slots_of_generation? hslot) hmem rfl
    rw [(Prod.mk.inj heq).2]

theorem OneSlotPerKey.release (h : t.OneSlotPerKey) (k : κ) : (t.release k).OneSlotPerKey :=
  h.sublist (List.filter_sublist.map _)

theorem OneSlotPerKey.cancel (h : t.OneSlotPerKey) (k : κ) : (t.cancel k).2.OneSlotPerKey := by
  unfold KeyedTimers.cancel
  split
  · exact h.release k
  · exact h

theorem OneSlotPerKey.schedule (h : t.OneSlotPerKey) (k : κ) (due : Nat) :
    (t.schedule k due).2.OneSlotPerKey := by
  have hfree : (t.cancel k).2.generation? k = none := by simp [generation?_cancel]
  exact List.nodup_cons.mpr ⟨generation?_eq_none_iff.mp hfree, h.cancel k⟩

theorem OneSlotPerKey.complete (h : t.OneSlotPerKey) (k : κ) (g : Nat) :
    (t.complete k g).2.OneSlotPerKey := by
  unfold KeyedTimers.complete
  split
  · exact h.release k
  · exact h

omit [DecidableEq κ] in
theorem slots_wake (t : KeyedTimers κ) (g now : Nat) : (t.wake g now).2.slots = t.slots := by
  rcases t.wake_cases g now with h | ⟨s, -, -, -, h⟩ <;> rw [h]
  rfl

/-- Cancelling all timers keeps those from firing whose generation is in a slot. -/
theorem mem_sleepers_cancelAll (h : t.OneSlotPerKey) :
    s ∈ t.cancelAll.sleepers ↔ s ∈ t.sleepers ∧ ∀ k, t.generation? k ≠ some s.generation := by
  simp only [cancelAll, List.mem_filter, List.all_eq_true, decide_eq_true_eq, ne_eq,
    h.generation?_iff, Prod.forall]
  exact and_congr_right fun _ => ⟨fun hall k hk => hall k _ hk rfl, fun hall k g hk hg =>
    hall k (hg ▸ hk)⟩

theorem sleepers_complete (t : KeyedTimers κ) (k : κ) (g : Nat) :
    (t.complete k g).2.sleepers = t.sleepers := by
  unfold complete
  split <;> rfl

theorem latest_complete (t : KeyedTimers κ) (k : κ) (g : Nat) :
    (t.complete k g).2.latest = t.latest := by
  unfold complete
  split <;> rfl

theorem Orderly.complete (h : t.Orderly) (k : κ) (g : Nat) : (t.complete k g).2.Orderly := by
  unfold KeyedTimers.complete
  split
  · exact h.release k
  · exact h

theorem Orderly.drop (h : t.Orderly) : t.drop.Orderly :=
  h.of_le rfl (fun _ _ hk => hk) (by simp [KeyedTimers.drop])

end KeyedTimers

/-- A set of timers, the time, and what has fired. -/
structure Timing (κ : Type) where
  timers : KeyedTimers κ
  /-- In milliseconds. -/
  now : Nat
  /-- Whether the timers still have an owner. -/
  owned : Bool
  /-- The timers that have fired, with the time, latest first. -/
  fired : List (Sleeper κ × Nat)

namespace Timing

/-- What can happen to a set of timers. -/
inductive Step (κ : Type) where
  | schedule (k : κ) (delay : Nat)
  | cancel (k : κ)
  | cancelAll
  | complete (k : κ) (g : Nat)
  /-- The owner lets go of the timers. -/
  | drop
  /-- Time passes, in milliseconds. -/
  | pass (span : Nat)
  /-- The timer with a generation fires, if its delay has run out. -/
  | wake (g : Nat)
  deriving DecidableEq, Repr

variable {κ : Type} [DecidableEq κ]

/-- No timers, at the given time. -/
def start (now : Nat) : Timing κ :=
  ⟨.empty, now, true, []⟩

/-- The timer that a step with the given key and delay puts up. -/
def newTimer (t : Timing κ) (k : κ) (delay : Nat) : Sleeper κ :=
  ⟨k, (t.timers.schedule k (dueAfter t.now delay)).1, dueAfter t.now delay⟩

/-- What a step does. -/
def act (t : Timing κ) : Step κ → Timing κ
  | .schedule k delay => { t with timers := (t.timers.schedule k (dueAfter t.now delay)).2 }
  | .cancel k => { t with timers := (t.timers.cancel k).2 }
  | .cancelAll => { t with timers := t.timers.cancelAll }
  | .complete k g => { t with timers := (t.timers.complete k g).2 }
  | .drop => { t with timers := t.timers.drop, owned := false }
  | .pass span => { t with now := t.now + span }
  | .wake g =>
    { t with
      timers := (t.timers.wake g t.now).2
      fired := (t.timers.wake g t.now).1.toList.map (·, t.now) ++ t.fired }

/-- What a list of steps does. -/
def actAll (t : Timing κ) (steps : List (Step κ)) : Timing κ :=
  steps.foldl act t

/-- The steps that can come next: the owner needs the timers, and time does not pass beyond the
moment at which a timer is due. -/
def Allows (t : Timing κ) : Step κ → Prop
  | .pass span => ∀ s ∈ t.timers.sleepers, t.now + span ≤ s.due
  | .wake _ => True
  | _ => t.owned

instance (t : Timing κ) (a : Step κ) : Decidable (t.Allows a) := by
  cases a <;> unfold Allows <;> infer_instance

/-- `P` holds of every step of a run, in the state in which it is taken. -/
def Along (P : Timing κ → Step κ → Prop) : Timing κ → List (Step κ) → Prop
  | _, [] => True
  | t, a :: steps => P t a ∧ Along P (t.act a) steps

/-- `P` holds of one of the steps of a run, in the state in which it is taken. -/
def Sometime (P : Timing κ → Step κ → Prop) : Timing κ → List (Step κ) → Prop
  | _, [] => False
  | t, a :: steps => P t a ∨ Sometime P (t.act a) steps

instance Along.decidable (P : Timing κ → Step κ → Prop) [∀ t a, Decidable (P t a)] :
    ∀ t steps, Decidable (Along P t steps)
  | _, [] => inferInstanceAs (Decidable True)
  | t, a :: steps =>
    have := Along.decidable P (t.act a) steps
    inferInstanceAs (Decidable (P t a ∧ Along P (t.act a) steps))

instance Sometime.decidable (P : Timing κ → Step κ → Prop) [∀ t a, Decidable (P t a)] :
    ∀ t steps, Decidable (Sometime P t steps)
  | _, [] => inferInstanceAs (Decidable False)
  | t, a :: steps =>
    have := Sometime.decidable P (t.act a) steps
    inferInstanceAs (Decidable (P t a ∨ Sometime P (t.act a) steps))

/-- The generations that are given out along a run, in order. -/
def generations : Timing κ → List (Step κ) → List Nat
  | _, [] => []
  | t, a :: steps =>
    match a with
    | .schedule k delay => (t.newTimer k delay).generation :: generations (t.act a) steps
    | _ => generations (t.act a) steps

/-- The slot of `k` is taken from generation `g`, if it has it: another timer is scheduled, the timer
of `k` or every one is cancelled, or it is completed. -/
def Retires (k : κ) (g : Nat) (t : Timing κ) : Step κ → Prop
  | .schedule j _ | .cancel j => j = k
  | .cancelAll => True
  | .complete j g' => j = k ∧ g' = g ∧ (t.timers.complete j g').1 = true
  | _ => False

/-- In a run from `t` the timer with generation `g` was scheduled as the latest one of `k`, and since
then its slot was not taken from it. -/
def IsLatest (k : κ) (g : Nat) (t : Timing κ) (steps : List (Step κ)) : Prop :=
  ∃ before delay after, steps = before ++ .schedule k delay :: after ∧
    g = ((t.actAll before).newTimer k delay).generation ∧
    Along (fun t a => ¬ Retires k g t a) (t.actAll (before ++ [.schedule k delay])) after

/-- The timer `x` is kept from firing: its slot is cancelled, replaced or cleared while it holds its
generation, or all timers are let go. -/
def Stops (x : Sleeper κ) (t : Timing κ) : Step κ → Prop
  | .schedule j _ | .cancel j => j = x.key ∧ t.timers.generation? x.key = some x.generation
  | .cancelAll => t.timers.generation? x.key = some x.generation
  | .drop => True
  | _ => False

instance (x : Sleeper κ) (t : Timing κ) (a : Step κ) : Decidable (Stops x t a) := by
  cases a <;> unfold Stops <;> infer_instance

/-- The delay of the timer `x` has run out, and it has not fired yet. -/
def IsReady (x : Sleeper κ) (t : Timing κ) : Prop :=
  x ∈ t.timers.sleepers ∧ x.due ≤ t.now

instance (x : Sleeper κ) (t : Timing κ) : Decidable (IsReady x t) :=
  inferInstanceAs (Decidable (_ ∧ _))

/-- The firings of the timer with generation `g`. -/
def firings (g : Nat) (t : Timing κ) : List (Sleeper κ × Nat) :=
  t.fired.filter (·.1.generation = g)

/-- When the timer `x` fires along a run from `t`: at most once, with its own generation, and at the
moment at which it is due. It does not if it is stopped before. Unless it is stopped at that very
moment, before it could fire, it has fired from then on if and only if it was not stopped before. -/
structure FiresOnTime (x : Sleeper κ) (t : Timing κ) (steps : List (Step κ)) : Prop where
  at_most_once : firings x.generation (t.actAll steps) = [] ∨
    firings x.generation (t.actAll steps) = [(x, x.due)]
  of_stopped : Sometime (fun t a => t.now < x.due ∧ Stops x t a) t steps →
    firings x.generation (t.actAll steps) = []
  fires_iff : Along (fun t a => IsReady x t → ¬ Stops x t a) t steps →
    x.due ≤ (t.actAll steps).now → ¬ IsReady x (t.actAll steps) →
    (firings x.generation (t.actAll steps) = [(x, x.due)] ↔
      ¬ Sometime (fun t a => t.now < x.due ∧ Stops x t a) t steps)

section Runs

variable {P : Timing κ → Step κ → Prop} {t : Timing κ} {as bs : List (Step κ)}

theorem actAll_cons (t : Timing κ) (a : Step κ) (as : List (Step κ)) :
    t.actAll (a :: as) = (t.act a).actAll as :=
  rfl

theorem actAll_append (t : Timing κ) (as bs : List (Step κ)) :
    t.actAll (as ++ bs) = (t.actAll as).actAll bs :=
  List.foldl_append

theorem along_append : Along P t (as ++ bs) ↔ Along P t as ∧ Along P (t.actAll as) bs := by
  induction as generalizing t with
  | nil => simp [Along, actAll]
  | cons a as ih => simp only [List.cons_append, Along, ih, actAll_cons, and_assoc]

/-- What every step keeps holds after a run. -/
theorem invariant_actAll {Inv : Timing κ → Prop} (hstep : ∀ t a, Inv t → Inv (t.act a))
    (h : Inv t) (steps : List (Step κ)) : Inv (t.actAll steps) := by
  induction steps generalizing t with
  | nil => exact h
  | cons a steps ih => exact ih (hstep t a h)

end Runs

variable {t : Timing κ} {a : Step κ} {k : κ} {g : Nat} {x : Sleeper κ} {steps : List (Step κ)}

/-! ## What holds all along -/

/-- What holds of the timers all along. -/
structure Sound (t : Timing κ) : Prop where
  orderly : t.timers.Orderly
  oneSlotPerKey : t.timers.OneSlotPerKey
  fired_le : ∀ f ∈ t.fired, f.1.generation ≤ t.timers.latest

theorem sound_start (now : Nat) : (start now : Timing κ).Sound :=
  ⟨.empty, List.nodup_nil, by simp [start]⟩

/-- Only a step that schedules a timer gives out a generation. -/
theorem latest_act_of_ne_schedule (h : ∀ k delay, a ≠ .schedule k delay) :
    (t.act a).timers.latest = t.timers.latest := by
  cases a with
  | schedule k delay => exact absurd rfl (h k delay)
  | cancel k => exact KeyedTimers.latest_cancel _ _
  | complete k g => exact KeyedTimers.latest_complete _ _ _
  | wake g => exact KeyedTimers.latest_wake _ _ _
  | _ => rfl

theorem latest_le_act (t : Timing κ) (a : Step κ) : t.timers.latest ≤ (t.act a).timers.latest := by
  cases a with
  | schedule k delay => simp [act, KeyedTimers.latest_schedule]
  | _ => exact Nat.le_of_eq (latest_act_of_ne_schedule (by simp)).symm

/-- What has fired after a step has fired before, or had not fired before. -/
theorem mem_fired_act_cases {f : Sleeper κ × Nat} (hf : f ∈ (t.act a).fired) :
    f ∈ t.fired ∨ f.1 ∈ t.timers.sleepers := by
  cases a with
  | wake g =>
    rcases t.timers.wake_cases g t.now with hw | ⟨s, hs, -, -, hw⟩
    · exact .inl (by simpa [act, hw] using hf)
    · simp only [act, hw, Option.toList_some, List.map_cons, List.map_nil, List.singleton_append,
        List.mem_cons] at hf
      rcases hf with rfl | hf
      · exact .inr hs
      · exact .inl hf
  | _ => exact .inl hf

theorem Sound.act (h : t.Sound) (a : Step κ) : (t.act a).Sound := by
  have hfired : ∀ f ∈ (t.act a).fired, f.1.generation ≤ (t.act a).timers.latest := fun f hf =>
    Nat.le_trans ((mem_fired_act_cases hf).elim (h.fired_le f) (h.orderly.sleeper_le f.1))
      (latest_le_act t a)
  obtain ⟨horderly, hslots, -⟩ := h
  cases a with
  | schedule k delay => exact ⟨horderly.schedule k _, hslots.schedule k _, hfired⟩
  | cancel k => exact ⟨horderly.cancel k, hslots.cancel k, hfired⟩
  | cancelAll => exact ⟨horderly.cancelAll, List.nodup_nil, hfired⟩
  | complete k g => exact ⟨horderly.complete k g, hslots.complete k g, hfired⟩
  | drop => exact ⟨horderly.drop, hslots, hfired⟩
  | pass span => exact ⟨horderly, hslots, hfired⟩
  | wake g =>
    refine ⟨horderly.wake g t.now, ?_, hfired⟩
    simp only [Timing.act, KeyedTimers.OneSlotPerKey, KeyedTimers.slots_wake]
    exact hslots

theorem Sound.actAll (h : t.Sound) (steps : List (Step κ)) : (t.actAll steps).Sound :=
  invariant_actAll (fun _ a ht => ht.act a) h steps

/-! ## Generations -/

theorem generation_newTimer (t : Timing κ) (k : κ) (delay : Nat) :
    (t.newTimer k delay).generation = t.timers.latest + 1 :=
  KeyedTimers.fst_schedule t.timers k (dueAfter t.now delay)

/-- The generations that are given out follow one another without a gap. -/
theorem generations_eq (t : Timing κ) (steps : List (Step κ)) :
    generations t steps = List.range' (t.timers.latest + 1) (generations t steps).length := by
  induction steps generalizing t with
  | nil => rfl
  | cons a steps ih =>
    have hrest := ih (t.act a)
    cases a with
    | schedule k delay =>
      have hlatest : (t.act (.schedule k delay)).timers.latest = t.timers.latest + 1 :=
        KeyedTimers.latest_schedule ..
      rw [hlatest] at hrest
      simp only [generations, List.length_cons, List.range'_succ, generation_newTimer]
      rw [← hrest]
    | _ =>
      rw [latest_act_of_ne_schedule (by simp)] at hrest
      exact hrest

/-! ## The slot of a key -/

/-- The slot of a key has a generation after a step if and only if the step has put it there, or it
was there and was not taken away. -/
theorem generation?_act_iff : (t.act a).timers.generation? k = some g ↔
    (∃ delay, a = .schedule k delay ∧ g = (t.newTimer k delay).generation) ∨
      t.timers.generation? k = some g ∧ ¬ Retires k g t a := by
  cases a with
  | schedule j delay =>
    by_cases hj : j = k
    · subst hj
      simp [act, newTimer, Retires, KeyedTimers.generation?_schedule, eq_comm]
    · have hj' : k ≠ j := fun h => hj h.symm
      simp [act, Retires, KeyedTimers.generation?_schedule, hj, hj']
  | cancel j =>
    by_cases hj : j = k
    · simp [act, Retires, KeyedTimers.generation?_cancel, hj]
    · have hj' : k ≠ j := fun h => hj h.symm
      simp [act, Retires, KeyedTimers.generation?_cancel, hj, hj']
  | cancelAll => simp [act, Retires, KeyedTimers.generation?_cancelAll]
  | complete j g' =>
    by_cases hj : j = k
    · subst hj
      by_cases hslot : t.timers.generation? j = some g'
      · simp +contextual [act, Retires, KeyedTimers.generation?_complete, KeyedTimers.fst_complete,
          hslot]
      · simp [act, Retires, KeyedTimers.generation?_complete, KeyedTimers.fst_complete, hslot]
    · have hj' : k ≠ j := fun h => hj h.symm
      simp [act, Retires, KeyedTimers.generation?_complete, hj, hj']
  | drop => simp [act, Retires, KeyedTimers.drop, KeyedTimers.generation?]
  | pass span => simp [act, Retires]
  | wake g' => simp [act, Retires]

/-- A run in which a generation is the latest one of a key ends in the step that has given it out, or
the generation was the latest one before the last step, which has not taken its slot away. -/
theorem isLatest_concat_iff : IsLatest k g t (steps ++ [a]) ↔
    (∃ delay, a = .schedule k delay ∧ g = ((t.actAll steps).newTimer k delay).generation) ∨
      IsLatest k g t steps ∧ ¬ Retires k g (t.actAll steps) a := by
  constructor
  · rintro ⟨before, delay, after, heq, hg, halong⟩
    induction after using List.reverseRecOn with
    | nil =>
      obtain ⟨rfl, ha⟩ := List.append_inj' heq rfl
      obtain rfl : a = .schedule k delay := by simpa using ha
      exact .inl ⟨delay, rfl, hg⟩
    | append_singleton after b =>
      obtain ⟨rfl, rfl⟩ : steps = before ++ .schedule k delay :: after ∧ a = b := by
        rw [← List.cons_append, ← List.append_assoc] at heq
        obtain ⟨hsteps, hb⟩ := List.append_inj' heq rfl
        exact ⟨hsteps, by simpa using hb⟩
      obtain ⟨hkept, hlast, -⟩ := along_append.mp halong
      rw [← actAll_append, List.append_assoc, List.singleton_append] at hlast
      exact .inr ⟨⟨before, delay, after, rfl, hg, hkept⟩, hlast⟩
  · rintro (⟨delay, rfl, hg⟩ | ⟨⟨before, delay, after, rfl, hg, halong⟩, hlast⟩)
    · exact ⟨steps, delay, [], rfl, hg, trivial⟩
    · refine ⟨before, delay, after ++ [a], by simp, hg, along_append.mpr ⟨halong, ?_, trivial⟩⟩
      rw [← actAll_append, List.append_assoc, List.singleton_append]
      exact hlast

/-- The slot of a key has the generation of its latest timer, as long as it is not taken away. -/
theorem generation?_actAll_iff (hnone : t.timers.generation? k = none) (steps : List (Step κ)) :
    (t.actAll steps).timers.generation? k = some g ↔ IsLatest k g t steps := by
  induction steps using List.reverseRecOn with
  | nil => simp [actAll, hnone, IsLatest]
  | append_singleton steps a ih =>
    rw [isLatest_concat_iff, ← ih, actAll_append]
    exact generation?_act_iff

/-- A generation that was given out is in no slot any more. -/
def Spent (g : Nat) (t : Timing κ) : Prop :=
  g ≤ t.timers.latest ∧ ∀ k, t.timers.generation? k ≠ some g

theorem Spent.act (h : t.Spent g) (a : Step κ) : (t.act a).Spent g := by
  refine ⟨Nat.le_trans h.1 (latest_le_act t a), fun k hk => ?_⟩
  rcases generation?_act_iff.mp hk with ⟨delay, -, hg⟩ | ⟨hslot, -⟩
  · have hle := h.1
    rw [generation_newTimer] at hg
    omega
  · exact h.2 k hslot

/-- A generation that was confirmed is spent. -/
theorem Sound.spent_of_complete (h : t.Sound) (hconfirmed : (t.timers.complete k g).1 = true) :
    (t.act (.complete k g)).Spent g := by
  have hslot : t.timers.generation? k = some g := by
    rwa [KeyedTimers.fst_complete, decide_eq_true_iff] at hconfirmed
  refine ⟨Nat.le_trans (h.orderly.slot_le k g hslot) (latest_le_act t _), fun j hj => ?_⟩
  rcases generation?_act_iff.mp hj with ⟨delay, ha, -⟩ | ⟨hslot', hnot⟩
  · simp at ha
  · obtain rfl := h.orderly.slot_inj j k g hslot' hslot
    exact hnot ⟨rfl, rfl, hconfirmed⟩

/-- A generation is confirmed once at most. -/
theorem Sound.complete_eq_false_of_complete (h : t.Sound) {j : κ}
    (hconfirmed : (t.timers.complete k g).1 = true) (steps : List (Step κ)) :
    (((t.act (.complete k g)).actAll steps).timers.complete j g).1 = false := by
  have hspent : ((t.act (.complete k g)).actAll steps).Spent g :=
    invariant_actAll (fun _ a ht => ht.act a) (h.spent_of_complete hconfirmed) steps
  simpa [KeyedTimers.fst_complete] using hspent.2 j

/-! ## What becomes of a timer -/

/-- The timer `x` has not fired yet, and its time is not over. -/
structure Asleep (x : Sleeper κ) (t : Timing κ) : Prop where
  sound : t.Sound
  mem : x ∈ t.timers.sleepers
  firings : firings x.generation t = []
  now_le : t.now ≤ x.due

/-- The timer `x` has fired. -/
structure Fired (x : Sleeper κ) (t : Timing κ) : Prop where
  firings : firings x.generation t = [(x, x.due)]
  due_le : x.due ≤ t.now
  gone : ∀ s ∈ t.timers.sleepers, s.generation ≠ x.generation
  le_latest : x.generation ≤ t.timers.latest

/-- The timer `x` has been kept from firing. -/
structure Stopped (x : Sleeper κ) (t : Timing κ) : Prop where
  firings : firings x.generation t = []
  gone : ∀ s ∈ t.timers.sleepers, s.generation ≠ x.generation
  le_latest : x.generation ≤ t.timers.latest

/-- The timers that have not fired after a step have not fired before, or are new. -/
theorem mem_sleepers_act_cases {s : Sleeper κ} (hs : s ∈ (t.act a).timers.sleepers) :
    s ∈ t.timers.sleepers ∨ s.generation = t.timers.latest + 1 := by
  cases a with
  | schedule k delay =>
    rcases KeyedTimers.mem_sleepers_schedule.mp hs with rfl | ⟨hs, -⟩
    · exact .inr rfl
    · exact .inl hs
  | cancel k => exact .inl (KeyedTimers.mem_sleepers_cancel.mp hs).1
  | cancelAll => exact .inl (KeyedTimers.mem_of_mem_sleepers_cancelAll hs)
  | complete k g =>
    simp only [act, KeyedTimers.sleepers_complete] at hs
    exact .inl hs
  | drop => simp [act, KeyedTimers.drop] at hs
  | pass span => exact .inl hs
  | wake g => exact .inl (KeyedTimers.mem_of_mem_sleepers_wake hs)

/-- A timer that is gone does not come back. -/
theorem gone_act (hgone : ∀ s ∈ t.timers.sleepers, s.generation ≠ g) (hle : g ≤ t.timers.latest)
    (a : Step κ) : ∀ s ∈ (t.act a).timers.sleepers, s.generation ≠ g := by
  intro s hs heq
  rcases mem_sleepers_act_cases hs with hs | hnew
  · exact hgone s hs heq
  · omega

/-- A timer that is gone does not fire. -/
theorem firings_act (hgone : ∀ s ∈ t.timers.sleepers, s.generation ≠ g) (a : Step κ) :
    firings g (t.act a) = firings g t := by
  cases a with
  | wake g' =>
    rcases t.timers.wake_cases g' t.now with hw | ⟨s, hs, -, -, hw⟩
    · simp [firings, act, hw]
    · simp [firings, act, hw, hgone s hs]
  | _ => rfl

theorem now_le_act (t : Timing κ) (a : Step κ) : t.now ≤ (t.act a).now := by
  cases a with
  | pass span => exact Nat.le_add_right _ _
  | _ => exact Nat.le_refl _

theorem Fired.act (h : t.Fired x) (a : Step κ) : (t.act a).Fired x where
  firings := (firings_act h.gone a).trans h.firings
  due_le := Nat.le_trans h.due_le (now_le_act t a)
  gone := gone_act h.gone h.le_latest a
  le_latest := Nat.le_trans h.le_latest (latest_le_act t a)

theorem Stopped.act (h : t.Stopped x) (a : Step κ) : (t.act a).Stopped x where
  firings := (firings_act h.gone a).trans h.firings
  gone := gone_act h.gone h.le_latest a
  le_latest := Nat.le_trans h.le_latest (latest_le_act t a)

/-- As long as it does not fire, a timer that has not fired stays unless it is stopped. -/
theorem Asleep.mem_sleepers_act_iff (h : t.Asleep x) (hwake : ∀ g, a ≠ .wake g) :
    x ∈ (t.act a).timers.sleepers ↔ ¬ Stops x t a := by
  have hmem := h.mem
  have hkey {j : κ} (hslot : t.timers.generation? j = some x.generation) : j = x.key :=
    (h.sound.orderly.key_eq x hmem j hslot).symm
  have hslot (j : κ) : t.timers.generation? j ≠ some x.generation ↔
      ¬ (j = x.key ∧ t.timers.generation? x.key = some x.generation) := by
    refine not_congr ⟨fun hj => ?_, fun hj => hj.1 ▸ hj.2⟩
    obtain rfl := hkey hj
    exact ⟨rfl, hj⟩
  cases a with
  | schedule j delay =>
    have hnew : x ≠ ⟨j, t.timers.latest + 1, dueAfter t.now delay⟩ := by
      intro heq
      have hle := h.sound.orderly.sleeper_le x hmem
      rw [heq] at hle
      exact absurd hle (Nat.not_succ_le_self _)
    rw [Stops, ← hslot j]
    simp only [Timing.act, KeyedTimers.mem_sleepers_schedule, hnew, false_or, hmem, true_and]
  | cancel j =>
    rw [Stops, ← hslot j]
    simp only [Timing.act, KeyedTimers.mem_sleepers_cancel, hmem, true_and]
  | cancelAll =>
    simp only [Timing.act, KeyedTimers.mem_sleepers_cancelAll h.sound.oneSlotPerKey, hmem, true_and,
      Stops]
    refine ⟨fun hnone => hnone x.key, fun hnot j hj => ?_⟩
    obtain rfl := hkey hj
    exact hnot hj
  | complete j g => simpa [Timing.act, KeyedTimers.sleepers_complete, Stops] using hmem
  | drop => simp [Timing.act, KeyedTimers.drop, Stops]
  | pass span => simpa [Timing.act, Stops] using hmem
  | wake g => exact absurd rfl (hwake g)

/-- A timer whose time is over fires at its moment. The firing of another one leaves it alone. -/
theorem Asleep.act_wake (h : t.Asleep x) (g : Nat) :
    (t.act (.wake g)).Asleep x ∨ (t.act (.wake g)).Fired x := by
  rcases t.timers.wake_cases g t.now with hw | ⟨s, hs, rfl, hdue, hw⟩
  · have heq : t.act (.wake g) = t := by simp [Timing.act, hw]
    rw [heq]
    exact .inl h
  · have htimers : (t.act (.wake s.generation)).timers = t.timers.silence s.generation := by
      simp [Timing.act, hw]
    have hfired : (t.act (.wake s.generation)).fired = (s, t.now) :: t.fired := by
      simp [Timing.act, hw]
    have hold := h.firings
    rw [Timing.firings] at hold
    by_cases hx : s.generation = x.generation
    · obtain rfl := h.sound.orderly.sleeper_inj s hs x h.mem hx
      have hnow : t.now = s.due := Nat.le_antisymm h.now_le hdue
      have hle := h.sound.orderly.sleeper_le s hs
      refine .inr ⟨?_, hdue, fun r hr => ?_, Nat.le_trans hle (latest_le_act t _)⟩
      · rw [Timing.firings, hfired, List.filter_cons_of_pos (by simp), hold, hnow]
      · rw [htimers] at hr
        exact (KeyedTimers.mem_sleepers_silence.mp hr).2
    · refine .inl ⟨h.sound.act _, ?_, ?_, h.now_le⟩
      · rw [htimers]
        exact KeyedTimers.mem_sleepers_silence.mpr ⟨h.mem, Ne.symm hx⟩
      · rw [Timing.firings, hfired, List.filter_cons_of_neg (by simpa using hx), hold]

/-- As long as no timer fires, a timer has not fired. -/
theorem Asleep.firings_act (h : t.Asleep x) (hwake : ∀ g, a ≠ .wake g) :
    Timing.firings x.generation (t.act a) = [] := by
  cases a with
  | wake g => exact absurd rfl (hwake g)
  | _ => exact h.firings

/-- What becomes of a timer in a step: it is stopped, or else it has not fired yet or has fired. -/
theorem Asleep.act (h : t.Asleep x) (hallows : t.Allows a) :
    Stops x t a ∧ (t.act a).Stopped x ∨
      ¬ Stops x t a ∧ ((t.act a).Asleep x ∨ (t.act a).Fired x) := by
  by_cases hwake : ∃ g, a = .wake g
  · obtain ⟨g, rfl⟩ := hwake
    exact .inr ⟨fun hstops => hstops, h.act_wake g⟩
  · replace hwake : ∀ g, a ≠ .wake g := fun g ha => hwake ⟨g, ha⟩
    have hmem := h.mem_sleepers_act_iff hwake
    have hfirings := h.firings_act hwake
    have hle := h.sound.orderly.sleeper_le x h.mem
    by_cases hstops : Stops x t a
    · refine .inl ⟨hstops, hfirings, fun s hs heq => ?_, Nat.le_trans hle (latest_le_act t a)⟩
      rcases mem_sleepers_act_cases hs with hs' | hnew
      · obtain rfl := h.sound.orderly.sleeper_inj s hs' x h.mem heq
        exact hmem.mp hs hstops
      · omega
    · refine .inr ⟨hstops, .inl ⟨h.sound.act a, hmem.mpr hstops, hfirings, ?_⟩⟩
      cases a with
      | pass span => exact hallows x h.mem
      | _ => exact h.now_le

/-- A timer that has fired stays so, and it is too late to stop it before its moment. -/
theorem Fired.actAll (h : t.Fired x) (steps : List (Step κ)) :
    (t.actAll steps).Fired x ∧ ¬ Sometime (fun t a => t.now < x.due ∧ Stops x t a) t steps := by
  induction steps generalizing t with
  | nil => exact ⟨h, fun hsome => hsome⟩
  | cons a steps ih =>
    obtain ⟨hfired, hnot⟩ := ih (h.act a)
    refine ⟨hfired, ?_⟩
    rintro (⟨hlt, -⟩ | hsome)
    · have := h.due_le
      omega
    · exact hnot hsome

theorem Stopped.actAll (h : t.Stopped x) (steps : List (Step κ)) : (t.actAll steps).Stopped x :=
  invariant_actAll (fun _ a ht => ht.act a) h steps

/-- What becomes of a timer in a run: it is stopped, before it is due or when it is ready to fire, or
it was not stopped before it is due, and it has not fired yet or has fired.

**Proof sketch.** By induction on the run. As long as the timer has not fired, its time is not over,
so a step that stops it comes before it is due or finds it ready. What has fired stays so. -/
theorem Asleep.actAll (h : t.Asleep x) (hallows : Along Allows t steps) :
    (t.actAll steps).Stopped x ∧
        Sometime (fun t a => (t.now < x.due ∨ IsReady x t) ∧ Stops x t a) t steps ∨
      ((t.actAll steps).Asleep x ∨ (t.actAll steps).Fired x) ∧
        ¬ Sometime (fun t a => t.now < x.due ∧ Stops x t a) t steps := by
  induction steps generalizing t with
  | nil => exact .inr ⟨.inl h, fun hsome => hsome⟩
  | cons a steps ih =>
    rcases h.act hallows.1 with ⟨hstops, hstopped⟩ | ⟨hstops, hasleep | hfired⟩
    · refine .inl ⟨hstopped.actAll steps, .inl ⟨?_, hstops⟩⟩
      rcases Nat.lt_or_ge t.now x.due with hlt | hle
      · exact .inl hlt
      · exact .inr ⟨h.mem, hle⟩
    · rcases ih hasleep hallows.2 with ⟨hstopped, hsome⟩ | ⟨hrest, hnot⟩
      · exact .inl ⟨hstopped, .inr hsome⟩
      · refine .inr ⟨hrest, ?_⟩
        rintro (⟨-, hstops'⟩ | hsome)
        · exact hstops hstops'
        · exact hnot hsome
    · obtain ⟨hrest, hnot⟩ := hfired.actAll steps
      refine .inr ⟨.inr hrest, ?_⟩
      rintro (⟨-, hstops'⟩ | hsome)
      · exact hstops hstops'
      · exact hnot hsome

/-- A step that stops a timer comes before the timer is due, if none comes when it is ready. -/
theorem sometime_of_along
    (hsome : Sometime (fun t a => (t.now < x.due ∨ IsReady x t) ∧ Stops x t a) t steps)
    (hready : Along (fun t a => IsReady x t → ¬ Stops x t a) t steps) :
    Sometime (fun t a => t.now < x.due ∧ Stops x t a) t steps := by
  induction steps generalizing t with
  | nil => exact hsome
  | cons a steps ih =>
    rcases hsome with ⟨hlt | hnow, hstops⟩ | hsome
    · exact .inl ⟨hlt, hstops⟩
    · exact absurd hstops (hready.1 hnow)
    · exact .inr (ih hsome hready.2)

/-- A timer that has not fired yet fires on time. -/
theorem Asleep.firesOnTime (h : t.Asleep x) (hallows : Along Allows t steps) :
    FiresOnTime x t steps := by
  rcases h.actAll hallows with ⟨hstopped, hsome⟩ | ⟨hrest, hnot⟩
  · refine ⟨.inl hstopped.firings, fun _ => hstopped.firings, fun hready _ _ => ?_⟩
    rw [hstopped.firings]
    simpa using sometime_of_along hsome hready
  · refine ⟨?_, fun hsome => absurd hsome hnot, fun _ hdue hready => ?_⟩
    · rcases hrest with hasleep | hfired
      · exact .inl hasleep.firings
      · exact .inr hfired.firings
    · rcases hrest with hasleep | hfired
      · exact absurd ⟨hasleep.mem, hdue⟩ hready
      · simpa [hfired.firings] using hnot

/-- A timer that was just scheduled has not fired yet. -/
theorem Sound.asleep_newTimer (h : t.Sound) (k : κ) (delay : Nat) :
    (t.act (.schedule k delay)).Asleep (t.newTimer k delay) where
  sound := h.act _
  mem := KeyedTimers.mem_sleepers_schedule.mpr
    (.inl (by rw [newTimer, KeyedTimers.fst_schedule]))
  firings := by
    refine List.filter_eq_nil_iff.mpr fun f hf => ?_
    have hle := h.fired_le f hf
    rw [decide_eq_true_iff, generation_newTimer]
    omega
  now_le := Nat.le_add_right _ _

/-- **Timers fire on time.** Take any run in which the owner of a set of timers schedules, cancels and
completes them for any keys and with any delays, and lets go of them at some point, while time passes
and timers fire. The generations that are given out increase, each by one. Each key has one slot at
most, with the generation of its latest timer, as long as it was not taken away since. A generation
is confirmed if and only if it is in the slot of the key, and so it is confirmed once at most. And
each timer that is scheduled fires when its delay is over, which is cut to the longest wait there is:
at most once, with its own generation, and if and only if it was not stopped before.

**Proof sketch.** Whose generation is in a slot is read off the last step that has put one there or
taken it away. A timer that has not fired is in the way of time, so it fires at its moment or is
stopped; a timer that is gone does not come back, since generations are given out once. -/
theorem timers_fire_on_time (now : Nat) (steps : List (Step κ))
    (hallows : Along Allows (start now) steps) :
    let t := (start now).actAll steps
    let given := generations (start now) steps
    given.Pairwise (· < ·) ∧ (∀ g ∈ given, g ≤ given.length) ∧
    (t.timers.slots.map (·.1)).Nodup ∧
    (∀ k g, t.timers.generation? k = some g ↔ IsLatest k g (start now) steps) ∧
    (∀ k g, (t.timers.complete k g).1 = true ↔ IsLatest k g (start now) steps) ∧
    (∀ before k between j after g,
      steps = before ++ .complete k g :: between ++ .complete j g :: after →
      (((start now).actAll before).timers.complete k g).1 = true →
      (((start now).actAll (before ++ .complete k g :: between)).timers.complete j g).1 = false) ∧
    (∀ before k delay after, steps = before ++ .schedule k delay :: after →
      let s := (start now).actAll before
      FiresOnTime ⟨k, (s.newTimer k delay).generation, s.now + min delay longestWait⟩
        (s.act (.schedule k delay)) after) := by
  intro t given
  have hsound (before : List (Step κ)) : ((start now).actAll before).Sound :=
    (sound_start now).actAll before
  have hgiven : given = List.range' 1 given.length := generations_eq (start now) steps
  have hslot (k : κ) (g : Nat) : t.timers.generation? k = some g ↔ IsLatest k g (start now) steps :=
    generation?_actAll_iff rfl steps
  refine ⟨?_, fun g hg => ?_, (hsound steps).oneSlotPerKey, hslot, fun k g => ?_, ?_, ?_⟩
  · rw [hgiven]
    exact List.pairwise_lt_range'
  · rw [hgiven, List.mem_range'_1] at hg
    omega
  · rw [KeyedTimers.fst_complete, decide_eq_true_iff]
    exact hslot k g
  · intro before k between j after g _ hconfirmed
    rw [actAll_append, actAll_cons]
    exact (hsound before).complete_eq_false_of_complete hconfirmed between
  · rintro before k delay after rfl s
    obtain ⟨-, -, hafter⟩ := along_append.mp hallows
    exact ((hsound before).asleep_newTimer k delay).firesOnTime hafter

/-- A timer of `a` is replaced before it is due. The one of `b` fires, and cancelling it then comes
too late. -/
def overlapping : List (Step String) :=
  [.schedule "a" 5, .schedule "b" 3, .pass 3, .wake 2, .cancel "b", .schedule "a" 4, .pass 4,
    .wake 3, .complete "a" 3]

/-- Of three timers the first one was replaced, and the others have fired when they were due. -/
theorem overlapping_timers_fire :
    let t := (start 0).actAll overlapping
    firings 1 t = [] ∧ firings 2 t = [(⟨"b", 2, 3⟩, 3)] ∧ firings 3 t = [(⟨"a", 3, 7⟩, 7)] := by
  obtain ⟨-, -, -, -, -, -, hfires⟩ :=
    timers_fire_on_time 0 overlapping (by decide +kernel)
  have hfirst := hfires [] "a" 5 (overlapping.drop 1) rfl
  have hsecond := hfires (overlapping.take 1) "b" 3 (overlapping.drop 2) rfl
  have hthird := hfires (overlapping.take 5) "a" 4 (overlapping.drop 6) rfl
  refine ⟨hfirst.of_stopped (by decide +kernel), ?_, ?_⟩
  · exact (hsecond.fires_iff (by decide +kernel) (by decide +kernel) (by decide +kernel)).mpr
      (by decide +kernel)
  · exact (hthird.fires_iff (by decide +kernel) (by decide +kernel) (by decide +kernel)).mpr
      (by decide +kernel)

/-- A timer with a delay of more than the longest wait fires before its delay is over, and a timer that
is due can still be stopped before it fires. -/
theorem long_delay_is_cut_and_due_timer_stopped :
    let delay := longestWait + 1
    let early : List (Step String) := [.schedule "a" delay, .pass longestWait, .wake 1]
    let late : List (Step String) := [.schedule "a" 5, .pass 5, .cancel "a", .wake 1]
    (Along Allows (start 0) early ∧ ¬ ∀ f ∈ ((start 0).actAll early).fired, f.2 = 0 + delay) ∧
      Along Allows (start 0) late ∧
        ¬ Sometime (fun t a => t.now < 5 ∧ Stops ⟨"a", 1, 5⟩ t a) (start 0) late ∧
        5 ≤ ((start 0).actAll late).now ∧ ((start 0).actAll late).fired = [] := by
  decide +kernel

end Timing

end DenialMonitor
