import DenialMonitor.Timers.Keyed

set_option autoImplicit false

/-!
# Timers that have not fired

A set of keyed timers that was built up from nothing is orderly: the generations in use are not
above the latest one, no generation is in use twice, and a timer that has not fired belongs to the
key that holds its generation. All operations keep this. Since a new timer has a generation above
all those in use, whatever still goes around with an earlier generation cannot be taken for it.

## Main definitions

* `KeyedTimers.pending?` — the pending timer of a key, with the moment at which it fires.
* `KeyedTimers.Orderly` — the invariant.

## Main results

* `KeyedTimers.mem_sleepers_schedule`, `KeyedTimers.mem_sleepers_cancel`,
  `KeyedTimers.mem_sleepers_wake` — the timers that have not fired after an operation.
* `KeyedTimers.Orderly.schedule`, `KeyedTimers.Orderly.cancel`, `KeyedTimers.Orderly.cancelAll`,
  `KeyedTimers.Orderly.release`, `KeyedTimers.Orderly.wake` — each operation keeps the invariant.
-/

namespace DenialMonitor.KeyedTimers

variable {κ : Type}

/-! ## The timers that have not fired -/

theorem mem_sleepers_silence {t : KeyedTimers κ} {g : Nat} {s : Sleeper κ} :
    s ∈ (t.silence g).sleepers ↔ s ∈ t.sleepers ∧ s.generation ≠ g := by
  simp [silence]

theorem mem_of_mem_sleepers_cancelAll {t : KeyedTimers κ} {s : Sleeper κ}
    (h : s ∈ t.cancelAll.sleepers) : s ∈ t.sleepers :=
  (List.mem_filter.mp h).1

/-- A timer that fires is one whose time is over, and no timer with its generation is left. -/
theorem wake_cases (t : KeyedTimers κ) (g now : Nat) :
    t.wake g now = (none, t) ∨
      ∃ s ∈ t.sleepers, s.generation = g ∧ s.due ≤ now ∧ t.wake g now = (some s, t.silence g) := by
  unfold wake
  cases h : t.sleepers.find? fun s => s.generation = g ∧ s.due ≤ now with
  | none => exact .inl rfl
  | some s =>
    have hs := List.find?_some h
    simp only [decide_eq_true_eq] at hs
    exact .inr ⟨s, List.mem_of_find?_eq_some h, hs.1, hs.2, rfl⟩

@[simp]
theorem latest_wake (t : KeyedTimers κ) (g now : Nat) : (t.wake g now).2.latest = t.latest := by
  rcases t.wake_cases g now with h | ⟨s, -, -, -, h⟩ <;> rw [h]
  rfl

/-- A timer that has not fired stays unless one with its generation fires. -/
theorem mem_sleepers_wake {t : KeyedTimers κ} {g now : Nat} {s : Sleeper κ}
    (h : s ∈ t.sleepers) (hg : s.generation ≠ g) : s ∈ (t.wake g now).2.sleepers := by
  rcases t.wake_cases g now with hw | ⟨_, -, -, -, hw⟩ <;> rw [hw]
  · exact h
  · exact mem_sleepers_silence.mpr ⟨h, hg⟩

theorem mem_of_mem_sleepers_wake {t : KeyedTimers κ} {g now : Nat} {s : Sleeper κ}
    (h : s ∈ (t.wake g now).2.sleepers) : s ∈ t.sleepers := by
  rcases t.wake_cases g now with hw | ⟨_, -, -, -, hw⟩ <;> rw [hw] at h
  · exact h
  · exact (mem_sleepers_silence.mp h).1

/-- Where no timer is ready to fire, the time of none is over. -/
theorem lt_due_of_ready?_eq_none {t : KeyedTimers κ} {now : Nat} (h : t.ready? now = none) :
    ∀ s ∈ t.sleepers, now < s.due := by
  intro s hs
  have hfired : (t.fire now).1 = [] := List.head?_eq_none_iff.mp h
  have hlength := congrArg List.length hfired
  simp only [fire, List.length_mergeSort, List.partition_eq_filter_filter, List.length_nil,
    List.length_eq_zero_iff, List.filter_eq_nil_iff] at hlength
  simpa using hlength s hs

/-- The moment at which the next timer fires is not after the due moment of any. -/
theorem nextDue?_le {t : KeyedTimers κ} {s : Sleeper κ} (hs : s ∈ t.sleepers) :
    ∃ due ∈ t.nextDue?, due ≤ s.due := by
  have hmem : s.due ∈ t.sleepers.map (·.due) := List.mem_map.mpr ⟨s, hs, rfl⟩
  cases h : t.nextDue? with
  | none =>
    have hnil : t.sleepers.map (·.due) = [] := List.min?_eq_none_iff.mp h
    simp [hnil] at hmem
  | some due => exact ⟨due, rfl, (List.min?_eq_some_iff.mp h).2 s.due hmem⟩

variable [DecidableEq κ]

/-- Cancelling the timer of a key keeps the timer with its generation from firing. -/
theorem mem_sleepers_cancel {t : KeyedTimers κ} {k : κ} {s : Sleeper κ} :
    s ∈ (t.cancel k).2.sleepers ↔ s ∈ t.sleepers ∧ t.generation? k ≠ some s.generation := by
  unfold cancel
  split
  · next g hg =>
    rw [mem_sleepers_silence, hg]
    simp [release, eq_comm]
  · next hg => simp [hg]

/-- A new timer comes in place of the one that its key had. -/
theorem mem_sleepers_schedule {t : KeyedTimers κ} {k : κ} {due : Nat} {s : Sleeper κ} :
    s ∈ (t.schedule k due).2.sleepers ↔
      s = ⟨k, t.latest + 1, due⟩ ∨ (s ∈ t.sleepers ∧ t.generation? k ≠ some s.generation) := by
  rw [← mem_sleepers_cancel]
  simp [schedule, latest_cancel]

/-- The pending timer of `k`: its generation, and when it fires, unless it has fired. -/
def pending? (t : KeyedTimers κ) (k : κ) : Option (Nat × Option Nat) :=
  (t.generation? k).map fun g => (g, (t.sleepers.find? (·.generation = g)).map (·.due))

@[simp]
theorem generation?_wake (t : KeyedTimers κ) (g now : Nat) (k : κ) :
    (t.wake g now).2.generation? k = t.generation? k := by
  rcases t.wake_cases g now with h | ⟨s, -, -, -, h⟩ <;> rw [h]
  rfl

/-! ## The invariant -/

/-- Generations are in use at most once, and none is above the latest one. -/
structure Orderly (t : KeyedTimers κ) : Prop where
  slot_le : ∀ k g, t.generation? k = some g → g ≤ t.latest
  sleeper_le : ∀ s ∈ t.sleepers, s.generation ≤ t.latest
  slot_inj : ∀ j k g, t.generation? j = some g → t.generation? k = some g → j = k
  sleeper_inj : ∀ s ∈ t.sleepers, ∀ r ∈ t.sleepers, s.generation = r.generation → s = r
  key_eq : ∀ s ∈ t.sleepers, ∀ k, t.generation? k = some s.generation → s.key = k

namespace Orderly

variable {t : KeyedTimers κ}

/-- Operations that only take slots and timers away keep the invariant. -/
theorem of_le {u : KeyedTimers κ} (h : t.Orderly) (hl : u.latest = t.latest)
    (hslot : ∀ k g, u.generation? k = some g → t.generation? k = some g)
    (hsleep : ∀ s ∈ u.sleepers, s ∈ t.sleepers) : u.Orderly where
  slot_le k g hk := hl ▸ h.slot_le k g (hslot k g hk)
  sleeper_le s hs := hl ▸ h.sleeper_le s (hsleep s hs)
  slot_inj j k g hj hk := h.slot_inj j k g (hslot j g hj) (hslot k g hk)
  sleeper_inj s hs r hr := h.sleeper_inj s (hsleep s hs) r (hsleep r hr)
  key_eq s hs k hk := h.key_eq s (hsleep s hs) k (hslot k _ hk)

theorem empty : (empty : KeyedTimers κ).Orderly where
  slot_le k g hk := by simp at hk
  sleeper_le s hs := by simp [KeyedTimers.empty] at hs
  slot_inj j k g hj := by simp at hj
  sleeper_inj s hs := by simp [KeyedTimers.empty] at hs
  key_eq s hs := by simp [KeyedTimers.empty] at hs

theorem cancel (h : t.Orderly) (k : κ) : (t.cancel k).2.Orderly := by
  refine h.of_le (latest_cancel t k) (fun j g hj => ?_) fun s hs => (mem_sleepers_cancel.mp hs).1
  rw [generation?_cancel] at hj
  split at hj
  · simp at hj
  · exact hj

theorem cancelAll (h : t.Orderly) : t.cancelAll.Orderly := by
  refine h.of_le rfl (fun j g hj => ?_) fun s hs => mem_of_mem_sleepers_cancelAll hs
  simp [generation?_cancelAll] at hj

theorem release (h : t.Orderly) (k : κ) : (t.release k).Orderly := by
  refine h.of_le rfl (fun j g hj => ?_) fun s hs => hs
  rw [generation?_release] at hj
  split at hj
  · simp at hj
  · exact hj

theorem wake (h : t.Orderly) (g now : Nat) : (t.wake g now).2.Orderly :=
  h.of_le (latest_wake t g now) (fun k g' hk => by simpa using hk)
    fun s hs => mem_of_mem_sleepers_wake hs

/-- A new timer has a generation of its own, so the invariant is kept.

**Proof sketch.** The slots and timers of other keys were there before, with generations up to the
latest one. The slot of `k` and the new timer have the generation above it. -/
theorem schedule (h : t.Orderly) (k : κ) (due : Nat) : (t.schedule k due).2.Orderly := by
  have slot {j : κ} {g : Nat} (hj : (t.schedule k due).2.generation? j = some g) :
      (j = k ∧ g = t.latest + 1) ∨ (j ≠ k ∧ t.generation? j = some g) := by
    rw [generation?_schedule, fst_schedule] at hj
    split at hj
    · next hjk => exact .inl ⟨hjk, by simpa using hj.symm⟩
    · next hjk => exact .inr ⟨hjk, hj⟩
  refine ⟨fun j g hj => ?_, fun s hs => ?_, fun i j g hi hj => ?_, fun s hs r hr hsr => ?_,
    fun s hs j hj => ?_⟩
  · rw [latest_schedule]
    rcases slot hj with ⟨-, rfl⟩ | ⟨-, hj⟩
    · exact Nat.le_refl _
    · exact Nat.le_succ_of_le (h.slot_le j g hj)
  · rw [latest_schedule]
    rcases mem_sleepers_schedule.mp hs with rfl | ⟨hs, -⟩
    · exact Nat.le_refl _
    · exact Nat.le_succ_of_le (h.sleeper_le s hs)
  · rcases slot hi with ⟨hik, hg⟩ | ⟨-, hi'⟩ <;> rcases slot hj with ⟨hjk, hg'⟩ | ⟨-, hj'⟩
    · rw [hik, hjk]
    · exact absurd (h.slot_le j g hj') (by omega)
    · exact absurd (h.slot_le i g hi') (by omega)
    · exact h.slot_inj i j g hi' hj'
  · rcases mem_sleepers_schedule.mp hs with rfl | ⟨hs, -⟩ <;>
      rcases mem_sleepers_schedule.mp hr with rfl | ⟨hr, -⟩
    · rfl
    · exact absurd (h.sleeper_le r hr) (by simp only at hsr; omega)
    · exact absurd (h.sleeper_le s hs) (by simp only at hsr; omega)
    · exact h.sleeper_inj s hs r hr hsr
  · rcases mem_sleepers_schedule.mp hs with rfl | ⟨hs', -⟩ <;>
      rcases slot hj with ⟨hjk, hg⟩ | ⟨-, hj'⟩
    · exact hjk.symm
    · exact absurd (h.slot_le j _ hj') (by simp)
    · exact absurd (h.sleeper_le s hs') (by omega)
    · exact h.key_eq s hs' j hj'

/-- Cancelling the timer of a key leaves those of other keys alone, with the moments at which they
fire. -/
theorem pending?_cancel (h : t.Orderly) (j k : κ) :
    (t.cancel k).2.pending? j = if j = k then none else t.pending? j := by
  rw [pending?, generation?_cancel]
  split
  · rfl
  · next hjk =>
    rw [pending?]
    cases hj : t.generation? j with
    | none => rfl
    | some g =>
      have hfind : (t.cancel k).2.sleepers.find? (·.generation = g) =
          t.sleepers.find? (·.generation = g) := by
        unfold KeyedTimers.cancel
        split
        · next g' hk =>
          have hne : g ≠ g' := by
            rintro rfl
            exact hjk (h.slot_inj j k g hj hk)
          simp only [silence, KeyedTimers.release, List.find?_filter]
          congr 1
          funext s
          by_cases hs : s.generation = g <;> simp [hs, hne]
        · rfl
      rw [Option.map_some, Option.map_some, hfind]

end Orderly

end DenialMonitor.KeyedTimers
