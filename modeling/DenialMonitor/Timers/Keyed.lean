set_option autoImplicit false

/-!
# Keyed timers

At most one timer is pending for each key. Every timer has a generation of its own, greater than
those before it. When its delay has run out, a timer fires with its generation, and whoever owns
the timers confirms the firing before acting on it: a timer that was cancelled or replaced after
it had fired is not confirmed.

A slot stays until its timer is completed, cancelled or replaced, also after the timer has fired.
Completing a timer takes its slot away and lets the timer run on.

## Main definitions

* `KeyedTimers` — slots by key, and the timers that have not fired yet.
* `KeyedTimers.schedule`, `KeyedTimers.cancel`, `KeyedTimers.cancelAll`, `KeyedTimers.complete` —
  what the owner does.
* `KeyedTimers.fire` — the timers whose delay has run out.
* `KeyedTimers.wake` — a single one of them fires.

## Main results

* `KeyedTimers.generation?_schedule`, `KeyedTimers.generation?_cancel`,
  `KeyedTimers.generation?_complete` — what each operation does to the pending timers.
-/

namespace DenialMonitor

/-- A timer that has not fired yet. -/
structure Sleeper (κ : Type) where
  key : κ
  generation : Nat
  /-- When it fires. -/
  due : Nat
  deriving DecidableEq, Repr

/-- One-shot timers, at most one pending for each key. Times are in milliseconds. -/
structure KeyedTimers (κ : Type) where
  /-- The generation of the pending timer of a key. -/
  slots : List (κ × Nat)
  sleepers : List (Sleeper κ)
  /-- The generation of the latest timer. -/
  latest : Nat
  deriving DecidableEq, Repr

namespace KeyedTimers

variable {κ : Type} [DecidableEq κ]

/-- No timers. -/
def empty : KeyedTimers κ :=
  ⟨[], [], 0⟩

/-- The generation of the pending timer of `k`. -/
def generation? (t : KeyedTimers κ) (k : κ) : Option Nat :=
  (t.slots.find? (·.1 = k)).map (·.2)

/-- Whether a timer of `k` is pending. -/
def isPending (t : KeyedTimers κ) (k : κ) : Bool :=
  (t.generation? k).isSome

/-- How many timers are pending. -/
def size (t : KeyedTimers κ) : Nat :=
  t.slots.length

/-- Takes the slot of `k` away. -/
def release (t : KeyedTimers κ) (k : κ) : KeyedTimers κ :=
  { t with slots := t.slots.filter (·.1 ≠ k) }

/-- Keeps the timer with generation `g` from firing. -/
def silence (t : KeyedTimers κ) (g : Nat) : KeyedTimers κ :=
  { t with sleepers := t.sleepers.filter (·.generation ≠ g) }

/-- Cancels the pending timer of `k`; the answer tells whether there was one. -/
def cancel (t : KeyedTimers κ) (k : κ) : Bool × KeyedTimers κ :=
  match t.generation? k with
  | some g => (true, (t.release k).silence g)
  | none => (false, t)

/-- Cancels every pending timer. -/
def cancelAll (t : KeyedTimers κ) : KeyedTimers κ :=
  { t with
    slots := []
    sleepers := t.sleepers.filter fun s => (t.slots.all fun p => p.2 ≠ s.generation) }

/-- Schedules a timer of `k` that fires at `due`, in place of the pending one. The answer is its
generation. -/
def schedule (t : KeyedTimers κ) (k : κ) (due : Nat) : Nat × KeyedTimers κ :=
  let t := (t.cancel k).2
  let g := t.latest + 1
  (g, ⟨(k, g) :: t.slots, ⟨k, g, due⟩ :: t.sleepers, g⟩)

/-- Confirms that the timer of `k` with generation `g` is the pending one, and takes its slot
away. -/
def complete (t : KeyedTimers κ) (k : κ) (g : Nat) : Bool × KeyedTimers κ :=
  if t.generation? k = some g then (true, t.release k) else (false, t)

/-- Keeps every timer from firing. -/
def drop (t : KeyedTimers κ) : KeyedTimers κ :=
  { t with sleepers := [] }

/-- When the next timer fires. -/
def nextDue? (t : KeyedTimers κ) : Option Nat :=
  (t.sleepers.map (·.due)).min?

/-- The timers that have fired by `now`, by time and generation, and those that have not. -/
def fire (t : KeyedTimers κ) (now : Nat) : List (Sleeper κ) × KeyedTimers κ :=
  let (fired, asleep) := t.sleepers.partition (·.due ≤ now)
  (fired.mergeSort fun a b => a.due < b.due || (a.due == b.due && a.generation ≤ b.generation),
    { t with sleepers := asleep })

/-- The next timer to fire among those whose delay has run out by `now`. -/
def ready? (t : KeyedTimers κ) (now : Nat) : Option (Sleeper κ) :=
  (t.fire now).1.head?

/-- The timer with generation `g` fires, if its delay has run out by `now`. -/
def wake (t : KeyedTimers κ) (g now : Nat) : Option (Sleeper κ) × KeyedTimers κ :=
  match t.sleepers.find? fun s => s.generation = g ∧ s.due ≤ now with
  | some s => (some s, t.silence g)
  | none => (none, t)

/-! ## The generation of the pending timer -/

@[simp]
theorem generation?_empty (k : κ) : (empty : KeyedTimers κ).generation? k = none :=
  rfl

/-- Taking a slot away leaves the other slots alone. -/
theorem generation?_release (t : KeyedTimers κ) (j k : κ) :
    (t.release k).generation? j = if j = k then none else t.generation? j := by
  unfold release generation?
  rw [List.find?_filter]
  split
  · next h =>
    subst h
    rw [Option.map_eq_none_iff, List.find?_eq_none]
    intro p _
    simp
  · next h =>
    congr 2
    funext p
    by_cases hp : p.1 = j
    · simp [hp, h]
    · simp [hp]

@[simp]
theorem generation?_silence (t : KeyedTimers κ) (g : Nat) (k : κ) :
    (t.silence g).generation? k = t.generation? k :=
  rfl

/-- Cancelling the timer of a key leaves the other keys alone. -/
theorem generation?_cancel (t : KeyedTimers κ) (j k : κ) :
    (t.cancel k).2.generation? j = if j = k then none else t.generation? j := by
  unfold cancel
  split
  · simp [generation?_release]
  · next h =>
    split
    · next hj => rw [hj, h]
    · rfl

/-- After all timers are cancelled no key has one. -/
theorem generation?_cancelAll (t : KeyedTimers κ) (k : κ) : t.cancelAll.generation? k = none :=
  rfl

/-- The pending timer of a key is the one that was scheduled last. -/
theorem generation?_schedule (t : KeyedTimers κ) (j k : κ) (due : Nat) :
    (t.schedule k due).2.generation? j =
      if j = k then some (t.schedule k due).1 else t.generation? j := by
  by_cases h : j = k
  · simp [schedule, generation?, h]
  · have hc := generation?_cancel t j k
    simp only [h, if_false] at hc ⊢
    rw [← hc]
    simp [schedule, generation?, Ne.symm h]

/-- Completing a timer takes the slot of its key away only if it is the pending one. -/
theorem generation?_complete (t : KeyedTimers κ) (j k : κ) (g : Nat) :
    (t.complete k g).2.generation? j =
      if j = k ∧ t.generation? k = some g then none else t.generation? j := by
  unfold complete
  split
  · next h => simp [generation?_release, h]
  · next h => simp [h]

/-- Only the pending timer of a key is confirmed. -/
theorem fst_complete (t : KeyedTimers κ) (k : κ) (g : Nat) :
    (t.complete k g).1 = decide (t.generation? k = some g) := by
  unfold complete
  split <;> simp_all

theorem latest_cancel (t : KeyedTimers κ) (k : κ) : (t.cancel k).2.latest = t.latest := by
  unfold cancel
  split <;> rfl

/-- A new timer has the generation behind the latest one. -/
theorem fst_schedule (t : KeyedTimers κ) (k : κ) (due : Nat) :
    (t.schedule k due).1 = t.latest + 1 := by
  simp [schedule, latest_cancel]

theorem latest_schedule (t : KeyedTimers κ) (k : κ) (due : Nat) :
    (t.schedule k due).2.latest = t.latest + 1 := by
  simp [schedule, latest_cancel]

end KeyedTimers

end DenialMonitor
