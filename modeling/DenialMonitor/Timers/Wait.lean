import DenialMonitor.Timers.Timeline

set_option autoImplicit false

/-!
# Waits that can be cancelled

A wait ends when its delay has run out or when it is cancelled, whichever comes first. Where both
come at the same moment either may win; this module lets the delay win then, except that a wait
that is cancelled from its start never gets going.

## Main definitions

* `Wait.End` — how and when a wait ended.
* `Wait.run` — a wait from its start to its end.
* `Wait.Allowed` — the ends that a wait may come to.

## Main results

* `Wait.allowed_run` — a wait comes to an end that it may come to.
* `Wait.eq_run_of_allowed` — it has no choice unless both come at the same moment.
-/

namespace DenialMonitor.Wait

/-- How and when a wait ended. -/
inductive End where
  | elapsed (time : Nat)
  | cancelled (time : Nat)
  deriving DecidableEq, Repr

/-- When a wait ended. -/
def End.time : End → Nat
  | .elapsed t => t
  | .cancelled t => t

/-- Whether the delay has run out. -/
def End.isElapsed : End → Bool
  | .elapsed _ => true
  | .cancelled _ => false

/-- A wait of `delay` from `start`, cancelled at `cancelAt` if given. -/
def run (start delay : Nat) (cancelAt : Option Nat) : End :=
  match cancelAt with
  | none => .elapsed (dueAfter start delay)
  | some c =>
    if c ≤ start then .cancelled start
    else if dueAfter start delay ≤ c then .elapsed (dueAfter start delay)
    else .cancelled c

/-- Whether a wait of `delay` from `start` may come to an end. -/
def Allowed (start delay : Nat) (cancelAt : Option Nat) : End → Prop
  | .elapsed t =>
    t = dueAfter start delay ∧ ∀ c, cancelAt = some c → dueAfter start delay ≤ max start c
  | .cancelled t => ∃ c, cancelAt = some c ∧ t = max start c ∧ t ≤ dueAfter start delay

variable {start delay : Nat} {cancelAt : Option Nat}

theorem start_le_dueAfter (start delay : Nat) : start ≤ dueAfter start delay :=
  Nat.le_add_right start _

/-- A wait comes to an end that it may come to. -/
theorem allowed_run (start delay : Nat) (cancelAt : Option Nat) :
    Allowed start delay cancelAt (run start delay cancelAt) := by
  have hstart := start_le_dueAfter start delay
  cases cancelAt with
  | none => exact ⟨rfl, fun c hc => nomatch hc⟩
  | some c =>
    unfold run
    dsimp only
    split
    · exact ⟨c, rfl, by omega, hstart⟩
    · split
      · refine ⟨rfl, fun c' hc' => ?_⟩
        cases hc'
        omega
      · exact ⟨c, rfl, by omega, by omega⟩

/-- It may come to another end only where it is cancelled at the moment when its delay runs out. -/
theorem eq_run_of_allowed {e : End} (h : Allowed start delay cancelAt e)
    (hapart : ∀ c, cancelAt = some c → max start c ≠ dueAfter start delay) :
    e = run start delay cancelAt := by
  have hstart := start_le_dueAfter start delay
  cases cancelAt with
  | none =>
    cases e with
    | elapsed t => exact congrArg End.elapsed h.1
    | cancelled t =>
      obtain ⟨c, hc, -⟩ := h
      cases hc
  | some c =>
    have hne := hapart c rfl
    unfold run
    dsimp only
    cases e with
    | elapsed t =>
      obtain ⟨rfl, hlate⟩ := h
      have hle := hlate c rfl
      rw [if_neg (by omega), if_pos (by omega)]
    | cancelled t =>
      obtain ⟨c', hc', rfl, hle⟩ := h
      cases hc'
      by_cases hearly : c ≤ start
      · rw [if_pos hearly, Nat.max_eq_left hearly]
      · rw [if_neg hearly, if_neg (by omega), Nat.max_eq_right (by omega)]

end DenialMonitor.Wait
