set_option autoImplicit false

/-!
# Due moments

A wait that begins now is over at its due moment. Time moves from one due moment to the next. At
each of them everything that is due happens before time moves on.

## Main definitions

* `dueAfter` — when a wait is over.
* `visitDue` — visits the due moments up to a target.
-/

namespace DenialMonitor

/-- The longest wait: thirty years of 365 days, in milliseconds. -/
def longestWait : Nat := 946080000000

/-- When a wait of `delay` that begins at `now` is over. -/
def dueAfter (now delay : Nat) : Nat :=
  now + min delay longestWait

/-- Visits the moments that `due?` gives, in order, as long as they do not lie beyond `target`. At
most `fuel` moments are visited. -/
def visitDue {σ : Type} (due? : σ → Option Nat) (visit : Nat → σ → σ) (target : Nat) :
    Nat → σ → σ
  | 0, s => s
  | fuel + 1, s =>
    match due? s with
    | none => s
    | some t => if t ≤ target then visitDue due? visit target fuel (visit t s) else s

/-- Visits the due moments in the `span` behind `now`. There is one for each millisecond at
most. -/
def visitSpan {σ : Type} (due? : σ → Option Nat) (visit : Nat → σ → σ) (now span : Nat) (s : σ) :
    σ :=
  visitDue due? visit (now + span) (span + 1) s

/-- The earlier one of two moments that may be missing. -/
def earlier? : Option Nat → Option Nat → Option Nat
  | none, b => b
  | a, none => a
  | some a, some b => some (min a b)

end DenialMonitor
