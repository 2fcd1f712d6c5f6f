import DenialMonitor.Decimal.Shortest

set_option autoImplicit false

/-!
# Waits between attempts

A watch that was lost is opened again after a wait, and after a longer wait each time that fails.
Each wait is twice the one before while that is below the greatest wait, and is cut to the
greatest wait. Doubling is done in seconds with 24 significant bits and rounded to nanoseconds.

## Main definitions

* `RearmDelays` — the first and the greatest wait.
* `RearmDelays.start`, `RearmDelays.next` — the waits, in nanoseconds.
* `Backoff.double` — twice a wait.
-/

namespace DenialMonitor

namespace Backoff

/-- The whole number nearest to `num / den`; of two equally near ones the even one. -/
def roundQuotient (num den : Nat) : Nat :=
  let q := num / den
  let twice := 2 * (num % den)
  if twice < den ∨ (twice = den ∧ q % 2 = 0) then q else q + 1

/-- The first of 24 significant bits, `2 ^ 23`. -/
def leadingBit : Nat := 0x800000

/-- The fraction nearest to `num / den` that has 24 significant bits. -/
def toSingle (num den : Nat) : Nat × Nat :=
  if num = 0 then (0, 1)
  else
    let shift : Int := 23 - ((Nat.log2 num : Int) - Nat.log2 den)
    let (n, d) := Decimal.scaled num 2 shift
    let shift := if n < leadingBit * (d * den) then shift + 1 else shift
    let (n, d) := Decimal.scaled num 2 shift
    Decimal.scaled (roundQuotient n (d * den)) 2 (-shift)

/-- How many nanoseconds a second has. -/
def nanosecondsPerSecond : Nat := 1000000000

/-- A wait in seconds: the whole seconds and the rest of it are rounded each for itself before
they are added. -/
def seconds (wait : Nat) : Nat × Nat :=
  let whole := toSingle (wait / nanosecondsPerSecond) 1
  let rest := toSingle (wait % nanosecondsPerSecond) 1
  let part := toSingle rest.1 (rest.2 * nanosecondsPerSecond)
  toSingle (whole.1 * part.2 + part.1 * whole.2) (whole.2 * part.2)

/-- Twice a wait. -/
def double (wait : Nat) : Nat :=
  roundQuotient (2 * (seconds wait).1 * nanosecondsPerSecond) (seconds wait).2

/-- How many nanoseconds a millisecond has. -/
def nanosecondsPerMillisecond : Nat := 1000000

/-- A wait in milliseconds, rounded up. -/
def milliseconds (wait : Nat) : Nat :=
  (wait + (nanosecondsPerMillisecond - 1)) / nanosecondsPerMillisecond

end Backoff

/-- The waits before a watch that was lost is opened again, in milliseconds. -/
structure RearmDelays where
  /-- Before the first attempt. -/
  first : Nat
  /-- No later wait is longer than this one. -/
  greatest : Nat
  deriving DecidableEq, Repr

namespace RearmDelays

/-- The wait before the first attempt, in nanoseconds. -/
def start (r : RearmDelays) : Nat :=
  r.first * Backoff.nanosecondsPerMillisecond

/-- The wait after a failed attempt, from the wait before it. -/
def next (r : RearmDelays) (wait : Nat) : Nat :=
  let greatest := r.greatest * Backoff.nanosecondsPerMillisecond
  min (if wait < greatest then Backoff.double wait else wait) greatest

end RearmDelays

end DenialMonitor
