import DenialMonitor.Surroundings
import DenialMonitor.Timers.Timeline
import DenialMonitor.Watch.Backoff
import DenialMonitor.Watch.Notice

set_option autoImplicit false

/-!
# A watch on one file

A watch is armed on the file that its path names. Producers replace files by renaming another one
over them or by removing and recreating them, which leaves the watch on a file that is gone. A
watch that learns of it is given up, and after a wait the path is opened again, with a longer wait
after each failure, until the path names a file or the watch is cancelled.

A watch fires when it learns of a change and when it has been armed again, since nothing is heard
of changes in between.

## Main definitions

* `Watch` — an armed watch with the signals it has not handled, or a wait for the next attempt.
* `Watch.state` — watching, reopening, or stopped.
* `Watch.deliver` — the operating system sends a signal.
* `Watch.step` — the watch gets to run.
-/

namespace DenialMonitor

/-- What a watch is doing, as others see it. -/
inductive WatchState where
  | watching
  /-- The watch was lost; attempts to open it again are counted. -/
  | reopening (attempt : Nat)
  | stopped
  deriving DecidableEq, Repr

/-- What a watch is doing. -/
inductive Watch.Phase where
  /-- Armed on a file, with the signals that have not been handled, oldest first. -/
  | armed (file : FileId) (queue : List Signal)
  /-- Waiting for an attempt at the moment `due`, after a wait given in nanoseconds. -/
  | waiting (attempt due wait : Nat)
  | ended
  deriving DecidableEq, Repr

/-- A watch on the file at a path. -/
structure Watch where
  phase : Watch.Phase
  /-- Whether it has been asked to stop. -/
  cancelled : Bool
  deriving DecidableEq, Repr

namespace Watch

/-- A watch on a file. -/
def arm (file : FileId) : Watch :=
  ⟨.armed file [], false⟩

/-- What a watch is doing, as others see it. -/
def state (w : Watch) : WatchState :=
  match w.phase with
  | .armed _ _ => .watching
  | .waiting attempt _ _ => .reopening attempt
  | .ended => .stopped

/-- Whether the watch does nothing any more. -/
def hasEnded (w : Watch) : Bool :=
  w.phase = .ended

/-- Asks the watch to stop. -/
def cancel (w : Watch) : Watch :=
  { w with cancelled := true }

/-- Whether the operating system still sends signals. -/
def listens (w : Watch) : Bool :=
  match w.phase with
  | .armed _ queue => !queue.contains .closed
  | _ => false

/-- The operating system sends a signal. -/
def deliver (w : Watch) (signal : Signal) : Watch :=
  match w.phase with
  | .armed file queue =>
    if w.listens then { w with phase := .armed file (queue ++ [signal]) } else w
  | _ => w

/-- Whether the watch has something to do. -/
def isReady (w : Watch) (now : Nat) : Bool :=
  match w.phase with
  | .armed _ queue => w.cancelled || !queue.isEmpty
  | .waiting _ due _ => w.cancelled || due ≤ now
  | .ended => false

/-- When the watch has something to do, if nothing happens before. -/
def due? (w : Watch) : Option Nat :=
  match w.phase with
  | .waiting _ due _ => some due
  | _ => none

/-- How much the watch has to do at the moment. -/
def backlog (w : Watch) : Nat :=
  match w.phase with
  | .armed _ queue => queue.length + 2
  | .waiting _ _ _ => 1
  | .ended => 0

/-- Where counting attempts ends. -/
def maxAttempt : Nat := UInt32.size - 1

/-- Waits for an attempt. -/
def await (w : Watch) (now attempt wait : Nat) : Watch :=
  { w with phase := .waiting attempt (dueAfter now (Backoff.milliseconds wait)) wait }

/-- Gives the watched file up. -/
def lose (w : Watch) (delays : RearmDelays) (now : Nat) : Watch :=
  w.await now 1 delays.start

/-- Handles a signal that was received for `file`, with `rest` behind it. The answer tells whether
the watch fires. -/
def handle (w : Watch) (delays : RearmDelays) (path : String) (s : Surroundings) (file : FileId)
    (signal : Signal) (rest : List Signal) : Bool × Watch :=
  let stay := { w with phase := .armed file rest }
  match signal with
  | .failure => (false, stay)
  | .closed => (false, w.lose delays s.now)
  | .notice n =>
    match n.meaning with
    | .nothing => (false, stay)
    | .changed => (true, if s.file? path = some file then stay else w.lose delays s.now)
    | .invalidated => (true, w.lose delays s.now)

/-- Tries to open the path again. -/
def retry (w : Watch) (delays : RearmDelays) (path : String) (s : Surroundings)
    (attempt wait : Nat) : Bool × Watch :=
  match s.watchable? path with
  | some file => (true, { w with phase := .armed file [] })
  | none => (false, w.await s.now (min (attempt + 1) maxAttempt) (delays.next wait))

/-- The watch gets to run. Where its wait is over and it has been asked to stop at the same time,
`eager` says whether it tries once more. The answer tells whether it fires. -/
def step (w : Watch) (delays : RearmDelays) (path : String) (s : Surroundings) (eager : Bool) :
    Bool × Watch :=
  match w.phase with
  | .ended => (false, w)
  | .armed file queue =>
    if w.cancelled then (false, { w with phase := .ended })
    else
      match queue with
      | [] => (false, w)
      | signal :: rest => w.handle delays path s file signal rest
  | .waiting attempt due wait =>
    if due ≤ s.now ∧ (!w.cancelled ∨ eager) then w.retry delays path s attempt wait
    else if w.cancelled then (false, { w with phase := .ended })
    else (false, w)

end Watch

end DenialMonitor
