import DenialMonitor.LogTail.Reader
import DenialMonitor.Timers.Timeline

set_option autoImplicit false

/-!
# Following a log

A tailer follows at most one log at a time. Starting anew gives the log that was followed up, also
where the new one cannot be opened.

## Main definitions

* `LogTailer` — the readers that have not ended.
* `LogTailer.start`, `LogTailer.stop` — what the owner does.
* `LogTailer.deliver` — the operating system sends a signal about a path.
* `LogTailer.run` — one of the readers gets to run.
* `LogTailer.settle`, `LogTailer.advance` — the readers run until none has anything to do.
-/

namespace DenialMonitor

/-- The readers that have not ended. All of them but one have been asked to stop. -/
structure LogTailer where
  /-- The time between two looks at a log whose directory cannot be watched. -/
  interval : Nat
  readers : List LogReader
  deriving DecidableEq, Repr

namespace LogTailer

/-- A tailer that follows nothing. -/
def new (interval : Nat) : LogTailer :=
  ⟨interval, []⟩

/-- The reader of the log that is followed. -/
def active? (t : LogTailer) : Option LogReader :=
  t.readers.find? (!·.cancelled)

/-- Whether a log is followed. -/
def isTailing (t : LogTailer) : Bool :=
  t.active?.isSome

/-- The path of the log that is followed. -/
def path? (t : LogTailer) : Option String :=
  t.active?.map (·.cursor.path)

/-- Gives the log up that is followed. -/
def stop (t : LogTailer) : LogTailer :=
  { t with readers := (t.readers.map LogReader.cancel).filter (!·.hasEnded) }

/-- Follows the log at `path` from now on. The answer tells whether it can be opened. -/
def start (t : LogTailer) (path : String) (s : Surroundings) : Bool × LogTailer :=
  match LogReader.openAt path s t.interval with
  | .error _ => (false, t.stop)
  | .ok reader => (true, { t.stop with readers := t.stop.readers ++ [reader] })

/-- The operating system sends a signal about `path`. -/
def deliver (t : LogTailer) (path : String) (signal : Signal) : LogTailer :=
  { t with readers := t.readers.map (·.deliver path signal) }

/-- The first reader that has something to do. -/
def ready? (t : LogTailer) (now : Nat) : Option Nat :=
  t.readers.findIdx? (·.isReady now)

/-- When the next reader has something to do. -/
def nextDue? (t : LogTailer) : Option Nat :=
  (t.readers.filterMap (·.due?)).min?

/-- Reader number `i` gets to run. The answer is what it delivers. -/
def run (t : LogTailer) (s : Surroundings) (i : Nat) : Option (List LogLine) × LogTailer :=
  match t.readers[i]? with
  | none => (none, t)
  | some r =>
    let (batch, r) := r.step s
    (batch, { t with readers := (t.readers.set i r).filter (!·.hasEnded) })

/-- How much there is to do at the moment: each reader takes a wake-up and reads, after what it is
reading already. -/
def backlog (t : LogTailer) : Nat :=
  3 * t.readers.length

/-- Lets readers run, at most `fuel` times; the answer is what they deliver. -/
def settleWithin (s : Surroundings) : Nat → LogTailer → List (List LogLine) × LogTailer
  | 0, t => ([], t)
  | fuel + 1, t =>
    match t.ready? s.now with
    | none => ([], t)
    | some i =>
      let (batch, t) := t.run s i
      let (more, t) := settleWithin s fuel t
      (batch.toList ++ more, t)

/-- Lets the readers run until none has anything to do. -/
def settle (t : LogTailer) (s : Surroundings) : List (List LogLine) × LogTailer :=
  settleWithin s t.backlog t

/-- Lets the readers run until none has anything to do, after a time of `span`. The answer is what
they deliver on the way. -/
def advance (t : LogTailer) (s : Surroundings) (span : Nat) : List (List LogLine) × LogTailer :=
  visitSpan (·.2.nextDue?)
    (fun now (batches, t) =>
      let (more, t) := t.settle { s with now }
      (batches ++ more, t))
    s.now span ([], t)

end LogTailer

end DenialMonitor
