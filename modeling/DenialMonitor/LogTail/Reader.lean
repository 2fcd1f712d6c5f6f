import DenialMonitor.LogTail.Cursor
import DenialMonitor.Surroundings
import DenialMonitor.Timers.Timeline
import DenialMonitor.Watch.Notice

set_option autoImplicit false

/-!
# The reader of a log

A reader follows one log with a cursor. It is woken by what happens in the directory of the log,
or, where that cannot be watched, by the clock. While it has not taken a wake-up, further ones add
nothing; what is written after it has taken one wakes it again. A reader that was asked to stop
while it was not reading delivers nothing any more.

## Main definitions

* `LogReader` — a cursor and what wakes it.
* `LogReader.openAt` — a reader at the end of a log.
* `LogReader.wake`, `LogReader.deliver` — something happened in the directory of the log.
* `LogReader.step` — the reader gets to run.
-/

namespace DenialMonitor

/-- What wakes a reader. -/
inductive LogReader.Waking where
  /-- Events about the log, at most one of which is waiting. -/
  | byDirectory (woken : Bool)
  /-- The clock, next at the moment `tick`. -/
  | byClock (tick : Nat)
  deriving DecidableEq, Repr

/-- A reader that follows one log. -/
structure LogReader where
  cursor : TailCursor
  waking : LogReader.Waking
  /-- The time between two ticks of the clock. -/
  interval : Nat
  /-- Whether it has taken a wake-up and is about to read. -/
  reading : Bool
  /-- Whether it has been asked to stop. -/
  cancelled : Bool
  deriving DecidableEq, Repr

namespace LogReader

/-- The shortest time between two ticks of the clock. -/
def minInterval : Nat := 10

/-- How late a tick may be noticed without putting off the next one. -/
def lateness : Nat := 5

/-- A reader behind everything that the log at `path` holds. -/
def openAt (path : String) (s : Surroundings) (interval : Nat) : Except OsError LogReader :=
  match TailCursor.atEnd s.disk path with
  | .error e => .error e
  | .ok cursor =>
    .ok
      { cursor
        waking :=
          if s.refusesWatches || (Path.fileName? path).isNone then .byClock s.now
          else .byDirectory false
        interval := min (max interval minInterval) longestWait
        reading := false
        cancelled := false }

/-- Whether an event about `path` reaches the reader and seems to be about the log: it comes from
the directory of the log, and has the name of the log. -/
def concerns (r : LogReader) (path : String) : Bool :=
  let directory := Path.parent r.cursor.path
  Path.fileName? path = Path.fileName? r.cursor.path &&
    (Path.same (Path.parent path) directory || Path.same path directory)

/-- An event about the file at `path` happened. -/
def wake (r : LogReader) (path : String) : LogReader :=
  match r.waking with
  | .byDirectory _ => if r.concerns path then { r with waking := .byDirectory true } else r
  | .byClock _ => r

/-- The operating system sends a signal about `path`. Only notices name a file. -/
def deliver (r : LogReader) (path : String) (signal : Signal) : LogReader :=
  match signal with
  | .notice _ => r.wake path
  | _ => r

/-- Asks the reader to stop. -/
def cancel (r : LogReader) : LogReader :=
  { r with cancelled := true }

/-- Whether the reader does nothing any more. -/
def hasEnded (r : LogReader) : Bool :=
  r.cancelled && !r.reading

/-- The tick after the one at `tick`, which is noticed at `now`. -/
def nextTick (r : LogReader) (tick now : Nat) : Nat :=
  (if tick + lateness < now then now else tick) + r.interval

/-- Takes a wake-up, if one is waiting. -/
def takeWakeUp? (r : LogReader) (now : Nat) : Option LogReader :=
  match r.waking with
  | .byDirectory woken =>
    if woken then some { r with waking := .byDirectory false, reading := true } else none
  | .byClock tick =>
    if tick ≤ now then some { r with waking := .byClock (r.nextTick tick now), reading := true }
    else none

/-- Whether the reader has something to do. -/
def isReady (r : LogReader) (now : Nat) : Bool :=
  r.reading || (!r.cancelled && (r.takeWakeUp? now).isSome)

/-- When the reader has something to do, if nothing happens before. -/
def due? (r : LogReader) : Option Nat :=
  match r.waking with
  | .byDirectory _ => none
  | .byClock tick => if r.cancelled then none else some tick

/-- The lines of a poll, if there are any. -/
def batch? : Except OsError (List LogLine) → Option (List LogLine)
  | .ok (line :: lines) => some (line :: lines)
  | _ => none

/-- The reader gets to run: it takes a wake-up, or reads after it has taken one. The answer is
what it delivers. -/
def step (r : LogReader) (s : Surroundings) : Option (List LogLine) × LogReader :=
  if r.reading then
    let (lines, cursor) := r.cursor.poll s.disk
    (batch? lines, { r with cursor, reading := false })
  else if r.cancelled then (none, r)
  else (none, (r.takeWakeUp? s.now).getD r)

end LogReader

end DenialMonitor
