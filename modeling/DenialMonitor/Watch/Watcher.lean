import DenialMonitor.Timers.Timeline
import DenialMonitor.Watch.Basic

set_option autoImplicit false

/-!
# Watches on several files

A watcher holds at most one live watch for each path. Every watch has a tag that says what its
firing stands for. A watch that was asked to stop is forgotten at once and ends when it next gets
to run.

## Main definitions

* `Watcher` — watches by path.
* `Watcher.watch`, `Watcher.stop`, `Watcher.stopAll` — what the owner does.
* `Watcher.deliver` — the operating system sends a signal about a path.
* `Watcher.run` — one of the watches gets to run.
* `Watcher.settle` — the watches run until none has anything to do.
* `Watcher.advance` — the watches run for a time.
-/

namespace DenialMonitor

/-- A watch, its path, and what its firing stands for. -/
structure WatchEntry (τ : Type) where
  path : String
  tag : τ
  watch : Watch
  deriving DecidableEq, Repr

/-- Watches by path. -/
structure Watcher (τ : Type) where
  delays : RearmDelays
  entries : List (WatchEntry τ)
  deriving DecidableEq, Repr

namespace Watcher

variable {τ : Type}

/-- A watcher without watches. -/
def new (delays : RearmDelays) : Watcher τ :=
  ⟨delays, []⟩

/-- Whether an entry is the live one for `path`. -/
def isLive (path : String) (e : WatchEntry τ) : Bool :=
  Path.same e.path path && !e.watch.cancelled

/-- The live watch on `path`. -/
def find? (w : Watcher τ) (path : String) : Option Watch :=
  (w.entries.find? (isLive path)).map (·.watch)

/-- What the watch on `path` is doing. -/
def state (w : Watcher τ) (path : String) : WatchState :=
  ((w.find? path).map Watch.state).getD .stopped

/-- Whether `path` is watched or about to be watched again. -/
def isActive (w : Watcher τ) (path : String) : Bool :=
  w.state path ≠ .stopped

/-- Asks the watch on `path` to stop; the answer tells whether there was one. -/
def stop (w : Watcher τ) (path : String) : Bool × Watcher τ :=
  ((w.find? path).isSome,
    { w with entries := w.entries.map fun e =>
        if isLive path e then { e with watch := e.watch.cancel } else e })

/-- Asks all watches to stop. -/
def stopAll (w : Watcher τ) : Watcher τ :=
  { w with entries := w.entries.map fun e => { e with watch := e.watch.cancel } }

/-- Watches `path` in place of an earlier watch on it. The answer tells whether it can be
watched. -/
def watch (w : Watcher τ) (path : String) (tag : τ) (s : Surroundings) : Bool × Watcher τ :=
  let w := (w.stop path).2
  match s.watchable? path with
  | none => (false, w)
  | some file => (true, { w with entries := w.entries ++ [⟨path, tag, .arm file⟩] })

/-- Whether an entry has a watch on `path` itself that receives signals. -/
def isArmedOn (path : String) (e : WatchEntry τ) : Bool :=
  Path.same e.path path && e.watch.listens

/-- Whether the operating system sends an entry a signal about `path`. A watch on a directory is
told what happens to the entries of the directory. It is given up only for its own sake. -/
def hears (path : String) (signal : Signal) (e : WatchEntry τ) : Bool :=
  isArmedOn path e || (signal ≠ .closed && isArmedOn (Path.parent path) e)

/-- The operating system sends a signal about `path`. The answer is the number of watches on
`path` itself that receive it. -/
def deliver (w : Watcher τ) (path : String) (signal : Signal) : Nat × Watcher τ :=
  (w.entries.countP (isArmedOn path),
    { w with entries := w.entries.map fun e =>
        if hears path signal e then { e with watch := e.watch.deliver signal } else e })

/-- The first watch that has something to do. -/
def ready? (w : Watcher τ) (now : Nat) : Option Nat :=
  w.entries.findIdx? (·.watch.isReady now)

/-- When the next wait is over. -/
def nextDue? (w : Watcher τ) : Option Nat :=
  (w.entries.filterMap (·.watch.due?)).min?

/-- Watch number `i` gets to run. The answer is its tag if it fires. -/
def run (w : Watcher τ) (s : Surroundings) (i : Nat) (eager : Bool) : Option τ × Watcher τ :=
  match w.entries[i]? with
  | none => (none, w)
  | some e =>
    let (fired, watch) := e.watch.step w.delays e.path s eager
    (if fired then some e.tag else none,
      { w with entries := (w.entries.set i { e with watch }).filter (!·.watch.hasEnded) })

/-- How much there is to do at the moment. -/
def backlog (w : Watcher τ) : Nat :=
  w.entries.foldl (fun n e => n + e.watch.backlog) 0

/-- Lets watches run, at most `fuel` times; the answer is the tags of those that fired. -/
def settleWithin (s : Surroundings) : Nat → Watcher τ → List τ × Watcher τ
  | 0, w => ([], w)
  | fuel + 1, w =>
    match w.ready? s.now with
    | none => ([], w)
    | some i =>
      let (fired, w) := w.run s i false
      let (more, w) := settleWithin s fuel w
      (fired.toList ++ more, w)

/-- Lets the watches run until none has anything to do. -/
def settle (w : Watcher τ) (s : Surroundings) : List τ × Watcher τ :=
  settleWithin s w.backlog w

/-- Lets the watches run until none has anything to do, after a time of `span`. The answer is the
tags of those that fired on the way. -/
def advance (w : Watcher τ) (s : Surroundings) (span : Nat) : List τ × Watcher τ :=
  visitSpan (·.2.nextDue?)
    (fun now (fired, w) =>
      let (more, w) := w.settle { s with now }
      (fired ++ more, w))
    s.now span ([], w)

end Watcher

end DenialMonitor
