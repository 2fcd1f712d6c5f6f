import DenialMonitor.Disk.Change
import DenialMonitor.Monitor.Start

set_option autoImplicit false

/-!
# Runs of the monitor

A run is a list of actions. Some of them come from outside: files change, the operating system
sends signals, users send requests, errands are answered, time passes. In the others a part of the
monitor gets to run: a watch, the reader of the log, a timer, or the owning task, which takes
requests and events in any order but each queue from its front. An action that is not possible
changes nothing.

Left alone, the monitor goes on until no part of it has anything to do. It is settled then, and
only outside actions can change it.

## Main definitions

* `Action` — one action of a run.
* `Monitor.act` — what an action does.
* `Monitor.nextAction?` — an action that is possible without the outside.
* `Monitor.settle` — goes on until there is none.
* `Monitor.nextDue?` — when there will be one again.
* `Monitor.advance` — goes on for a time.
-/

namespace DenialMonitor

/-- One action of a run. -/
inductive Action where
  /-- Someone changes files. -/
  | change (c : DiskChange)
  /-- The operating system refuses new watches from now on, or accepts them. -/
  | refuseWatches (b : Bool)
  /-- The operating system sends a signal about a path. -/
  | signal (path : String) (s : Signal)
  /-- A user sends a request. -/
  | send (r : Request)
  /-- Nobody will send requests any more. -/
  | release
  /-- Time passes, in milliseconds. -/
  | pass (span : Nat)
  /-- Errand number `i` is answered. -/
  | finish (i : Nat) (a : Errand.Answer)
  /-- Watch number `i` gets to run. -/
  | runWatch (i : Nat) (eager : Bool)
  /-- Reader number `i` gets to run. -/
  | runReader (i : Nat)
  /-- The timer of an override fires. -/
  | fireExpiry (generation : Nat)
  /-- The timer of an outcome fires. -/
  | fireOutcome (generation : Nat)
  /-- The wait of errand number `i` is over. -/
  | endWait (i : Nat)
  /-- The owning task takes a request. -/
  | takeRequest
  /-- The owning task takes an event. -/
  | takeEvent
  /-- The owning task ends, since nobody will send requests any more. -/
  | retire
  deriving Repr

namespace Monitor

/-- A user sends a request. One that comes too late is answered at once. -/
def send (m : Monitor) (r : Request) : Monitor :=
  let t := m.sent
  let m := { m with sent := m.sent + 1 }
  if m.running then { m with requests := m.requests ++ [(t, r)] } else m.answer t .closed

/-- Errand number `i` comes to an event or to another errand. -/
def finishErrand (m : Monitor) (i : Nat) (a : Errand.Answer) : Monitor :=
  match m.errands[i]? with
  | none => m
  | some errand =>
    match errand.finish m.settings.restartSettle m.around.now a with
    | .inl event => { m with errands := m.errands.eraseIdx i }.post event
    | .inr next => { m with errands := m.errands.set i next }

/-- The wait of errand number `i` is over. -/
def endWait (m : Monitor) (i : Nat) : Monitor :=
  match m.errands[i]? with
  | some (.settle result due t) =>
    if due ≤ m.around.now then { m with errands := m.errands.set i (.confirm result t) } else m
  | _ => m

/-- Watch number `i` gets to run. -/
def runWatch (m : Monitor) (i : Nat) (eager : Bool) : Monitor :=
  let (fired, watcher) := m.watcher.run m.around i eager
  let m := { m with watcher }
  match fired with
  | none => m
  | some source => m.post (.changed source)

/-- Reader number `i` gets to run. -/
def runReader (m : Monitor) (i : Nat) : Monitor :=
  let (batch, tailer) := m.tailer.run m.around i
  let m := { m with tailer }
  match batch with
  | none => m
  | some lines => m.post (.logLines lines)

/-- The timer of an override fires. -/
def fireExpiry (m : Monitor) (generation : Nat) : Monitor :=
  let (fired, expiry) := m.engine.expiry.wake generation m.around.now
  let m := m.update fun e => { e with expiry }
  match fired with
  | none => m
  | some s => m.post (.overrideExpired s.key s.generation)

/-- The timer of an outcome fires. -/
def fireOutcome (m : Monitor) (generation : Nat) : Monitor :=
  let (fired, outcomeTimer) := m.engine.outcomeTimer.wake generation m.around.now
  let m := m.update fun e => { e with outcomeTimer }
  match fired with
  | none => m
  | some s => m.post (.outcomeExpired s.generation)

/-- The owning task takes the oldest request. -/
def takeRequest (m : Monitor) : Monitor :=
  match m.requests with
  | [] => m
  | (t, r) :: rest => { m with requests := rest }.handleRequest t r

/-- The owning task takes the oldest event. -/
def takeEvent (m : Monitor) : Monitor :=
  match m.events with
  | [] => m
  | e :: rest => { m with events := rest }.handleEvent e

/-- Whether the owning task runs though nobody will send requests any more and none is in
flight. -/
def isAbandoned (m : Monitor) : Bool :=
  m.running && !m.held && m.inFlight.isEmpty

/-- What an action does. -/
def act (m : Monitor) : Action → Monitor
  | .change c => { m with around := { m.around with disk := (m.around.disk.apply c).1 } }
  | .refuseWatches b => { m with around := { m.around with refusesWatches := b } }
  | .signal path s =>
    { m with watcher := (m.watcher.deliver path s).2, tailer := m.tailer.deliver path s }
  | .send r => m.send r
  | .release => { m with held := false }
  | .pass span => { m with around := { m.around with now := m.around.now + span } }
  | .finish i a => m.finishErrand i a
  | .runWatch i eager => m.runWatch i eager
  | .runReader i => m.runReader i
  | .fireExpiry generation => m.fireExpiry generation
  | .fireOutcome generation => m.fireOutcome generation
  | .endWait i => m.endWait i
  | .takeRequest => m.takeRequest
  | .takeEvent => m.takeEvent
  | .retire => if m.isAbandoned then m.close else m

/-- What a list of actions does. -/
def actAll (m : Monitor) (actions : List Action) : Monitor :=
  actions.foldl act m

/-! ## Going on alone -/

/-- The first errand whose wait is over. -/
def overdue? (m : Monitor) : Option Nat :=
  m.errands.findIdx? fun e => (e.due?.map fun due => decide (due ≤ m.around.now)).getD false

/-- The first errand that waits for an answer of others. -/
def waiting? (m : Monitor) : Option Nat :=
  m.errands.findIdx? Errand.isOutside

/-- An action that is possible without the outside. -/
def nextAction? (m : Monitor) : Option Action :=
  let now := m.around.now
  (m.watcher.ready? now).map (.runWatch · false) <|>
  (m.tailer.ready? now).map .runReader <|>
  (m.engine.expiry.ready? now).map (.fireExpiry ·.generation) <|>
  (m.engine.outcomeTimer.ready? now).map (.fireOutcome ·.generation) <|>
  m.overdue?.map .endWait <|>
  m.requests.head?.map (fun _ => .takeRequest) <|>
  m.events.head?.map (fun _ => .takeEvent) <|>
  if m.isAbandoned then some .retire else none

/-- Whether nothing happens without the outside, at this moment. -/
def isSettled (m : Monitor) : Bool :=
  m.nextAction?.isNone

/-- How many actions can follow at the moment without the outside. Every waiting thing is counted
with all that it may lead to: a request with an errand, an event, an override's timer and an
outcome's timer that fire at once. -/
def backlog (m : Monitor) : Nat :=
  2 * m.watcher.backlog + 2 * m.tailer.backlog + 6 * m.engine.expiry.sleepers.length +
    3 * m.engine.outcomeTimer.sleepers.length + 12 * m.errands.length + 16 * m.requests.length +
    10 * m.events.length + 24

/-- Goes on alone for at most `fuel` actions. -/
def settleWithin : Nat → Monitor → Monitor
  | 0, m => m
  | fuel + 1, m =>
    match m.nextAction? with
    | none => m
    | some a => settleWithin fuel (m.act a)

/-- Goes on alone until it is settled. -/
def settle (m : Monitor) : Monitor :=
  settleWithin m.backlog m

/-- When something will be possible without the outside again. -/
def nextDue? (m : Monitor) : Option Nat :=
  [m.watcher.nextDue?, m.tailer.nextDue?, m.engine.expiry.nextDue?, m.engine.outcomeTimer.nextDue?,
    (m.errands.filterMap Errand.due?).min?].foldl earlier? none

/-- Lets time pass until `due` and goes on alone. -/
def visit (due : Nat) (m : Monitor) : Monitor :=
  (m.act (.pass (due - m.around.now))).settle

/-- Lets a time of `span` pass and goes on alone at every moment when something is due. -/
def advance (m : Monitor) (span : Nat) : Monitor :=
  let later := visitSpan nextDue? visit m.around.now span m
  later.act (.pass (m.around.now + span - later.around.now))

end Monitor

end DenialMonitor
