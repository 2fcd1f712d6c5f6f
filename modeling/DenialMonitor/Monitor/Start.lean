import DenialMonitor.Monitor.Handle

set_option autoImplicit false

/-!
# Starting the monitor

The monitor starts in steps: it loads the acknowledged record and all sources, finds out whether
the daemon runs, sets up its watches and publishes what it has found. Files may change between the
steps.

## Main definitions

* `Monitor.boot` — before the first step.
* `Monitor.StartStep` — a step of the start.
* `Monitor.startSteps` — the steps in their order.
* `Monitor.start` — all steps at once.
-/

namespace DenialMonitor

namespace Monitor

/-- Before the first step of the start. -/
def boot (settings : Settings) (around : Surroundings) : Monitor :=
  { settings
    around
    engine := .initial settings.paths
    watcher := .new ⟨settings.rearmDelay, settings.rearmMaxDelay⟩
    tailer := .new settings.tailPollInterval
    errands := []
    requests := []
    events := []
    outputs := []
    sent := 0
    held := true
    running := true }

/-- A step of the start. -/
inductive StartStep where
  | loadAcknowledgement
  | reload (source : Source)
  /-- The answer whether the daemon runs has come. -/
  | noteRunning (running : Bool)
  | registerWatches
  | followLog
  | publish
  deriving DecidableEq, Repr

/-- Performs a step of the start. -/
def startStep (m : Monitor) : StartStep → Monitor
  | .loadAcknowledgement =>
    m.update fun e =>
      { e with acknowledged := Acknowledgement.load m.around.disk m.settings.paths.state }
  | .reload source => m.reload source
  | .noteRunning running => m.update fun e => { e with daemonRunning := running }
  | .registerWatches => m.registerAll
  | .followLog => m.followLog
  | .publish => m.publish

/-- The steps of the start, where the daemon runs or not. -/
def startSteps (running : Bool) : List StartStep :=
  .loadAcknowledgement :: (Source.all.map .reload ++
    [.noteRunning running, .registerWatches, .followLog, .publish])

/-- Starts the monitor. -/
def start (settings : Settings) (around : Surroundings) (running : Bool) : Monitor :=
  (startSteps running).foldl startStep (boot settings around)

end Monitor

end DenialMonitor
