import DenialMonitor.Path

set_option autoImplicit false

/-!
# Settings

Where the monitor finds its files, how it treats them, and how it deals with the daemon.

## Main definitions

* `MonitorPaths` — the files of the monitor.
* `DaemonSettings` — how the daemon is inspected and restarted.
* `Settings` — all settings.
* `autoRevokeSeconds` — the lifetime of an override, from minutes.
-/

namespace DenialMonitor

/-- The files of the monitor. -/
structure MonitorPaths where
  policy : String
  denials : String
  lastDenial : String
  /-- The log of the daemon. -/
  log : String
  /-- Where the monitor keeps its own state. -/
  state : String
  deriving DecidableEq, Repr

namespace MonitorPaths

/-- The files of the user with the home directory `home`. -/
def forHome (home : String) : MonitorPaths :=
  let base := Path.join home ".codex"
  let guard := Path.join base "es-guard"
  { policy := Path.join base "es_policy.json"
    denials := Path.join guard "denials.jsonl"
    lastDenial := Path.join guard "last_denial.txt"
    log := "/tmp/codex-es-guard.log"
    state := Path.join guard "monitor-state.json" }

/-- The files when all of them lie in one directory. -/
def inDir (dir : String) : MonitorPaths :=
  { policy := Path.join dir "es_policy.json"
    denials := Path.join dir "denials.jsonl"
    lastDenial := Path.join dir "last_denial.txt"
    log := Path.join dir "codex-es-guard.log"
    state := Path.join dir "monitor-state.json" }

end MonitorPaths

/-- How the daemon is inspected and restarted. -/
structure DaemonSettings where
  processName : String
  /-- The program that restarts the daemon, and its arguments. -/
  restartCommand : List String
  /-- The program that applies an override in place of the monitor. -/
  overrideHelper : Option String
  deriving DecidableEq, Repr

/-- The daemon as it is installed. -/
def DaemonSettings.installed : DaemonSettings :=
  { processName := "codex-es-guard"
    restartCommand := ["launchctl", "kickstart", "-k", "system/dev.codex-es-guard"]
    overrideHelper := none }

/-- All settings. Times are in milliseconds where nothing else is said. -/
structure Settings where
  paths : MonitorPaths
  /-- The lifetime of an override; without it overrides stay until they are removed. -/
  autoRevoke : Option Nat
  /-- The wait before a watch that was lost is opened again for the first time. -/
  rearmDelay : Nat
  /-- The longest wait before it is opened again. -/
  rearmMaxDelay : Nat
  /-- The time between two looks at a log whose directory cannot be watched. -/
  tailPollInterval : Nat
  /-- How long an outcome is shown. -/
  outcomeTtl : Nat
  /-- The wait between a restart of the daemon and the question whether it runs. -/
  restartSettle : Nat
  daemon : DaemonSettings
  deriving DecidableEq, Repr

/-- The greatest value of an unsigned word of 64 bits. -/
def maxWord : Nat := UInt64.size - 1

/-- The lifetime of an override in seconds, from minutes. Without a positive number of minutes
overrides stay; a lifetime that does not fit 64 bits is cut to the greatest one that does. -/
def autoRevokeSeconds (minutes : Int) : Option Nat :=
  if 0 < minutes then some (min (60 * minutes.toNat) maxWord) else none

/-- The lifetime of an override in milliseconds, from minutes. -/
def autoRevokeOfMinutes (minutes : Int) : Option Nat :=
  (autoRevokeSeconds minutes).map (· * 1000)

/-- The settings that hold where nothing else is said. -/
def Settings.ofPaths (paths : MonitorPaths) : Settings :=
  { paths
    autoRevoke := autoRevokeOfMinutes 3
    rearmDelay := 500
    rearmMaxDelay := 8000
    tailPollInterval := 2000
    outcomeTtl := 4000
    restartSettle := 1000
    daemon := .installed }

end DenialMonitor
