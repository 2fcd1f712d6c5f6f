import DenialMonitor.Disk
import DenialMonitor.Settings.Basic
import DenialMonitor.Settings.Environment
import DenialMonitor.Settings.Toml
import DenialMonitor.Text.Blank
import DenialMonitor.Text.Utf8

set_option autoImplicit false

/-!
# Loading settings

Settings come in three layers, of which a later one wins: what holds where nothing else is said,
a TOML file, and variables of the environment. Paths of the file may start with `~` for the home
directory; paths of the environment are taken as they are. A variable that is set to bytes that are
no text says nothing.

## Main definitions

* `SettingsFile` — what a file says.
* `SettingsError` — why settings cannot be loaded.
* `SettingsSource.load` — the settings of all layers.
-/

namespace DenialMonitor

/-- What a settings file says. -/
structure SettingsFile where
  policyPath : Option String
  denialsPath : Option String
  lastDenialPath : Option String
  logPath : Option String
  statePath : Option String
  autoRevokeMinutes : Option Int
  rearmDelayMs : Option Nat
  rearmMaxDelayMs : Option Nat
  tailPollIntervalMs : Option Nat
  outcomeTtlMs : Option Nat
  restartSettleMs : Option Nat
  daemonProcessName : Option String
  restartCommand : Option (List String)
  overrideHelper : Option String
  deriving DecidableEq, Repr

/-- Why settings cannot be loaded. -/
inductive SettingsError where
  /-- The operating system refuses the file. -/
  | unreadable (path : String) (cause : OsError)
  /-- The file is no text. -/
  | notUtf8 (path : String)
  /-- The text is malformed, has a key that is unknown, or gives a key a value of a wrong type. -/
  | malformed (path : String)
  /-- A variable does not hold a number of minutes. -/
  | invalidMinutes (name value : String)
  deriving DecidableEq, Repr

/-- What is said of a file that is no text. -/
def notUtf8Message : String := "stream did not contain valid UTF-8"

/-- The text of an error. For a malformed file it is the beginning of a sentence that goes on with
what is wrong. -/
def SettingsError.message : SettingsError → String
  | .unreadable path cause => "failed to read " ++ path ++ ": " ++ cause.message
  | .notUtf8 path => "failed to read " ++ path ++ ": " ++ notUtf8Message
  | .malformed path => "failed to parse " ++ path ++ ": "
  | .invalidMinutes name value =>
    "invalid value for $" ++ name ++ ": '" ++ value ++ "' (expected: integer minutes)"

namespace SettingsFile

/-- A file that says nothing. -/
def empty : SettingsFile :=
  ⟨none, none, none, none, none, none, none, none, none, none, none, none, none, none⟩

/-- Gives a key its value, or `none` if the key is unknown, has a value already, or the value has a
wrong type. Minutes are 64 bits with a sign, times are 64 bits without one. -/
def set? (f : SettingsFile) (key : String) (value : Toml.Value) : Option SettingsFile :=
  let once {α : Type} (old : Option α) (next : SettingsFile) : Option SettingsFile :=
    if old.isNone then some next else none
  match key, value with
  | "policy_path", .text s => once f.policyPath { f with policyPath := some s }
  | "denials_path", .text s => once f.denialsPath { f with denialsPath := some s }
  | "last_denial_path", .text s => once f.lastDenialPath { f with lastDenialPath := some s }
  | "log_path", .text s => once f.logPath { f with logPath := some s }
  | "state_path", .text s => once f.statePath { f with statePath := some s }
  | "auto_revoke_minutes", .integer n =>
    if n ≤ Int64.maxValue.toInt then
      once f.autoRevokeMinutes { f with autoRevokeMinutes := some n }
    else none
  | "rearm_delay_ms", .integer (.ofNat n) => once f.rearmDelayMs { f with rearmDelayMs := some n }
  | "rearm_max_delay_ms", .integer (.ofNat n) =>
    once f.rearmMaxDelayMs { f with rearmMaxDelayMs := some n }
  | "tail_poll_interval_ms", .integer (.ofNat n) =>
    once f.tailPollIntervalMs { f with tailPollIntervalMs := some n }
  | "outcome_ttl_ms", .integer (.ofNat n) => once f.outcomeTtlMs { f with outcomeTtlMs := some n }
  | "restart_settle_ms", .integer (.ofNat n) =>
    once f.restartSettleMs { f with restartSettleMs := some n }
  | "daemon_process_name", .text s =>
    once f.daemonProcessName { f with daemonProcessName := some s }
  | "restart_command", .texts ss => once f.restartCommand { f with restartCommand := some ss }
  | "override_helper", .text s => once f.overrideHelper { f with overrideHelper := some s }
  | _, _ => none

/-- What the text of a file says. -/
def parse? (text : String) : Option SettingsFile := do
  let entries ← Toml.parse? text.toList
  entries.foldlM (fun f e => f.set? e.1 e.2) empty

/-- The settings `s` where the file says nothing, and what the file says otherwise. -/
def apply (f : SettingsFile) (home : String) (s : Settings) : Settings :=
  let path (given : Option String) (old : String) :=
    match given with
    | some p => Path.expandHome home p
    | none => old
  { paths :=
      { policy := path f.policyPath s.paths.policy
        denials := path f.denialsPath s.paths.denials
        lastDenial := path f.lastDenialPath s.paths.lastDenial
        log := path f.logPath s.paths.log
        state := path f.statePath s.paths.state }
    autoRevoke :=
      match f.autoRevokeMinutes with
      | some minutes => autoRevokeOfMinutes minutes
      | none => s.autoRevoke
    rearmDelay := f.rearmDelayMs.getD s.rearmDelay
    rearmMaxDelay := f.rearmMaxDelayMs.getD s.rearmMaxDelay
    tailPollInterval := f.tailPollIntervalMs.getD s.tailPollInterval
    outcomeTtl := f.outcomeTtlMs.getD s.outcomeTtl
    restartSettle := f.restartSettleMs.getD s.restartSettle
    daemon :=
      { processName := f.daemonProcessName.getD s.daemon.processName
        restartCommand := f.restartCommand.getD s.daemon.restartCommand
        overrideHelper :=
          match f.overrideHelper with
          | some p => some (Path.expandHome home p)
          | none => s.daemon.overrideHelper } }

end SettingsFile

/-- Where settings are loaded from. -/
structure SettingsSource where
  home : String
  /-- The file to read in place of the one in the home directory; it must exist. -/
  file : Option String
  /-- The beginning of the names of variables. -/
  variablePrefix : String
  /-- The environment. A variable that it sets to bytes that are no text counts as not set. -/
  environment : Environment
  deriving DecidableEq, Repr

namespace SettingsSource

/-- The beginning of the names of variables where nothing else is said. -/
def defaultPrefix : String := "ESGUARD"

/-- The file that is read where nothing else is said. -/
def defaultFile (home : String) : String :=
  Path.join (Path.join (Path.join home ".codex") "es-guard") "monitor.toml"

/-- The path of the file that is read. -/
def filePath (s : SettingsSource) : String :=
  s.file.getD (defaultFile s.home)

/-- The name of the variable for `key`. -/
def variableName (s : SettingsSource) (key : String) : String :=
  s.variablePrefix ++ "_" ++ key

/-- The value of the variable for `key`, if the environment sets it to a text. -/
def valueOf? (s : SettingsSource) (key : String) : Option String :=
  s.environment.text? (s.variableName key)

/-- What the file says. Only the file in the home directory may be missing. -/
def readFile (s : SettingsSource) (d : Disk) : Except SettingsError SettingsFile :=
  match d.read s.filePath with
  | .error e =>
    if e = .notFound ∧ s.file = none then .ok .empty else .error (.unreadable s.filePath e)
  | .ok bytes =>
    match Utf8.decode? bytes with
    | none => .error (.notUtf8 s.filePath)
    | some text =>
      match SettingsFile.parse? text with
      | none => .error (.malformed s.filePath)
      | some f => .ok f

/-- The integer of 64 bits that a decimal text denotes; it may carry a sign of either kind. -/
def integer? (cs : List Char) : Option Int :=
  let natural (cs : List Char) : Option Nat :=
    if cs = [] ∨ !cs.all (fun c => 0x30 ≤ c.toNat && c.toNat ≤ 0x39) then none
    else some (cs.foldl (fun n c => 10 * n + (c.toNat - 0x30)) 0)
  let value : Option Int :=
    match cs with
    | '+' :: cs => (natural cs).map Int.ofNat
    | '-' :: cs => (natural cs).map fun n => -(Int.ofNat n)
    | cs => (natural cs).map Int.ofNat
  value.filter fun n => Int64.minValue.toInt ≤ n && n ≤ Int64.maxValue.toInt

/-- The lifetime of overrides as the environment has it, `old` where it says nothing. -/
def autoRevoke (s : SettingsSource) (old : Option Nat) : Except SettingsError (Option Nat) :=
  match s.valueOf? "AUTO_REVOKE_MINUTES" with
  | none => .ok old
  | some value =>
    match integer? (Text.trimChars value.toList) with
    | some minutes => .ok (autoRevokeOfMinutes minutes)
    | none => .error (.invalidMinutes (s.variableName "AUTO_REVOKE_MINUTES") value)

/-- The helper as the environment has it, `old` where it says nothing. A blank value takes the
helper away. -/
def overrideHelper (s : SettingsSource) (old : Option String) : Option String :=
  match s.valueOf? "OVERRIDE_HELPER" with
  | none => old
  | some value => if Text.trim value = "" then none else some value

/-- The settings `old` where the environment says nothing, and what it says otherwise. -/
def applyEnvironment (s : SettingsSource) (old : Settings) : Except SettingsError Settings := do
  let path (key : String) (old : String) := (s.valueOf? key).getD old
  let autoRevoke ← s.autoRevoke old.autoRevoke
  .ok { old with
    paths :=
      { policy := path "POLICY_PATH" old.paths.policy
        denials := path "DENIALS_PATH" old.paths.denials
        lastDenial := path "LAST_DENIAL_PATH" old.paths.lastDenial
        log := path "LOG_PATH" old.paths.log
        state := path "STATE_PATH" old.paths.state }
    autoRevoke
    daemon := { old.daemon with overrideHelper := s.overrideHelper old.daemon.overrideHelper } }

/-- The settings of all layers. -/
def load (s : SettingsSource) (d : Disk) : Except SettingsError Settings := do
  let file ← s.readFile d
  s.applyEnvironment (file.apply s.home (.ofPaths (.forHome s.home)))

end SettingsSource

end DenialMonitor
