import DenialMonitor.Cli.Arguments
import DenialMonitor.Journal
import DenialMonitor.Monitor.Run
import DenialMonitor.Settings.Load

set_option autoImplicit false

/-!
# The program

What the program prints and how it ends. Without `--once` it goes on watching.

## Main definitions

* `Cli.Result` — how the program ends, or that it goes on.
* `Cli.failureReport` — what is printed about settings that cannot be loaded.
* `Cli.snapshotOnce` — the snapshot of a monitor that has just been started and refreshed.
* `Cli.run` — the program.
* `Cli.watchOnce` — one look of a program that watches.
-/

namespace DenialMonitor.Cli

/-- What a run of the program comes to. -/
inductive Result where
  | ended (code : Nat) (output error : String)
  /-- The monitor is to be run with these settings. -/
  | watch (settings : Settings)
  deriving Repr

/-- The name and the version of the program. -/
def versionText : String := "esguard-monitor 0.0.0\n"

/-- How the program is used. -/
def helpText : String :=
  "Watch/tail/reconcile engine for the ES Guard denial log, policy and daemon log\n\n" ++
  "Usage: esguard-monitor [OPTIONS]\n\n" ++
  "Options:\n" ++
  "      --config <FILE>  Load configuration from this TOML file instead of the default\n" ++
  "      --once           Print one snapshot as JSON and exit\n" ++
  "  -h, --help           Print help\n" ++
  "  -V, --version        Print version\n"

/-- The text printed about arguments that are refused. -/
def usageText : String :=
  "error: invalid arguments\n\nUsage: esguard-monitor [OPTIONS]\n"

/-- A text with `indent` behind each line end. -/
def hang (indent text : String) : String :=
  ("\n" ++ indent).intercalate ((Split.pieces '\n' text.toList).map String.ofList)

/-- An entry of a numbered list of causes. -/
def numbered (n : Nat) (text : String) : String :=
  "    " ++ toString n ++ ": " ++ hang "       " text

/-- The causes of an error, one below the other. Only an error that has a cause of its own is
numbered. -/
def causes (e : SettingsError) : String :=
  match e with
  | .unreadable _ cause => numbered 0 e.message ++ "\n" ++ numbered 1 cause.message
  | .notUtf8 _ => numbered 0 e.message ++ "\n" ++ numbered 1 notUtf8Message
  | .malformed _ => numbered 0 e.message
  | .invalidMinutes _ _ => "    " ++ hang "    " e.message

/-- What is printed about settings that cannot be loaded. -/
def failureReport (e : SettingsError) : String :=
  "Error: loading configuration\n\nCaused by:\n" ++ causes e

/-- A monitor after it has loaded everything anew. -/
def refreshed (m : Monitor) (running : Bool) : Monitor :=
  ((m.act (.send .refresh)).settle.act (.finish 0 (.running running))).settle

/-- The snapshot of a monitor that has just been started and refreshed. -/
def snapshotOnce (settings : Settings) (around : Surroundings) (running : Bool) : Snapshot :=
  (refreshed (.start settings around running) running).engine.published

/-- Where the settings of a run come from. -/
def Options.source (o : Options) (home : String) (environment : Environment) : SettingsSource :=
  { home, file := o.config, variablePrefix := SettingsSource.defaultPrefix, environment }

/-- Where the settings come from, if the command line asks for a run. -/
def Invocation.source? (i : Invocation) (home : String) (environment : Environment) :
    Option SettingsSource :=
  match i with
  | .run o => some (o.source home environment)
  | _ => none

/-- The program, in the home directory `home`. The daemon is asked for by the name of its
process. -/
def run (home : String) (environment : Environment) (around : Surroundings)
    (isRunning : String → Bool) (args : List String) : Result :=
  match Invocation.parse? args with
  | none => .ended 2 "" usageText
  | some .help => .ended 0 helpText ""
  | some .version => .ended 0 versionText ""
  | some (.run options) =>
    match (options.source home environment).load around.disk with
    | .error e => .ended 1 "" (failureReport e ++ "\n")
    | .ok settings =>
      if options.once then
        let running := isRunning settings.daemon.processName
        .ended 0 (Json.pretty (snapshotOnce settings around running).toJson ++ "\n") ""
      else .watch settings

/-! ## Watching -/

/-- The disk after a look at the file at `path`. A file that has only grown is the same one; any
other change makes a new file of it. -/
def observe (d : Disk) (path : String) (content : Option (List UInt8)) : Disk :=
  let changes : List DiskChange :=
    match d.read? path, content with
    | none, none => []
    | some _, none => [.remove path]
    | none, some new => [.makeDirs (Path.parent path), .write path new]
    | some old, some new =>
      if old.isPrefixOf new then [.write path new] else [.remove path, .write path new]
  (d.applyAll changes).1

/-- What the journal says about an output. -/
def Output.entry? : Output → Option JournalEntry
  | .denial r => some (.ofDenial r)
  | .overrideExpired path => some (.ofExpiry path)
  | _ => none

/-- One look at everything, `span` milliseconds after the one before: the monitor afterwards, and
what the journal says about it. -/
def watchOnce (m : Monitor) (disk : Disk) (running : Bool) (span : Nat) :
    Monitor × List JournalEntry :=
  let before := m.engine.published
  let after := (refreshed { m with around := { m.around with disk } } running).advance span
  let alerts := after.outputs.reverse.filterMap fun o => Output.entry? o.2
  ({ after with outputs := [] }, alerts ++ before.changes after.engine.published)

end DenialMonitor.Cli
