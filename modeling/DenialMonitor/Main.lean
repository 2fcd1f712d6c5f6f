import DenialMonitor.Cli.Program

set_option autoImplicit false

/-!
# The executable

Reads files, the environment and the list of processes, and prints what the program says. A program
that watches looks at everything once a second and writes its journal to standard error.

## Main definitions

* `main` — the executable.
-/

namespace DenialMonitor.Main

/-- What the file at `path` holds, if it can be read. -/
def contentOf? (path : String) : IO (Option (List UInt8)) := do
  try
    return some (← IO.FS.readBinFile path).toList
  catch _ => return none

/-- The disk after a look at files. -/
def observeAll (d : Disk) (paths : List String) : IO Disk :=
  paths.foldlM (fun d path => do return Cli.observe d path (← contentOf? path)) d

/-- The variables of the environment that settings may come from. -/
def variableNames : List String :=
  ["POLICY_PATH", "DENIALS_PATH", "LAST_DENIAL_PATH", "LOG_PATH", "STATE_PATH",
    "AUTO_REVOKE_MINUTES", "OVERRIDE_HELPER"].map fun key =>
      SettingsSource.defaultPrefix ++ "_" ++ key

/-- The environment. Where its bytes cannot be read, it is taken as far as settings may come from it,
and a value that is no text as whatever the runtime makes a text of. -/
def environment : IO Environment := do
  match ← contentOf? "/proc/self/environ" with
  | some block => return .ofBlock block
  | none =>
    let values ← variableNames.mapM fun name => do return (← IO.getEnv name).map fun v => (name, v)
    return .ofTexts (values.filterMap id)

/-- The files of a monitor. -/
def filesOf (paths : MonitorPaths) : List String :=
  [paths.policy, paths.denials, paths.lastDenial, paths.log, paths.state]

/-- The names of the processes that run. -/
def processNames : IO (List String) := do
  try
    let entries ← ((← IO.currentDir) / "/proc").readDir
    let names ← entries.toList.mapM fun e => do
      return (← contentOf? ("/proc/" ++ e.fileName ++ "/comm")).bind Utf8.decode?
    return names.filterMap fun name => name.map Text.trim
  catch _ => return []

/-- Writes a line of the journal. -/
def record (e : JournalEntry) : IO Unit :=
  IO.eprintln (e.fields.foldl (fun text f => text ++ " " ++ f.1 ++ "=" ++ f.2) e.message)

/-- The time between two looks, in milliseconds. -/
def span : Nat := 1000

/-- Looks at everything again and again. -/
partial def watch (m : Monitor) : IO Unit := do
  IO.sleep (UInt32.ofNat span)
  let disk ← observeAll m.around.disk (filesOf m.settings.paths)
  let running := (← processNames).contains m.settings.daemon.processName
  let (m, entries) := Cli.watchOnce m disk running span
  entries.forM record
  watch m

/-- Runs the program. -/
def run (args : List String) : IO UInt32 := do
  let home := (← IO.getEnv "HOME").getD ""
  let environment ← environment
  let names ← processNames
  let isRunning (name : String) : Bool := names.contains name
  let source? := (Cli.Invocation.parse? args).bind (·.source? home environment)
  let disk ← observeAll .empty (source?.map (·.filePath)).toList
  let settings? := source?.bind fun source => (source.load disk).toOption
  let files := (settings?.map fun settings => filesOf settings.paths).getD []
  let around : Surroundings := ⟨← observeAll disk files, true, 0⟩
  match Cli.run home environment around isRunning args with
  | .ended code output error =>
    IO.print output
    IO.eprint error
    return UInt32.ofNat code
  | .watch settings =>
    let m := Monitor.start settings around (isRunning settings.daemon.processName)
    record m.engine.published.status
    watch m
    return 0

end DenialMonitor.Main

/-- The executable. -/
def main (args : List String) : IO UInt32 :=
  DenialMonitor.Main.run args
