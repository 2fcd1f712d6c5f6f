import DenialMonitor.Disk

set_option autoImplicit false

/-!
# Commands

The daemon is inspected and restarted by running programs, and a helper may apply overrides. What
matters of a program is how it ends; that it cannot be started at all is an error of its own.

## Main definitions

* `Command` — a program and its arguments.
* `Ending` — how a program ended.
* `ControlError` — why a command did not succeed.
* `Command.succeeds`, `Command.check` — what a run says.
-/

namespace DenialMonitor

/-- A program and its arguments. -/
structure Command where
  program : String
  arguments : List String
  deriving DecidableEq, Repr

/-- How a program ended. -/
inductive Ending where
  | code (n : Int)
  | signal
  deriving DecidableEq, Repr

/-- Why a program cannot be started. -/
inductive SpawnError where
  | os (cause : OsError)
  /-- A text of the command holds a NUL character. -/
  | nulInCommand
  | argumentTooLong
  deriving DecidableEq, Repr

/-- The text of an error. -/
def SpawnError.message : SpawnError → String
  | .os cause => cause.message
  | .nulInCommand => "nul byte found in provided data"
  | .argumentTooLong => "Argument list too long (os error 7)"

/-- Why a command did not succeed. -/
inductive ControlError where
  | emptyCommand
  | spawn (program : String) (cause : SpawnError)
  | failed (program : String) (ending : Ending)
  deriving DecidableEq, Repr

/-- How messages speak of an ending. -/
def Ending.message : Ending → String
  | .code n => "code " ++ toString n
  | .signal => "a signal"

/-- The text of an error. -/
def ControlError.message : ControlError → String
  | .emptyCommand => "no command configured"
  | .spawn program cause => "failed to run " ++ program ++ ": " ++ cause.message
  | .failed program ending => program ++ " exited with " ++ ending.message

/-- What running a command comes to. -/
abbrev RunResult := Except SpawnError Ending

namespace Command

/-- Whether a text of the command holds a NUL character, which no program can be given. -/
def hasNul (c : Command) : Bool :=
  (c.program :: c.arguments).any fun s => s.toList.any (· = Char.ofNat 0)

/-- The greatest number of bytes in an argument. -/
def maxArgument : Nat := 131071

/-- Whether an argument is longer than a program can be given. -/
def isTooLong (c : Command) : Bool :=
  c.arguments.any fun a => maxArgument < a.utf8ByteSize

/-- Whether a run succeeded. -/
def succeeds (r : RunResult) : Bool :=
  match r with
  | .ok (.code 0) => true
  | _ => false

/-- What a run of the command says about it. -/
def check (c : Command) (r : RunResult) : Except ControlError Unit :=
  match r with
  | .ok (.code 0) => .ok ()
  | .ok ending => .error (.failed c.program ending)
  | .error cause => .error (.spawn c.program cause)

/-- Asks whether a process of that name runs. -/
def isRunning (processName : String) : Command :=
  ⟨"pgrep", ["-x", processName]⟩

/-- The command that restarts the daemon. -/
def restart (command : List String) : Except ControlError Command :=
  match command with
  | [] => .error .emptyCommand
  | program :: arguments => .ok ⟨program, arguments⟩

/-- Asks the helper to apply an override. -/
def applyOverride (helper path : String) : Command :=
  ⟨helper, [path]⟩

end Command

end DenialMonitor
