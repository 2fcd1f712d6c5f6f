set_option autoImplicit false

/-!
# The command line

Arguments are read from the left. The first one that asks for help or for the version decides,
unless an argument before it is wrong.

## Main definitions

* `Cli.Options` — what a run is asked for.
* `Cli.Invocation` — what the command line asks for.
* `Cli.Invocation.parse?` — reads the arguments.
-/

namespace DenialMonitor.Cli

/-- What a run is asked for. -/
structure Options where
  /-- The file with the settings, in place of the one in the home directory. -/
  config : Option String
  /-- Whether one snapshot is printed instead of watching. -/
  once : Bool
  deriving DecidableEq, Repr

/-- What the command line asks for. -/
inductive Invocation where
  | run (options : Options)
  | help
  | version
  deriving DecidableEq, Repr

/-- Whether an argument can be the value of the option before it. -/
def isValue (arg : String) : Bool :=
  arg = "-" || arg.toList.head?.any (· ≠ '-')

/-- Gives the option for the settings file its value; it may be given once, and not an empty
one. -/
def Options.setConfig? (o : Options) (value : String) : Option Options :=
  if o.config.isSome ∨ value = "" then none else some { o with config := some value }

/-- The start of an argument that carries the settings file in itself. -/
def configStart : List Char := "--config=".toList

/-- What a group of short options asks for. The first one decides. -/
def shortOptions? : List Char → Option Invocation
  | 'h' :: _ => some .help
  | 'V' :: _ => some .version
  | _ => none

/-- Reads arguments, with the options that were read before. -/
def parseFrom? (o : Options) : List String → Option Invocation
  | [] => some (.run o)
  | ["--"] => some (.run o)
  | "--config" :: value :: rest =>
    if isValue value then (o.setConfig? value).bind fun o => parseFrom? o rest else none
  | "--once" :: rest => if o.once then none else parseFrom? { o with once := true } rest
  | "--help" :: _ => some .help
  | "--version" :: _ => some .version
  | arg :: rest =>
    if configStart.isPrefixOf arg.toList then
      (o.setConfig? (String.ofList (arg.toList.drop configStart.length))).bind fun o =>
        parseFrom? o rest
    else
      match arg.toList with
      | '-' :: short => shortOptions? short
      | _ => none

/-- Reads the arguments of a command line, or refuses them. -/
def Invocation.parse? (args : List String) : Option Invocation :=
  parseFrom? ⟨none, false⟩ args

end DenialMonitor.Cli
