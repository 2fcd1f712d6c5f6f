import DenialMonitor.Disk

set_option autoImplicit false

/-!
# Atomic writes

A document is written to a temporary sibling, which is then renamed over it. Whoever reads the
document meanwhile sees the old one or the new one. The write is a list of steps, so that what a
reader sees can be asked after each of them.

## Main definitions

* `AtomicWrite.Step` — one step of a write.
* `AtomicWrite.steps` — the steps that write a document in pieces.
* `AtomicWrite.run` — performs steps up to the first that fails.
* `Disk.writeAtomically` — writes a document at once.
-/

namespace DenialMonitor

namespace AtomicWrite

/-- One step of a write, as the operating system performs it. -/
inductive Step where
  /-- Creates the missing directories of a path, unless the path is empty. -/
  | makeDirs (directory : String)
  /-- Creates or empties a file. -/
  | truncate (file : String)
  /-- Writes a piece behind the end of a file. -/
  | append (file : String) (piece : List UInt8)
  /-- Renames a file over another one. -/
  | rename (source target : String)
  deriving DecidableEq, Repr

/-- Performs a step. -/
def Step.perform (d : Disk) : Step → Disk × Option OsError
  | .makeDirs p => if p = "" then (d, none) else d.makeDirs p
  | .truncate p => d.attempt (·.write p [])
  | .append p piece => d.attempt (·.append p piece)
  | .rename p q => d.attempt (·.rename p q)

/-- The path of the temporary file for the document at `p`. -/
def temporary (p : String) : String :=
  Path.withExtension p "tmp"

/-- The steps that write the document at `p` in pieces. -/
def steps (p : String) (pieces : List (List UInt8)) : List Step :=
  .makeDirs (Path.parent p) :: .truncate (temporary p) ::
    (pieces.map (.append (temporary p)) ++ [.rename (temporary p) p])

/-- Performs steps up to the first that fails: the disk as that leaves it, and the error. -/
def run (d : Disk) : List Step → Disk × Option OsError
  | [] => (d, none)
  | s :: ss =>
    match s.perform d with
    | (d, none) => run d ss
    | (d, some e) => (d, some e)

end AtomicWrite

/-- Writes the document at `p` through its temporary file: the disk afterwards, and the error if
a step failed. -/
def Disk.writeAtomically (d : Disk) (p : String) (content : List UInt8) : Disk × Option OsError :=
  AtomicWrite.run d (AtomicWrite.steps p [content])

end DenialMonitor
