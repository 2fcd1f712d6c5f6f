import DenialMonitor.Disk

set_option autoImplicit false

/-!
# Changes of files

What someone else may do to the disk while the monitor runs.

## Main definitions

* `DiskChange` — a change of files or directories.
* `Disk.apply` — performs a change.
-/

namespace DenialMonitor

/-- A change of files or directories. -/
inductive DiskChange where
  /-- Writes a file in place, or creates it. -/
  | write (path : String) (content : List UInt8)
  /-- Writes behind the end of a file. -/
  | append (path : String) (content : List UInt8)
  /-- Renames a file over another one. -/
  | rename (source target : String)
  | remove (path : String)
  | makeDirs (path : String)
  | removeDir (path : String)
  deriving DecidableEq, Repr

/-- Performs a change: the disk as that leaves it, and the error if it fails. -/
def Disk.apply (d : Disk) : DiskChange → Disk × Option OsError
  | .write path content => d.attempt (·.write path content)
  | .append path content => d.attempt (·.append path content)
  | .rename source target => d.attempt (·.rename source target)
  | .remove path => d.attempt (·.remove path)
  | .makeDirs path => d.makeDirs path
  | .removeDir path => d.removeDir path

/-- Performs changes one after the other, up to the first that fails. -/
def Disk.applyAll (d : Disk) : List DiskChange → Disk × Option OsError
  | [] => (d, none)
  | c :: cs =>
    match d.apply c with
    | (d, none) => d.applyAll cs
    | (d, some e) => (d, some e)

end DenialMonitor
