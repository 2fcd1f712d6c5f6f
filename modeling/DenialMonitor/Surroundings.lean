import DenialMonitor.Disk

set_option autoImplicit false

/-!
# Surroundings

What a task sees when it gets to run: the disk, the time, and whether the operating system accepts
watches.

## Main definitions

* `Surroundings` — the disk, the time and the system's readiness to watch.
* `Surroundings.file?` — the file that a path names at the moment.
* `Surroundings.watchable?` — the file at a path, if it can be watched.
-/

namespace DenialMonitor

/-- What a task sees when it gets to run. -/
structure Surroundings where
  disk : Disk
  /-- Whether the operating system refuses new watches. -/
  refusesWatches : Bool
  /-- In milliseconds. -/
  now : Nat
  deriving DecidableEq, Repr

namespace Surroundings

/-- The file that `path` names at the moment. -/
def file? (s : Surroundings) (path : String) : Option FileId :=
  s.disk.identity? path

/-- The file at `path`, if it can be watched. -/
def watchable? (s : Surroundings) (path : String) : Option FileId :=
  if s.refusesWatches then none else s.file? path

end Surroundings

end DenialMonitor
