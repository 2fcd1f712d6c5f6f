set_option autoImplicit false

/-!
# Notices

The operating system tells in notices what happens to a watched file. What a notice says is one of
three things: nothing of interest, that the content may have changed, or that the watch no longer
stands for the file at its path.

## Main definitions

* `Notice` — what has happened to a file.
* `Notice.meaning` — what it means for the watch.
* `Signal` — what a watch receives.
-/

namespace DenialMonitor

namespace Notice

/-- How a file was accessed. -/
inductive Access where
  | unspecified
  | read
  | opened
  | closedAfterReading
  | closedAfterWriting
  | closed
  deriving DecidableEq, Repr

/-- What of a file was modified. -/
inductive Aspect where
  | unspecified
  | content
  | metadata
  /-- The file was renamed, or another one was renamed to its path. -/
  | name
  | other
  deriving DecidableEq, Repr

/-- What a notice means for a watch. -/
inductive Meaning where
  | nothing
  | changed
  /-- The watched file is no longer the one at the path. -/
  | invalidated
  deriving DecidableEq, Repr

end Notice

/-- What has happened to a file. -/
inductive Notice where
  | unspecified
  | created
  | accessed (how : Notice.Access)
  | modified (what : Notice.Aspect)
  | removed
  | other
  deriving DecidableEq, Repr

/-- What a notice means for a watch. Of all accesses only the end of writing counts. -/
def Notice.meaning : Notice → Notice.Meaning
  | .removed => .invalidated
  | .modified .name => .invalidated
  | .accessed .closedAfterWriting => .changed
  | .accessed _ => .nothing
  | _ => .changed

/-- What a watch receives. -/
inductive Signal where
  | notice (n : Notice)
  /-- Watching has met an error. -/
  | failure
  /-- The operating system has given the watch up. -/
  | closed
  deriving DecidableEq, Repr

end DenialMonitor
