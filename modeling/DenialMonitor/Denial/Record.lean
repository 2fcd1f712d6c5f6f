import DenialMonitor.Path

set_option autoImplicit false

/-!
# Denials

The guard daemon refuses operations on files and keeps a record of each. A record is known by its
time and path, and an alert tells the user about it in one sentence.

## Main definitions

* `DenialRecord` — a refused operation.
* `RecordId` — what tells records apart.
* `DenialRecord.alert` — the sentence about a denial.
-/

namespace DenialMonitor

/-- The operation that was refused. -/
inductive OperationKind where
  | delete
  | rename
  /-- Any other operation. -/
  | unknown
  deriving DecidableEq, Repr

/-- A refused operation. -/
structure DenialRecord where
  /-- The time of the denial, in seconds since 1970. -/
  ts : Int64
  op : OperationKind
  /-- The file that the operation was about. -/
  path : String
  /-- Where a rename would have put it. -/
  dest : Option String
  /-- The protected zone that the file lies in. -/
  zone : String
  /-- The process that asked for the operation. -/
  process : String
  /-- The agent that the process descends from. -/
  ancestor : String
  deriving DecidableEq, Repr

/-- What tells records apart. -/
structure RecordId where
  text : String
  deriving DecidableEq, Repr

namespace DenialRecord

/-- The identity of a record: its time and path, joined by a hyphen. -/
def id (r : DenialRecord) : RecordId :=
  ⟨toString r.ts.toInt ++ "-" ++ r.path⟩

/-- What messages call the file of a record. -/
def fileName (r : DenialRecord) : String :=
  Path.displayName r.path

end DenialRecord

/-- What the daemon kept the process from doing. -/
def OperationKind.gerund : OperationKind → String
  | .delete => "deleting"
  | .rename => "moving"
  | .unknown => "modifying"

/-- The sentence about a denial. -/
def DenialRecord.alert (r : DenialRecord) : String :=
  "Blocked " ++ r.ancestor ++ " from " ++ r.op.gerund ++ " " ++ r.fileName

end DenialMonitor
