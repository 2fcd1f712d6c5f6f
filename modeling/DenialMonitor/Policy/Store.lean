import DenialMonitor.Disk.AtomicWrite
import DenialMonitor.Policy.Codec

set_option autoImplicit false

/-!
# The policy file

The monitor holds the policy document in memory. It reloads it when the file changes and writes
it back when the overrides are edited. An edit starts from the document in memory; where the
write fails, the document in memory stays as it was.

## Main definitions

* `PolicyStore` — the document and the path of its file.
* `PolicyStore.reload` — takes the document from the file.
* `PolicyStore.addOverride`, `PolicyStore.removeOverride`, `PolicyStore.clearOverrides` — edits.
-/

namespace DenialMonitor

namespace SecurityPolicy

/-- Whether `path` is among the temporary overrides. -/
def hasOverride (p : SecurityPolicy) (path : String) : Bool :=
  p.temporaryOverrides.contains path

/-- The policy with `path` as the last of its overrides. -/
def withOverride (p : SecurityPolicy) (path : String) : SecurityPolicy :=
  { p with temporaryOverrides := p.temporaryOverrides ++ [path] }

/-- The policy without any override equal to `path`. -/
def withoutOverride (p : SecurityPolicy) (path : String) : SecurityPolicy :=
  { p with temporaryOverrides := p.temporaryOverrides.filter (· ≠ path) }

/-- The policy without overrides. -/
def withoutOverrides (p : SecurityPolicy) : SecurityPolicy :=
  { p with temporaryOverrides := [] }

end SecurityPolicy

/-- The policy document in memory and the path of its file. -/
structure PolicyStore where
  path : String
  policy : SecurityPolicy
  deriving Repr

/-- What an edit leaves behind: the store and the disk, and what it answers. -/
structure PolicyStore.Edit (α : Type) where
  store : PolicyStore
  disk : Disk
  result : Except OsError α

namespace PolicyStore

/-- The store for the file at `path`, before its first reload. -/
def new (path : String) : PolicyStore :=
  ⟨path, .empty⟩

/-- Takes the document from the file. A file that cannot be read or decoded stands for the empty
policy. -/
def reload (s : PolicyStore) (d : Disk) : PolicyStore :=
  { s with policy := SecurityPolicy.ofFile (d.read? s.path) }

/-- Writes `next` to the file and adopts it, or leaves the store as it is where that fails. -/
def persist {α : Type} (s : PolicyStore) (d : Disk) (next : SecurityPolicy) (answer : α) :
    Edit α :=
  match d.writeAtomically s.path next.fileContent with
  | (d, none) => ⟨{ s with policy := next }, d, .ok answer⟩
  | (d, some e) => ⟨s, d, .error e⟩

/-- Adds an override; the answer tells whether it is a new one. Nothing is written for one that is
there already. -/
def addOverride (s : PolicyStore) (d : Disk) (path : String) : Edit Bool :=
  if s.policy.hasOverride path then ⟨s, d, .ok false⟩
  else s.persist d (s.policy.withOverride path) true

/-- Removes every override equal to `path`; the answer tells whether there was one. -/
def removeOverride (s : PolicyStore) (d : Disk) (path : String) : Edit Bool :=
  if s.policy.hasOverride path then s.persist d (s.policy.withoutOverride path) true
  else ⟨s, d, .ok false⟩

/-- Removes all overrides; the answer tells how many there were. -/
def clearOverrides (s : PolicyStore) (d : Disk) : Edit Nat :=
  match s.policy.temporaryOverrides.length with
  | 0 => ⟨s, d, .ok 0⟩
  | n + 1 => s.persist d s.policy.withoutOverrides (n + 1)

end PolicyStore

/-- The text of an error of a store. -/
def storeErrorMessage (e : OsError) : String :=
  "I/O error: " ++ e.message

end DenialMonitor
