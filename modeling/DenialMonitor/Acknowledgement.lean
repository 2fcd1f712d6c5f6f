import DenialMonitor.Denial.Record
import DenialMonitor.Disk.AtomicWrite
import DenialMonitor.Json.Fields
import DenialMonitor.Json.Writer

set_option autoImplicit false

/-!
# Acknowledged denials

The user acknowledges the newest denial. Its identity is kept in a small state file, so that a
denial stays acknowledged when the monitor is started again.

## Main definitions

* `Acknowledgement.fileContent` — the state file for an identity.
* `Acknowledgement.parse?` — the identity that a state file holds.
* `Acknowledgement.load`, `Acknowledgement.save` — go between the state file and the identity.
-/

namespace DenialMonitor.Acknowledgement

/-- The name of the field. -/
def field : String := "last_acknowledged_record_id"

/-- The state file for an identity. -/
def fileContent (id : RecordId) : List UInt8 :=
  Utf8.encode (Json.pretty (.object [(field, .string id.text)]))

/-- The identity for the values of the field. -/
def ofField? : List Literals → Option (Option RecordId)
  | [] => some none
  | [v] => v.optionalString?.map (·.map RecordId.mk)
  | _ => none

/-- The identity that a document holds. A document is an object with the field, or an array of
it. -/
def ofLiterals? : Literals → Option (Option RecordId)
  | .array items => ofField? items
  | doc => do
    let ms ← doc.members?
    ofField? (Literals.fields field ms)

/-- The identity that a text holds. -/
def parse? (text : List UInt8) : Option (Option RecordId) :=
  (Literals.parse? none text).bind ofLiterals?

/-- The identity that the state file at `path` holds. A file that cannot be read or decoded holds
none. -/
def load (d : Disk) (path : String) : Option RecordId :=
  ((d.read? path).bind parse?).join

/-- Writes the state file: the disk afterwards, and the error if that failed. -/
def save (d : Disk) (path : String) (id : RecordId) : Disk × Option OsError :=
  d.writeAtomically path (fileContent id)

end DenialMonitor.Acknowledgement
