import DenialMonitor.Denial.Record
import DenialMonitor.Json.Fields
import DenialMonitor.Json.Writer

set_option autoImplicit false

/-!
# Denial records as JSON

Each line of the denial log holds one record as a JSON object. Members that a record does not
have are skipped without being decoded, so they may hold what a record's own fields may not. A
record may also be written as an array of its fields in order.

## Main definitions

* `DenialRecord.toJson`, `DenialRecord.text` — a record as a document and as a line.
* `DenialRecord.ofLiterals?`, `DenialRecord.parse?` — the record of a document and of a line.
-/

namespace DenialMonitor

namespace OperationKind

/-- The name of an operation in a document. -/
def name : OperationKind → String
  | .delete => "unlink"
  | .rename => "rename"
  | .unknown => "unknown"

/-- The operation with a name; every other name is that of an unknown operation. -/
def ofName (s : String) : OperationKind :=
  if s = "unlink" then .delete else if s = "rename" then .rename else .unknown

/-- The operation that a document names, as a text or as the only key of an object whose value
is null. -/
def ofLiterals? : Literals → Option OperationKind
  | .string s => (StringLiteral.value? s).map ofName
  | .object [(key, .null)] => (StringLiteral.value? key).map ofName
  | _ => none

end OperationKind

namespace DenialRecord

/-- A record as a document. -/
def toJson (r : DenialRecord) : Json :=
  .object [("ts", Json.ofInt r.ts.toInt), ("op", .string r.op.name), ("path", .string r.path),
    ("dest", Json.ofString? r.dest), ("zone", .string r.zone), ("process", .string r.process),
    ("ancestor", .string r.ancestor)]

/-- A record as a line of the denial log. -/
def text (r : DenialRecord) : String :=
  r.toJson.compact

/-- The record with the given values of its fields. The destination may be missing. -/
def ofFields? (ts op path dest zone process ancestor : List Literals) : Option DenialRecord :=
  match ts, op, path, zone, process, ancestor with
  | [ts], [op], [path], [zone], [process], [ancestor] => do
    let ts ← ts.int64?
    let op ← OperationKind.ofLiterals? op
    let path ← path.string?
    let dest ← match dest with
      | [] => some none
      | [dest] => dest.optionalString?
      | _ => none
    let zone ← zone.string?
    let process ← process.string?
    let ancestor ← ancestor.string?
    some ⟨ts, op, path, dest, zone, process, ancestor⟩
  | _, _, _, _, _, _ => none

/-- The record that a document holds. -/
def ofLiterals? (doc : Literals) : Option DenialRecord :=
  match doc with
  | .array [ts, op, path, dest, zone, process, ancestor] =>
    ofFields? [ts] [op] [path] [dest] [zone] [process] [ancestor]
  | doc => do
    let ms ← doc.members?
    let field name := Literals.fields name ms
    ofFields? (field "ts") (field "op") (field "path") (field "dest") (field "zone")
      (field "process") (field "ancestor")

/-- The record that a text holds. -/
def parse? (text : List UInt8) : Option DenialRecord :=
  (Literals.parse? none text).bind ofLiterals?

end DenialRecord

end DenialMonitor
