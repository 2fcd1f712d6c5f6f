import DenialMonitor.Json.Fields
import DenialMonitor.Json.Writer
import DenialMonitor.Policy.Document

set_option autoImplicit false

/-!
# The policy as JSON

A policy document is a JSON object. The four fields that the monitor knows are written first and
the unknown members after them in their order; optional lists that a document lacks stay absent.

## Main definitions

* `SecurityPolicy.toJson`, `SecurityPolicy.text` — a policy as a document and as a text.
* `SecurityPolicy.ofLiterals?`, `SecurityPolicy.parse?` — the policy of a document and of a text.
-/

namespace DenialMonitor.SecurityPolicy

/-- The fields that the monitor knows. -/
def knownFields : List String :=
  ["protected_zones", "temporary_overrides", "trusted_tools", "ai_agent_patterns"]

/-- How deeply a document may nest; the document itself counts. -/
def maxNesting : Nat := 127

/-- The member for an optional list of texts. -/
def optionalMember (name : String) : Option (List String) → Members String Number
  | none => []
  | some ss => [(name, Json.ofStrings ss)]

/-- A policy as a document. -/
def toJson (p : SecurityPolicy) : Json :=
  .object ([("protected_zones", Json.ofStrings p.protectedZones),
      ("temporary_overrides", Json.ofStrings p.temporaryOverrides)] ++
    optionalMember "trusted_tools" p.trustedTools ++
    optionalMember "ai_agent_patterns" p.aiAgentPatterns ++ p.extra)

/-- A policy as a text. -/
def text (p : SecurityPolicy) : String :=
  p.toJson.pretty

/-- What the policy file holds: the text and a line end. -/
def fileContent (p : SecurityPolicy) : List UInt8 :=
  Utf8.encode p.text ++ [0x0A]

/-- The unknown members among `ms` with their values, after the members `acc`. A repeated key
keeps its first place and its last value. -/
def extraOf? (acc : Members String Number) :
    List (String × Literals) → Option (Members String Number)
  | [] => some acc
  | (k, v) :: ms =>
    if k ∈ knownFields then extraOf? acc ms
    else do
      let v ← v.value?
      extraOf? (Members.insert k v acc) ms

/-- The value of a field that may be missing. -/
def optionalField? {α : Type} (absent : α) (read : Literals → Option α) :
    List Literals → Option α
  | [] => some absent
  | [v] => read v
  | _ => none

/-- The policy that a document holds. Protected zones are required. -/
def ofLiterals? (doc : Literals) : Option SecurityPolicy := do
  let ms ← doc.members?
  let field name := Literals.fields name ms
  match field "protected_zones" with
  | [zones] => do
    let zones ← zones.strings?
    let overrides ← optionalField? [] Literals.strings? (field "temporary_overrides")
    let tools ← optionalField? none Literals.optionalStrings? (field "trusted_tools")
    let patterns ← optionalField? none Literals.optionalStrings? (field "ai_agent_patterns")
    let extra ← extraOf? [] ms
    some ⟨zones, overrides, tools, patterns, extra⟩
  | _ => none

/-- The policy that a text holds. -/
def parse? (text : List UInt8) : Option SecurityPolicy :=
  (Literals.parse? (some maxNesting) text).bind ofLiterals?

/-- The policy for the content of a file, `none` if it cannot be read. -/
def ofFile (content : Option (List UInt8)) : SecurityPolicy :=
  (content.bind parse?).getD empty

end DenialMonitor.SecurityPolicy
