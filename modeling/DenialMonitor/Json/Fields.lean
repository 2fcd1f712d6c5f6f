import DenialMonitor.Json.Reader

set_option autoImplicit false

/-!
# Fields

A structure with named fields is read from a tree of literals field by field. Only the fields that
a structure knows are decoded; what the other members of the object hold is never asked.

## Main definitions

* `Literals.fields` — the values that the members of an object give to a field.
* `Literals.string?`, `Literals.int64?`, `Literals.strings?` — the values of a field.
-/

namespace DenialMonitor.Literals

/-- The values that the members `ms` give to the field `name`. A field that is given twice is an
error of the document. -/
def fields (name : String) (ms : List (String × Literals)) : List Literals :=
  (ms.filter (·.1 = name)).map (·.2)

/-- A text. -/
def string? : Literals → Option String
  | .string s => StringLiteral.value? s
  | _ => none

/-- A text, or null in its absence. -/
def optionalString? : Literals → Option (Option String)
  | .null => some none
  | v => v.string?.map some

/-- A list of texts. -/
def strings? : Literals → Option (List String)
  | .array items => items.mapM string?
  | _ => none

/-- A list of texts, or null in its absence. -/
def optionalStrings? : Literals → Option (Option (List String))
  | .null => some none
  | v => v.strings?.map some

/-- An integer of 64 bits with a sign. -/
def int64? : Literals → Option Int64
  | .number l =>
    match l.value? with
    | some (.integer n) =>
      if Int64.minValue.toInt ≤ n ∧ n ≤ Int64.maxValue.toInt then some (Int64.ofInt n) else none
    | _ => none
  | _ => none

end DenialMonitor.Literals
