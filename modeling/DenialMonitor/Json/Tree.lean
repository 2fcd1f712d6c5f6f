import DenialMonitor.Json.Number

set_option autoImplicit false

/-!
# JSON trees

A document is a tree whose strings and numbers are kept in one of two forms: as the literals that
stand in a text, or as the values that they denote. Keeping literals lets a reader skip a part of
a document without asking what its strings and numbers mean.

## Main definitions

* `Tree` — a document over a type of strings and a type of numbers.
* `Json` — a document of values.
* `Json.same` — equality of documents that disregards the order of members.
* `Members.insert` — adds a member, where a repeated key keeps its first place.
-/

namespace DenialMonitor

/-- A document with strings in `σ` and numbers in `ν`. -/
inductive Tree (σ ν : Type) where
  | null
  | bool (b : Bool)
  | number (n : ν)
  | string (s : σ)
  | array (items : List (Tree σ ν))
  | object (members : List (σ × Tree σ ν))
  deriving Inhabited, Repr

/-- The members of an object, in the order of the document. -/
abbrev Members (σ ν : Type) := List (σ × Tree σ ν)

/-- A document of values. -/
abbrev Json := Tree String Number

namespace Members

variable {σ ν : Type} [DecidableEq σ]

/-- The value of the member with key `k`. -/
def find? (k : σ) (ms : Members σ ν) : Option (Tree σ ν) :=
  (List.find? (fun m => m.1 = k) ms).map (·.2)

/-- Adds a member at the end, or gives the member with the same key its new value in place. -/
def insert (k : σ) (v : Tree σ ν) : Members σ ν → Members σ ν
  | [] => [(k, v)]
  | (k', v') :: ms => if k' = k then (k', v) :: ms else (k', v') :: insert k v ms

end Members

namespace Json

mutual

/-- Whether two documents have the same value. Members are compared by key, in any order, and
floats as numbers. -/
def same : Json → Json → Bool
  | .null, .null => true
  | .bool a, .bool b => a == b
  | .number a, .number b => a.same b
  | .string a, .string b => a == b
  | .array as, .array bs => sameItems as bs
  | .object as, .object bs => as.length == bs.length && sameMembers as bs
  | _, _ => false

/-- Whether two lists of documents have the same values in the same order. -/
def sameItems : List Json → List Json → Bool
  | [], [] => true
  | a :: as, b :: bs => same a b && sameItems as bs
  | _, _ => false

/-- Whether every member of the first list has a counterpart of the same value in the second. -/
def sameMembers : Members String Number → Members String Number → Bool
  | [], _ => true
  | (k, a) :: as, bs =>
    (match Members.find? k bs with
      | some b => same a b
      | none => false) && sameMembers as bs

end

end Json

end DenialMonitor
