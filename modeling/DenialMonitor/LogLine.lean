set_option autoImplicit false

/-!
# Lines of the daemon's log

A line that carries one of a few markers tells of an error.

## Main definitions

* `LogLine` — a line and whether it tells of an error.
* `LogLine.classify` — looks for the markers.
-/

namespace DenialMonitor

/-- A line of the daemon's log. -/
structure LogLine where
  text : String
  isError : Bool
  deriving DecidableEq, Repr

namespace LogLine

/-- What marks the lines that tell of errors. -/
def errorMarkers : List String :=
  ["[DENY]", "ERROR", "panic"]

/-- Whether `part` occurs in `cs`. -/
def occursIn (part : List Char) : List Char → Bool
  | [] => part.isEmpty
  | c :: cs => part.isPrefixOf (c :: cs) || occursIn part cs

/-- The line with the text `s`. -/
def classify (s : String) : LogLine :=
  ⟨s, errorMarkers.any fun m => occursIn m.toList s.toList⟩

end LogLine

end DenialMonitor
