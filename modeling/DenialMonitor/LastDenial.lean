import DenialMonitor.Text.Blank
import DenialMonitor.Text.Utf8

set_option autoImplicit false

/-!
# The last denial

The daemon keeps a sentence about its most recent denial in a file of its own.

## Main definitions

* `lastDenial` — what is shown for the content of that file.
-/

namespace DenialMonitor

/-- What is shown when there is no sentence. -/
def noRecentDenial : String := "No recent denials"

/-- What is shown for the content of the file, `none` if it cannot be read: the text without its
blank ends, unless it is malformed or holds nothing. -/
def lastDenial (content : Option (List UInt8)) : String :=
  match content.bind Utf8.decode? with
  | none => noRecentDenial
  | some text => if Text.trim text = "" then noRecentDenial else Text.trim text

end DenialMonitor
