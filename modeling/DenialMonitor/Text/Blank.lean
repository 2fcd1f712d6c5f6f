set_option autoImplicit false

/-!
# Blank characters

A character is blank when it has the Unicode property White_Space. Lines of blank characters
carry nothing, and texts are trimmed of blank characters at both ends.

## Main definitions

* `Text.isBlank` — the property White_Space.
* `Text.allBlank` — the texts that carry nothing.
* `Text.trim` — a text without its blank ends.
-/

namespace DenialMonitor.Text

/-- Whether `c` has the Unicode property White_Space. -/
def isBlank (c : Char) : Bool :=
  let n := c.toNat
  (9 ≤ n && n ≤ 13) || n == 0x20 || n == 0x85 || n == 0xA0 || n == 0x1680 ||
    (0x2000 ≤ n && n ≤ 0x200A) || n == 0x2028 || n == 0x2029 || n == 0x202F ||
    n == 0x205F || n == 0x3000

/-- Every white space character of ASCII is blank. -/
theorem isBlank_of_isWhitespace {c : Char} (h : c.isWhitespace = true) : isBlank c = true := by
  simp only [Char.isWhitespace, Bool.or_eq_true, decide_eq_true_eq] at h
  rcases h with ((h | h) | h) | h <;> subst h <;> decide

/-- Whether `cs` holds blank characters only. -/
def allBlank (cs : List Char) : Bool :=
  cs.all isBlank

/-- `cs` without the blank characters at its end. -/
def trimEnd (cs : List Char) : List Char :=
  (cs.reverse.dropWhile isBlank).reverse

/-- `cs` without the blank characters at its two ends. -/
def trimChars (cs : List Char) : List Char :=
  trimEnd (cs.dropWhile isBlank)

/-- `s` without the blank characters at its two ends. -/
def trim (s : String) : String :=
  String.ofList (trimChars s.toList)

end DenialMonitor.Text
