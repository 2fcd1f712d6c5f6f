import DenialMonitor.Json.Writer
import DenialMonitor.Proofs.Json.Numerals

set_option autoImplicit false

/-!
# Compact texts stand on one line

A compact text has nothing between its tokens, and a line feed inside a string is escaped like every
control character. So the text of a document never holds a line feed, whatever strings and numbers
the document holds.

## Main results

* `Json.lineFeed_not_mem_writeString` — a written string.
* `NumberLiteral.lineFeed_not_mem_chars` — the text of a number.
* `Json.lineFeed_not_mem_compact` — a compact text.
* `Json.exists_write_object_eq` — the text of an object begins and ends with a brace.
-/

namespace DenialMonitor

/-! ## Numbers -/

/-- The text of a number holds digits, signs, a point and an exponent mark. -/
theorem NumberLiteral.lineFeed_not_mem_chars (l : NumberLiteral) : '\n' ∉ l.chars := by
  have hdigits (ds : List Nat) : '\n' ∉ ds.map Nat.digitChar := by simp
  have hsign : '\n' ∉ if l.negative then ['-'] else [] := by
    split <;> decide
  have hfraction : '\n' ∉ if l.fraction = [] then [] else '.' :: l.fraction.map Nat.digitChar := by
    split
    · exact List.not_mem_nil
    · simp
  have hexponent : '\n' ∉ l.exponent.elim [] exponentChars := by
    rcases l.exponent with _ | ⟨negative, ds⟩
    · exact List.not_mem_nil
    · cases negative <;> simp [exponentChars]
  simp only [chars, List.mem_append, not_or]
  exact ⟨⟨⟨hsign, hdigits l.whole⟩, hfraction⟩, hexponent⟩

namespace Json

/-! ## Strings -/

theorem hexDigit_ne_lineFeed : ∀ n < 16, hexDigit n ≠ '\n' := by
  decide

/-- A line feed is escaped. -/
theorem lineFeed_not_mem_escapeChar (c : Char) : '\n' ∉ escapeChar c := by
  unfold escapeChar
  by_cases hfeed : c = '\n'
  · subst hfeed
    decide
  by_cases hcontrol : c.toNat < 32
  · have hhigh : '\n' ≠ hexDigit (c.toNat / 16) := (hexDigit_ne_lineFeed _ (by omega)).symm
    have hlow : '\n' ≠ hexDigit (c.toNat % 16) := (hexDigit_ne_lineFeed _ (by omega)).symm
    repeat' split
    all_goals simp [hhigh, hlow]
  · repeat' split
    all_goals simp [Ne.symm hfeed]

/-- A written string stands on one line. -/
theorem lineFeed_not_mem_writeString (s : String) : '\n' ∉ writeString s := by
  have hinner : '\n' ∉ s.toList.flatMap escapeChar := by
    intro hmem
    obtain ⟨c, -, hc⟩ := List.mem_flatMap.mp hmem
    exact lineFeed_not_mem_escapeChar c hc
  simp [writeString, hinner]

/-! ## Documents -/

mutual

/-- A compact text stands on one line. -/
theorem lineFeed_not_mem_write (level : Nat) (v : Json) : '\n' ∉ write .compact level v := by
  match v with
  | .null => simp [write]
  | .bool true => simp [write]
  | .bool false => simp [write]
  | .number n =>
    rw [write, ← Number.chars_literal]
    exact NumberLiteral.lineFeed_not_mem_chars n.literal
  | .string s => exact lineFeed_not_mem_writeString s
  | .array [] => simp [write]
  | .array (v :: vs) =>
    have hv := lineFeed_not_mem_write (level + 1) v
    have hvs := lineFeed_not_mem_writeItems (level + 1) vs
    simp [write, Layout.gap, hv, hvs]
  | .object [] => simp [write]
  | .object ((k, v) :: ms) =>
    have hk := lineFeed_not_mem_writeString k
    have hv := lineFeed_not_mem_write (level + 1) v
    have hms := lineFeed_not_mem_writeMembers (level + 1) ms
    simp [write, Layout.gap, Layout.colon, hk, hv, hms]

theorem lineFeed_not_mem_writeItems (level : Nat) (vs : List Json) :
    '\n' ∉ writeItems .compact level vs := by
  match vs with
  | [] => exact List.not_mem_nil
  | v :: vs =>
    have hv := lineFeed_not_mem_write level v
    have hvs := lineFeed_not_mem_writeItems level vs
    simp [writeItems, Layout.gap, hv, hvs]

theorem lineFeed_not_mem_writeMembers (level : Nat) (ms : Members String Number) :
    '\n' ∉ writeMembers .compact level ms := by
  match ms with
  | [] => exact List.not_mem_nil
  | (k, v) :: ms =>
    have hk := lineFeed_not_mem_writeString k
    have hv := lineFeed_not_mem_write level v
    have hms := lineFeed_not_mem_writeMembers level ms
    simp [writeMembers, Layout.gap, Layout.colon, hk, hv, hms]

end

theorem lineFeed_not_mem_compact (v : Json) : '\n' ∉ v.compact.toList := by
  rw [compact, String.toList_ofList]
  exact lineFeed_not_mem_write 0 v

/-! ## Braces -/

/-- The text of an object begins and ends with a brace. -/
theorem exists_write_object_eq (layout : Layout) (level : Nat) (ms : Members String Number) :
    ∃ inner, write layout level (.object ms) = Char.ofNat 0x7B :: (inner ++ [Char.ofNat 0x7D]) := by
  cases ms with
  | nil => exact ⟨[], by rw [write, List.nil_append]⟩
  | cons m ms =>
    refine ⟨layout.gap (level + 1) ++ writeString m.1 ++ layout.colon ++
      write layout (level + 1) m.2 ++ (writeMembers layout (level + 1) ms ++ layout.gap level), ?_⟩
    simp only [write, List.append_assoc]

end Json

end DenialMonitor
