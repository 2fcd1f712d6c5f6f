import DenialMonitor.Json.Number

set_option autoImplicit false

/-!
# The literals of numbers

The text of a number spells a literal, and it spells it in one way only. What a number is read back
as is the value of that literal: an integer of 64 bits is read back as it was.

## Main definitions

* `NumberLiteral.digitsOf` — the decimal digits of a natural number, as numbers.
* `NumberLiteral.chars` — the text of a literal.
* `NumberLiteral.Spelled` — the form of a literal that a text can spell.
* `Number.literal` — the literal that the text of a number spells.

## Main results

* `Number.chars_literal`, `Number.spelled_literal` — the text of a number is that of its literal.
* `Number.value?_literal_integer` — integers of 64 bits are read back.
-/

namespace DenialMonitor

/-! ## Digits -/

namespace NumberLiteral

/-- The decimal digits of `n`. -/
def digitsOf (n : Nat) : List Nat :=
  (Decimal.digitChars n).map fun c => c.toNat - 48

/-- The last digit stands for the units. -/
theorem digitsOf_eq (n : Nat) :
    digitsOf n = if n < 10 then [n] else digitsOf (n / 10) ++ [n % 10] := by
  unfold digitsOf Decimal.digitChars
  rw [Nat.toDigits_eq_if (by decide)]
  split
  · next h => simp [Nat.toNat_digitChar_sub_48_of_lt_ten h]
  · simp [Nat.toNat_digitChar_sub_48_of_lt_ten (Nat.mod_lt n (by decide))]

/-- Digits are below ten. -/
theorem lt_of_mem_digitsOf {n d : Nat} (h : d ∈ digitsOf n) : d < 10 := by
  induction n using Nat.strongRecOn with
  | ind n ih =>
    rw [digitsOf_eq] at h
    split at h
    · simp only [List.mem_singleton] at h
      omega
    · rcases List.mem_append.mp h with h | h
      · exact ih (n / 10) (by omega) h
      · simp only [List.mem_singleton] at h
        omega

theorem digitsOf_ne_nil (n : Nat) : digitsOf n ≠ [] := by
  rw [digitsOf_eq]
  split <;> simp

/-- A positive number does not begin with a zero. -/
theorem head?_digitsOf {n : Nat} (h : 0 < n) : ∃ d, (digitsOf n).head? = some d ∧ d ≠ 0 := by
  induction n using Nat.strongRecOn with
  | ind n ih =>
    rw [digitsOf_eq]
    split
    · exact ⟨n, rfl, by omega⟩
    · obtain ⟨d, hd, hpos⟩ := ih (n / 10) (by omega) (by omega)
      exact ⟨d, by simp [hd], hpos⟩

/-- The digits of a number are those of its text. -/
theorem map_digitChar_digitsOf (n : Nat) : (digitsOf n).map Nat.digitChar = Decimal.digitChars n := by
  induction n using Nat.strongRecOn with
  | ind n ih =>
    rw [digitsOf_eq, Decimal.digitChars, Nat.toDigits_eq_if (by decide)]
    split
    · rfl
    · rw [List.map_append, ih (n / 10) (by omega)]
      rfl

theorem natural_append (ds : List Nat) (d : Nat) : natural (ds ++ [d]) = 10 * natural ds + d := by
  simp [natural]

/-- The digits of a number denote it. -/
theorem natural_digitsOf (n : Nat) : natural (digitsOf n) = n := by
  induction n using Nat.strongRecOn with
  | ind n ih =>
    rw [digitsOf_eq]
    split
    · simp [natural]
    · rw [natural_append, ih (n / 10) (by omega)]
      omega

/-! ## Literals and their texts -/

/-- The text of a sign and digits after an exponent mark. -/
def exponentChars : Bool × List Nat → List Char
  | (negative, ds) => 'e' :: (if negative then '-' else '+') :: ds.map Nat.digitChar

/-- The text of a literal. -/
def chars (l : NumberLiteral) : List Char :=
  (if l.negative then ['-'] else []) ++ l.whole.map Nat.digitChar ++
    (if l.fraction = [] then [] else '.' :: l.fraction.map Nat.digitChar) ++
    l.exponent.elim [] exponentChars

/-- The form of a literal that a text can spell: there are whole digits, of which the first is a
zero only if it is the only one, and there are digits after an exponent mark. -/
structure Spelled (l : NumberLiteral) : Prop where
  whole_lt : ∀ d ∈ l.whole, d < 10
  fraction_lt : ∀ d ∈ l.fraction, d < 10
  exponent_lt : ∀ e ∈ l.exponent, ∀ d ∈ e.2, d < 10
  whole_head : l.whole = [0] ∨ ∃ d, l.whole.head? = some d ∧ d ≠ 0
  exponent_ne_nil : ∀ e ∈ l.exponent, e.2 ≠ []

end NumberLiteral

/-! ## The literals of numbers -/

/-- The literal that the text of a decimal spells, after a minus sign if it is negative. -/
def Decimal.literal (negative : Bool) (d : Decimal) : NumberLiteral :=
  let ds := NumberLiteral.digitsOf d.digits
  let lead : Int := d.exponent + ds.length - 1
  if d.digits = 0 then ⟨negative, [0], [0], none⟩
  else if -5 ≤ lead ∧ lead < 0 then
    ⟨negative, [0], List.replicate ((-lead).toNat - 1) 0 ++ ds, none⟩
  else if 0 ≤ lead ∧ lead ≤ 15 then
    if 0 ≤ d.exponent then ⟨negative, ds ++ List.replicate d.exponent.toNat 0, [0], none⟩
    else ⟨negative, ds.take (lead.toNat + 1), ds.drop (lead.toNat + 1), none⟩
  else
    ⟨negative, ds.take 1, if ds.length ≤ 1 then [] else ds.drop 1,
      some (lead < 0, NumberLiteral.digitsOf lead.natAbs)⟩

/-- The literal that the text of a number spells. -/
def Number.literal : Number → NumberLiteral
  | .integer n => ⟨n < 0, NumberLiteral.digitsOf n.natAbs, [], none⟩
  | .float x =>
    let b := Binary.ofFloat x
    (Decimal.shortest b).literal b.negative

namespace Decimal

open NumberLiteral

theorem length_digitChars (n : Nat) : (digitChars n).length = (digitsOf n).length := by
  simp [digitsOf]

/-- The text of a decimal is that of its literal. -/
theorem chars_literal (negative : Bool) (d : Decimal) :
    (d.literal negative).chars = (if negative then ['-'] else []) ++ d.toChars := by
  have hchars := map_digitChar_digitsOf d.digits
  have hlength := length_digitChars d.digits
  have hzero : Nat.digitChar 0 = '0' := rfl
  simp only [literal, toChars, hlength]
  generalize hlead : d.exponent + ((digitsOf d.digits).length : Int) - 1 = lead
  have hexponent := map_digitChar_digitsOf lead.natAbs
  split
  · simp [NumberLiteral.chars, hzero]
  split
  · have hne : List.replicate ((-lead).toNat - 1) 0 ++ digitsOf d.digits ≠ [] := by
      simp [digitsOf_ne_nil]
    simp [NumberLiteral.chars, hne, hchars, hzero]
  split
  · split
    · simp [NumberLiteral.chars, hchars, hzero]
    · next hexp =>
      have hne : (digitsOf d.digits).drop (lead.toNat + 1) ≠ [] := by
        rw [ne_eq, List.drop_eq_nil_iff]
        omega
      simp [NumberLiteral.chars, hne, ← hchars]
  · split
    · simp [NumberLiteral.chars, exponentChars, ← hchars, hexponent]
    · next hlen =>
      have hne : (digitsOf d.digits).tail ≠ [] := by
        rw [← List.drop_one, ne_eq, List.drop_eq_nil_iff]
        omega
      simp [NumberLiteral.chars, exponentChars, ← hchars, hexponent, hne]

/-- A text can spell the literal of a decimal. -/
theorem spelled_literal (negative : Bool) (d : Decimal) : (d.literal negative).Spelled := by
  have hlt : ∀ a ∈ digitsOf d.digits, a < 10 := fun a ha => lt_of_mem_digitsOf ha
  simp only [literal]
  generalize hlead : d.exponent + ((digitsOf d.digits).length : Int) - 1 = lead
  split
  · exact ⟨by simp, by simp, by simp, .inl rfl, by simp⟩
  next hzero =>
  obtain ⟨a, ha, hpos⟩ := head?_digitsOf (Nat.pos_of_ne_zero hzero)
  split
  · refine ⟨by simp, fun a ha => ?_, by simp, .inl rfl, by simp⟩
    rcases List.mem_append.mp ha with ha | ha
    · simp [List.eq_of_mem_replicate ha]
    · exact hlt a ha
  split
  · split
    · refine ⟨fun a ha => ?_, by simp, by simp, .inr ⟨a, by simp [ha], hpos⟩, by simp⟩
      rcases List.mem_append.mp ha with ha | ha
      · exact hlt a ha
      · simp [List.eq_of_mem_replicate ha]
    · exact ⟨fun a ha => hlt a (List.mem_of_mem_take ha), fun a ha => hlt a (List.mem_of_mem_drop ha),
        by simp, .inr ⟨a, by simp [List.head?_take, ha], hpos⟩, by simp⟩
  · refine ⟨fun a ha => hlt a (List.mem_of_mem_take ha), fun a ha => ?_, ?_,
      .inr ⟨a, by simp [List.head?_take, ha], hpos⟩, by simp [digitsOf_ne_nil]⟩
    · split at ha
      · simp at ha
      · exact hlt a (List.mem_of_mem_drop ha)
    · simpa using fun a ha => lt_of_mem_digitsOf ha

end Decimal

namespace Number

open NumberLiteral

/-- The text of a number is that of its literal. -/
theorem chars_literal (n : Number) : n.literal.chars = n.toChars := by
  cases n with
  | integer n =>
    simp only [literal, toChars, integerChars, NumberLiteral.chars, map_digitChar_digitsOf]
    by_cases h : n < 0 <;> simp [h]
  | float x =>
    simp only [literal, toChars, floatChars, Decimal.chars_literal]
    split <;> rfl

/-- A text can spell the literal of a number. -/
theorem spelled_literal (n : Number) : n.literal.Spelled := by
  cases n with
  | integer n =>
    refine ⟨fun d hd => lt_of_mem_digitsOf hd, by simp [literal], by simp [literal], ?_,
      by simp [literal]⟩
    rcases Nat.eq_zero_or_pos n.natAbs with h | h
    · exact .inl (by simp only [literal, h]; rfl)
    · exact .inr (head?_digitsOf h)
  | float x => exact Decimal.spelled_literal _ _

/-- Whether a number is an integer that fits a signed or an unsigned word of 64 bits, if it is an
integer. -/
def Fits : Number → Prop
  | .integer n => -0x8000000000000000 ≤ n ∧ n < UInt64.size
  | .float _ => True

/-- An integer of 64 bits is read back from its literal. -/
theorem value?_literal_integer {n : Int} (h : (Number.integer n).Fits) :
    (Number.integer n).literal.value? = some (.integer n) := by
  obtain ⟨hlow, hhigh⟩ := h
  have hint : (Number.integer n).literal.integer? = some n := by
    simp only [literal, integer?, isWhole, natural_digitsOf, List.isEmpty_nil, Option.isNone_none,
      Bool.and_self, Bool.not_true, Bool.false_eq_true, if_false, decide_eq_true_eq]
    by_cases hneg : n < 0
    · rw [if_pos hneg, if_pos (by omega)]
      congr 1
      omega
    · rw [if_neg hneg, if_pos (by omega)]
      congr 1
      omega
  simp [NumberLiteral.value?, hint]

end Number

/-- A number that was read is an integer of 64 bits or a float. -/
theorem NumberLiteral.fits_of_value? {l : NumberLiteral} {n : Number} (h : l.value? = some n) :
    n.Fits := by
  simp only [value?] at h
  split at h
  · next k hk =>
    obtain rfl := Option.some.inj h
    simp only [integer?] at hk
    split at hk
    · simp at hk
    split at hk
    · split at hk
      · obtain rfl := Option.some.inj hk
        simp only [Number.Fits, UInt64.size]
        omega
      · simp at hk
    · split at hk
      · obtain rfl := Option.some.inj hk
        simp only [Number.Fits]
        omega
      · simp at hk
  · obtain ⟨x, -, rfl⟩ := Option.map_eq_some_iff.mp h
    trivial

end DenialMonitor
