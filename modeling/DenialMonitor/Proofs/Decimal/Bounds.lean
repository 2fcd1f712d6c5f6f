import DenialMonitor.Proofs.Binary64.Finite
import DenialMonitor.Proofs.Json.Numerals

set_option autoImplicit false

/-!
# The size of shortest decimals

A decimal that is written for a float lies in the interval of the numbers that round to the float,
so it is not greater than the upper end of this interval.

## Main definitions

* `Decimal.value` — the number that a decimal stands for.

## Main results

* `Decimal.value_shortest_le` — a bound for the shortest decimal of a float.
-/

namespace DenialMonitor

namespace Decimal

/-- The number that a decimal stands for. -/
def value (d : Decimal) : ℚ :=
  d.digits * 10 ^ d.exponent

/-- The second part of a fraction is positive. -/
theorem scaled_snd_pos (n : Nat) {base : Nat} (e : Int) (h : 0 < base) :
    (0 : ℚ) < (scaled n base e).2 := by
  unfold scaled
  split
  · exact one_pos
  · exact_mod_cast Nat.pow_pos h

/-- A fraction stands for the number that it is made of. -/
theorem scaled_eq (n base : Nat) (e : Int) (h : 0 < base) :
    (scaled n base e).1 = (n : ℚ) * base ^ e * (scaled n base e).2 := by
  unfold scaled
  split
  · next he =>
    obtain ⟨k, rfl⟩ := Int.eq_ofNat_of_zero_le he
    simp [Nat.pow_eq]
  · next he =>
    obtain ⟨k, rfl⟩ : ∃ k : Nat, e = -k := ⟨(-e).toNat, by omega⟩
    have hne : ((base : ℚ) ^ k) ≠ 0 := pow_ne_zero k (by exact_mod_cast h.ne')
    simp [Nat.pow_eq, hne]

/-- Fractions compare as the numbers that they stand for. -/
theorem le_of_below {ends : Bool} {n₁ n₂ b₁ b₂ : Nat} {e₁ e₂ : Int} (h₁ : 0 < b₁) (h₂ : 0 < b₂)
    (h : below ends (scaled n₁ b₁ e₁) (scaled n₂ b₂ e₂) = true) :
    (n₁ : ℚ) * b₁ ^ e₁ ≤ n₂ * b₂ ^ e₂ := by
  have hle : (scaled n₁ b₁ e₁).1 * (scaled n₂ b₂ e₂).2 ≤
      (scaled n₂ b₂ e₂).1 * (scaled n₁ b₁ e₁).2 := by
    cases ends
    · exact Nat.le_of_lt (of_decide_eq_true h)
    · exact of_decide_eq_true h
  have hcast : ((scaled n₁ b₁ e₁).1 : ℚ) * (scaled n₂ b₂ e₂).2 ≤
      (scaled n₂ b₂ e₂).1 * (scaled n₁ b₁ e₁).2 := by exact_mod_cast hle
  have hp₁ := scaled_snd_pos n₁ e₁ h₁
  have hp₂ := scaled_snd_pos n₂ e₂ h₂
  rw [scaled_eq n₁ b₁ e₁ h₁, scaled_eq n₂ b₂ e₂ h₂] at hcast
  refine le_of_mul_le_mul_right ?_ (mul_pos hp₁ hp₂)
  calc _ = (n₁ : ℚ) * b₁ ^ e₁ * (scaled n₁ b₁ e₁).2 * (scaled n₂ b₂ e₂).2 := by ring
    _ ≤ n₂ * b₂ ^ e₂ * (scaled n₂ b₂ e₂).2 * (scaled n₁ b₁ e₁).2 := hcast
    _ = _ := by ring

/-- A decimal that rounds to a number is not beyond the upper end of the interval that does. -/
theorem value_onGrid?_le {b : Binary} {count : Nat} {d : Decimal} (h : onGrid? b count = some d) :
    d.value ≤ (b.significand + 1 / 2) * 2 ^ b.exponent := by
  have hhigh : ((4 * b.significand + 2 : Nat) : ℚ) * 2 ^ (b.exponent - 2) =
      (b.significand + 1 / 2) * 2 ^ b.exponent := by
    rw [zpow_sub₀ (by norm_num)]
    push_cast
    norm_num
    ring
  have hinside : ∀ {n : Nat} {unit : Int} {ends low : Bool},
      (low && below ends (scaled n 10 unit)
        (scaled (4 * b.significand + 2) 2 (b.exponent - 2))) = true →
      (⟨n, unit⟩ : Decimal).value ≤ (b.significand + 1 / 2) * 2 ^ b.exponent := by
    intro n unit ends low h
    rw [← hhigh]
    exact_mod_cast le_of_below (by decide) (by decide) (Bool.and_eq_true_iff.mp h).2
  simp only [onGrid?] at h
  split at h
  · cases h
  · next hfloor _ =>
    obtain rfl := Option.some.inj h
    exact hinside hfloor
  · next _ hnext =>
    obtain rfl := Option.some.inj h
    exact hinside hnext
  · next hfloor hnext =>
    split at h
    · obtain rfl := Option.some.inj h
      exact hinside hfloor
    · obtain rfl := Option.some.inj h
      exact hinside hnext

/-- Leaving out zeros at the end keeps the number. -/
theorem value_normalize (fuel : Nat) (d : Decimal) : (normalize fuel d).value = d.value := by
  induction fuel generalizing d with
  | zero => rfl
  | succ fuel ih =>
    unfold normalize
    split
    · next h =>
      have hdiv : d.digits = d.digits / 10 * 10 := by omega
      rw [ih, value, value, zpow_add₀ (by norm_num), zpow_one]
      conv_rhs => rw [hdiv]
      push_cast
      ring
    · rfl

/-- The shortest decimal is not beyond the interval of the numbers that round to `b`. The other
bound stands for the case that no grid has a hit. -/
theorem value_shortest_le (b : Binary) :
    (shortest b).value ≤ max (((b.significand : ℚ) + 1 / 2) * 2 ^ b.exponent) b.significand := by
  unfold shortest
  split
  · simp [value]
  · split
    · next d hd =>
      obtain ⟨n, -, hn⟩ := List.exists_of_findSome?_eq_some hd
      rw [value_normalize]
      exact (value_onGrid?_le hn).trans (le_max_left ..)
    · simp [value]

end Decimal

end DenialMonitor
