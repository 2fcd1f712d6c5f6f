import Mathlib.Algebra.Order.Field.Power
import Mathlib.Tactic.GCongr
import Mathlib.Tactic.Linarith
import Mathlib.Tactic.NormNum
import Mathlib.Tactic.Positivity
import Mathlib.Tactic.Ring

set_option autoImplicit false

/-!
# Rounding to 53 bits

A number `m · 2 ^ e` is rounded to binary64 by shifting its mantissa until 53 bits or fewer are
left and adding one or nothing to what is left. Exact numbers are rounded to the nearest, so the
mantissa grows by at most one half; a number with at least 53 bits that is not subnormal grows by
at most the `2 ^ 53`-th part of it.

## Main definitions

* `gridExponent` — the exponent at which a number is rounded.
* `Rounded` — what a rounded mantissa and its exponent become.

## Main results

* `rounded_roundWithAccuracy` — the result of rounding, with bounds of its mantissa.
* `exists_finite_of_normal` — the result of rounding a number that is not subnormal.
-/

namespace DenialMonitor.Binary64

open Float.Model Float.Model.UnpackedFloat

/-! ## Shifted mantissas -/

section Shift

variable (em : ExtendedMantissa)

theorem mantissa_le_roundedMantissa : em.mantissa ≤ em.roundedMantissa := by
  obtain ⟨m, r, s⟩ := em
  cases r <;> cases s <;>
    simp [ExtendedMantissa.roundedMantissa, ExtendedMantissa.accuracy, Accuracy.roundToNearestEven]

/-- At most the round bit is added. -/
theorem roundedMantissa_le : em.roundedMantissa ≤ em.mantissa + em.roundBit.toNat := by
  obtain ⟨m, r, s⟩ := em
  cases r <;> cases s <;>
    simp [ExtendedMantissa.roundedMantissa, ExtendedMantissa.accuracy, Accuracy.roundToNearestEven]
  omega

theorem shiftRight_succ (k : Nat) : em >>> (k + 1) = (em >>> k).shiftRightOne := rfl

theorem mantissa_shiftRight (k : Nat) : (em >>> k).mantissa = em.mantissa / 2 ^ k := by
  induction k with
  | zero => simp [HShiftRight.hShiftRight, Nat.repeat]
  | succ k ih =>
    rw [shiftRight_succ, ExtendedMantissa.shiftRightOne, ih, Nat.div_div_eq_div_mul, Nat.pow_succ]

/-- An exact mantissa is rounded up only past one half.

**Proof sketch.** The round bit is the last bit that the shift drops. If it is clear, nothing is
added; if it is set, the shift by one bit less gives an odd number, and half the number after it is
what the mantissa is rounded up to. -/
theorem two_mul_roundedMantissa_le (m k : Nat) :
    2 * ((⟨m, false, false⟩ : ExtendedMantissa) >>> k).roundedMantissa * 2 ^ k ≤ 2 * m + 2 ^ k := by
  generalize hem : (⟨m, false, false⟩ : ExtendedMantissa) = em
  have hm : m = em.mantissa := by rw [← hem]
  have hle := roundedMantissa_le (em >>> k)
  rw [mantissa_shiftRight, ← hm] at hle
  have hfloor : m / 2 ^ k * 2 ^ k ≤ m := Nat.div_mul_le_self ..
  cases hbit : (em >>> k).roundBit with
  | false =>
    rw [hbit, Bool.toNat_false, Nat.add_zero] at hle
    have hmul := Nat.mul_le_mul_right (2 ^ k) hle
    rw [Nat.mul_assoc]
    exact Nat.le_add_right_of_le (Nat.mul_le_mul_left 2 (hmul.trans hfloor))
  | true =>
    cases k with
    | zero => simp [HShiftRight.hShiftRight, Nat.repeat, ← hem] at hbit
    | succ j =>
      rw [shiftRight_succ, ExtendedMantissa.shiftRightOne, mantissa_shiftRight, ← hm] at hbit
      have hodd : m / 2 ^ j = 2 * (m / 2 ^ (j + 1)) + 1 := by
        rw [Nat.pow_succ, ← Nat.div_div_eq_div_mul]
        simp only [bne_iff_ne] at hbit
        omega
      have hj : m / 2 ^ j * 2 ^ j ≤ m := Nat.div_mul_le_self ..
      have htop : (em >>> (j + 1)).roundedMantissa ≤ m / 2 ^ (j + 1) + 1 :=
        hle.trans (Nat.add_le_add_left (Bool.toNat_le _) _)
      calc 2 * (em >>> (j + 1)).roundedMantissa * 2 ^ (j + 1)
          ≤ 2 * (m / 2 ^ (j + 1) + 1) * 2 ^ (j + 1) := by gcongr
        _ = 2 * (m / 2 ^ j * 2 ^ j) + 2 ^ (j + 1) := by rw [hodd]; ring
        _ ≤ 2 * m + 2 ^ (j + 1) := by omega

end Shift

/-! ## The result of rounding -/

/-- The exponent at which `m · 2 ^ e` is rounded: the one that leaves 53 bits, but no less than the
exponent of subnormal numbers and the one that the number has. -/
def gridExponent (m : Nat) (e : Int) : Int :=
  max e (max (m.log2 + 1 + e - 53) (-1074))

theorem le_gridExponent (m : Nat) (e : Int) : e ≤ gridExponent m e :=
  le_max_left ..

/-- What rounding to the mantissa `r` at the exponent `e` gives; a mantissa that takes one bit more
is halved. -/
inductive Rounded (s : Sign) (r : Nat) (e : Int) : UnpackedFloat → Prop
  | zero : r = 0 → Rounded s r e (.zero s)
  | fits (hr : 0 < r) : r < 2 ^ 53 → Rounded s r e (.finite s r e hr)
  | carry (hr : 0 < 2 ^ 52) : r = 2 ^ 53 → Rounded s r e (.finite s (2 ^ 52) (e + 1) hr)

theorem targetExponent_eq (t : Int) :
    Format.binary64.targetExponent t = max (t - 53) (-1074) :=
  rfl

theorem shiftToTargetExponent_snd (m : Nat) (e : Int) (a : Accuracy) :
    (shiftToTargetExponent Format.binary64 m e a).2 = gridExponent m e := by
  simp only [shiftToTargetExponent, shiftToExponent, targetExponent_eq, totalExponent, gridExponent]
  omega

theorem shiftToTargetExponent_fst (m : Nat) (e : Int) (a : Accuracy) :
    (shiftToTargetExponent Format.binary64 m e a).1 =
      ExtendedMantissa.ofMantissaAndAccuracy m a >>> (gridExponent m e - e).toNat := by
  simp only [shiftToTargetExponent, shiftToExponent, targetExponent_eq, totalExponent, gridExponent]
  congr 1
  omega

theorem mantissa_ofMantissaAndAccuracy (m : Nat) (a : Accuracy) :
    (ExtendedMantissa.ofMantissaAndAccuracy m a).mantissa = m := by
  unfold ExtendedMantissa.ofMantissaAndAccuracy
  split <;> rfl

/-- What is left of a mantissa has 53 bits or fewer. -/
theorem div_gridExponent_lt (m : Nat) (e : Int) :
    m / 2 ^ (gridExponent m e - e).toNat < 2 ^ 53 := by
  have hlog : m < 2 ^ (m.log2 + 1) := Nat.lt_log2_self
  rw [Nat.div_lt_iff_lt_mul (Nat.two_pow_pos _), ← Nat.pow_add]
  refine hlog.trans_le (Nat.pow_le_pow_right (by decide) ?_)
  simp only [gridExponent]
  omega

/-- A mantissa of 53 bits or fewer is not shifted again, and the first one with more is halved. -/
theorem rounded_of_le {s : Sign} {r : Nat} {e : Int} (he : -1074 ≤ e) (hr : r ≤ 2 ^ 53) :
    Rounded s r e
      (let (em, e') := shiftToTargetExponent Format.binary64 r e .exact
      if h : em.mantissa = 0 then .zero s
        else .finite s em.mantissa e' (Nat.pos_of_ne_zero h)) := by
  have hfst := congrArg ExtendedMantissa.mantissa (shiftToTargetExponent_fst r e .exact)
  have hsnd := shiftToTargetExponent_snd r e .exact
  rw [mantissa_shiftRight, mantissa_ofMantissaAndAccuracy] at hfst
  generalize shiftToTargetExponent Format.binary64 r e .exact = p at hfst hsnd ⊢
  obtain ⟨⟨m, _, _⟩, e'⟩ := p
  change m = r / 2 ^ (gridExponent r e - e).toNat at hfst
  change e' = gridExponent r e at hsnd
  rcases Nat.lt_or_eq_of_le hr with hlt | rfl
  · have hgrid : gridExponent r e = e := by
      have hlog : r.log2 < 53 := by
        rcases Nat.eq_zero_or_pos r with rfl | hpos
        · decide
        · exact (Nat.log2_lt (Nat.ne_of_gt hpos)).mpr hlt
      simp only [gridExponent]
      omega
    rw [hgrid, Int.sub_self, Int.toNat_zero, Nat.pow_zero, Nat.div_one] at hfst
    obtain rfl : e' = e := hsnd.trans hgrid
    obtain rfl : m = r := hfst
    change Rounded s m e' (if h : m = 0 then .zero s else .finite s m e' (Nat.pos_of_ne_zero h))
    by_cases h : m = 0
    · rw [dif_pos h]
      exact .zero h
    · rw [dif_neg h]
      exact .fits _ hlt
  · have hgrid : gridExponent (2 ^ 53) e = e + 1 := by
      simp only [gridExponent, Nat.log2_two_pow]
      omega
    have hone : (e + 1 - e).toNat = 1 := by omega
    rw [hgrid, hone] at hfst
    obtain rfl : m = 2 ^ 52 := hfst
    obtain rfl : e' = e + 1 := hsnd.trans hgrid
    exact .carry _ rfl

/-- A number is rounded to the mantissa that its shift leaves or to a greater one, and an exact
number to no more than one half beyond it. -/
theorem rounded_roundWithAccuracy (s : Sign) (m : Nat) (e : Int) (a : Accuracy) :
    ∃ r, Rounded s r (gridExponent m e) (roundWithAccuracy Format.binary64 s m e a) ∧
      m / 2 ^ (gridExponent m e - e).toNat ≤ r ∧
      (a = .exact → 2 * r * 2 ^ (gridExponent m e - e).toNat ≤
        2 * m + 2 ^ (gridExponent m e - e).toNat) := by
  have hfst := shiftToTargetExponent_fst m e a
  have hsnd := shiftToTargetExponent_snd m e a
  have hge := mantissa_le_roundedMantissa (shiftToTargetExponent Format.binary64 m e a).1
  have hle := roundedMantissa_le (shiftToTargetExponent Format.binary64 m e a).1
  have hlt := div_gridExponent_lt m e
  have hgrid : -1074 ≤ gridExponent m e := by
    simp only [gridExponent]
    omega
  rw [hfst, mantissa_shiftRight, mantissa_ofMantissaAndAccuracy] at hge hle
  have hbit := Bool.toNat_le (ExtendedMantissa.ofMantissaAndAccuracy m a >>>
    (gridExponent m e - e).toNat).roundBit
  refine ⟨_, ?_, hge, ?_⟩
  · unfold roundWithAccuracy
    generalize shiftToTargetExponent Format.binary64 m e a = p at hfst hsnd ⊢
    obtain ⟨em, e'⟩ := p
    simp only at hfst hsnd
    subst hfst hsnd
    exact rounded_of_le hgrid (by omega)
  · rintro rfl
    exact two_mul_roundedMantissa_le m _

/-! ## Normal numbers -/

/-- A number of at least 53 bits that is not subnormal is rounded to exactly 53 bits. -/
theorem two_pow_gridExponent {m : Nat} (e : Int) (hm : 2 ^ 52 ≤ m) (he : -1022 ≤ m.log2 + e) :
    gridExponent m e = m.log2 + e - 52 ∧ 2 ^ 52 * 2 ^ (gridExponent m e - e).toNat ≤ m := by
  have hpos : m ≠ 0 := by omega
  have hlog : 52 ≤ m.log2 := (Nat.le_log2 hpos).mpr hm
  have hgrid : gridExponent m e = m.log2 + e - 52 := by
    simp only [gridExponent]
    omega
  refine ⟨hgrid, ?_⟩
  rw [← Nat.pow_add]
  refine (Nat.pow_le_pow_right (by decide) ?_).trans (Nat.log2_self_le hpos)
  omega

/-- A number of at least 53 bits that is not subnormal is rounded to a mantissa of 53 bits, and
becomes greater by no more than the `2 ^ 53`-th part of it. -/
theorem exists_finite_of_normal (s : Sign) {m : Nat} {e : Int} (hm : 2 ^ 52 ≤ m)
    (he : -1022 ≤ m.log2 + e) :
    ∃ r e' h, roundWithAccuracy Format.binary64 s m e .exact = .finite s r e' h ∧
      2 ^ 52 ≤ r ∧ r < 2 ^ 53 ∧ m.log2 + e - 52 ≤ e' ∧
      (r : ℚ) * 2 ^ e' ≤ m * 2 ^ e * (1 + 1 / 2 ^ 53) := by
  obtain ⟨hgrid, hk⟩ := two_pow_gridExponent e hm he
  obtain ⟨r, hrounded, hge, hle⟩ := rounded_roundWithAccuracy s m e .exact
  specialize hle rfl
  generalize hk' : (gridExponent m e - e).toNat = k at hge hle hk
  have hexp : (2 : ℚ) ^ gridExponent m e = 2 ^ k * 2 ^ e := by
    have hsum : gridExponent m e = k + e := by
      have := le_gridExponent m e
      omega
    rw [hsum, zpow_add₀ (by norm_num), zpow_natCast]
  have hlow : 2 ^ 52 ≤ r := ((Nat.le_div_iff_mul_le (Nat.two_pow_pos k)).mpr hk).trans hge
  have hvalue : (r : ℚ) * 2 ^ gridExponent m e ≤ m * 2 ^ e * (1 + 1 / 2 ^ 53) := by
    have hle' : (2 : ℚ) * r * 2 ^ k ≤ 2 * m + 2 ^ k := by exact_mod_cast hle
    have hk' : (2 : ℚ) ^ 52 * 2 ^ k ≤ m := by exact_mod_cast hk
    have hr : (r : ℚ) * 2 ^ k ≤ m * (1 + 1 / 2 ^ 53) := by
      norm_num at hk' ⊢
      linarith
    calc (r : ℚ) * 2 ^ gridExponent m e = r * 2 ^ k * 2 ^ e := by rw [hexp]; ring
      _ ≤ m * (1 + 1 / 2 ^ 53) * 2 ^ e := by gcongr
      _ = m * 2 ^ e * (1 + 1 / 2 ^ 53) := by ring
  generalize roundWithAccuracy Format.binary64 s m e .exact = u at hrounded
  cases hrounded with
  | zero h => omega
  | fits h hlt => exact ⟨r, _, h, rfl, hlow, hlt, by omega, hvalue⟩
  | carry h heq =>
    refine ⟨2 ^ 52, _, h, rfl, le_refl _, by norm_num, by omega, ?_⟩
    rw [heq] at hvalue
    rw [zpow_add₀ (by norm_num)]
    refine le_of_eq_of_le ?_ hvalue
    norm_num
    ring

end DenialMonitor.Binary64
