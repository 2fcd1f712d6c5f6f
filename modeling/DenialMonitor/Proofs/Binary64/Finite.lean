import DenialMonitor.Json.Number
import DenialMonitor.Proofs.Binary64.Rounding

set_option autoImplicit false

/-!
# Finite floats

Which operations of the reader of numbers stay within the finite floats. A word of 64 bits and a
power of ten up to `10 ^ 308` are finite and off by at most the `2 ^ 53`-th part; so is their
product, if the exact product is not close to the overflow. A quotient of a finite float by a power
of ten is finite in any case.

## Main definitions

* `InRange` — numbers that are not stored as an infinity.

## Main results

* `isFinite_iff` — finite floats by their bits.
* `isFinite_mul`, `isFinite_div_powerOfTen` — operations that give finite floats.
* `isInf_mul_powerOfTen` — products that do not overflow.
-/

namespace DenialMonitor.Binary64

open Float.Model Float.Model.UnpackedFloat

/-! ## Storing numbers -/

/-- Numbers that are zero, or finite with at most 53 bits and an exponent that is not too great. -/
inductive InRange : UnpackedFloat → Prop
  | zero (s : Sign) : InRange (.zero s)
  | finite (s : Sign) {m : Nat} {e : Int} (h : 0 < m) : m < 2 ^ 53 → e ≤ 971 →
      InRange (.finite s m e h)

theorem InRange.isFinite {u : UnpackedFloat} (h : InRange u) : u.isFinite = true := by
  cases h <;> rfl

/-- A finite number is zero or has a mantissa. -/
theorem eq_zero_or_finite {u : UnpackedFloat} (h : u.isFinite = true) :
    (∃ s, u = .zero s) ∨ ∃ s m e hm, u = .finite s m e hm := by
  cases u with
  | infinity s => exact absurd h Bool.false_ne_true
  | notANumber => exact absurd h Bool.false_ne_true
  | zero s => exact .inl ⟨s, rfl⟩
  | finite s m e hm => exact .inr ⟨s, m, e, hm, rfl⟩

/-- The first bit of a mantissa that is not stored. -/
theorem toNat_append_one (v : BitVec 52) : (1#1 ++ v).toNat = 2 ^ 52 + v.toNat := by
  rw [BitVec.toNat_append, ← Nat.shiftLeft_add_eq_or_of_lt v.isLt]
  rfl

/-- What 64 bits stand for. -/
theorem unpack_eq (b : BitVec 64) :
    unpack Format.binary64 b =
      if @unpackExponent Format.binary64 b = -1#_ then
        if @unpackMantissa Format.binary64 b = 0#_ then
          .infinity (.ofBitVec (@unpackSign Format.binary64 b))
        else .notANumber
      else if @unpackExponent Format.binary64 b = 0#_ then
        if h : @unpackMantissa Format.binary64 b = 0#_ then
          .zero (.ofBitVec (@unpackSign Format.binary64 b))
        else .finite (.ofBitVec (@unpackSign Format.binary64 b))
          (@unpackMantissa Format.binary64 b).toNat
          ((@unpackExponent Format.binary64 b).toNat - 1075 + 1)
          (by simpa [BitVec.toNat_pos, BitVec.pos_iff_ne_zero] using h)
      else .finite (.ofBitVec (@unpackSign Format.binary64 b))
        (1#1 ++ @unpackMantissa Format.binary64 b).toNat
        ((@unpackExponent Format.binary64 b).toNat - 1075)
        (by rw [toNat_append_one]; omega) :=
  rfl

/-- Numbers are finite unless all bits of the exponent are set. -/
theorem isFinite_unpack (b : BitVec 64) :
    (unpack Format.binary64 b).isFinite = true ↔ @unpackExponent Format.binary64 b ≠ -1#_ := by
  rw [unpack_eq]
  by_cases hones : @unpackExponent Format.binary64 b = -1#_
  · rw [if_pos hones]
    refine iff_of_false ?_ (fun hne => hne hones)
    by_cases hman : @unpackMantissa Format.binary64 b = 0#_
    · rw [if_pos hman]
      exact Bool.false_ne_true
    · rw [if_neg hman]
      exact Bool.false_ne_true
  · rw [if_neg hones]
    refine iff_of_true ?_ hones
    by_cases hexp : @unpackExponent Format.binary64 b = 0#_
    · rw [if_pos hexp]
      by_cases hman : @unpackMantissa Format.binary64 b = 0#_
      · rw [dif_pos hman]
        rfl
      · rw [dif_neg hman]
        rfl
    · rw [if_neg hexp]
      rfl

theorem toNat_unpackExponent (b : BitVec 64) :
    (@unpackExponent Format.binary64 b).toNat = b.toNat / 2 ^ 52 % 2048 := by
  simp [unpackExponent, BitVec.extractLsb, BitVec.extractLsb', Nat.shiftRight_eq_div_pow]

/-- What is stored as a finite number is in range. -/
theorem inRange_unpack {b : BitVec 64} (h : (unpack Format.binary64 b).isFinite = true) :
    InRange (unpack Format.binary64 b) := by
  rw [isFinite_unpack] at h
  have hexp : (@unpackExponent Format.binary64 b).toNat < 2047 := by
    have hlt : (@unpackExponent Format.binary64 b).toNat < 2048 := BitVec.isLt _
    have hne : (@unpackExponent Format.binary64 b).toNat ≠ 2047 :=
      fun hb => h (BitVec.eq_of_toNat_eq hb)
    omega
  have hm : (@unpackMantissa Format.binary64 b).toNat < 2 ^ 52 := BitVec.isLt _
  rw [unpack_eq, if_neg h]
  by_cases hzero : @unpackExponent Format.binary64 b = 0#_
  · rw [if_pos hzero]
    by_cases hman : @unpackMantissa Format.binary64 b = 0#_
    · rw [dif_pos hman]
      exact .zero _
    · rw [dif_neg hman]
      exact .finite _ _ (by omega) (by rw [hzero]; decide)
  · rw [if_neg hzero]
    exact .finite _ _ (by rw [toNat_append_one]; omega) (by omega)

/-- The bits of a finite number. -/
theorem pack_finite (s : Sign) (m : Nat) (e : Int) (h : 0 < m) :
    UnpackedFloat.pack Format.binary64 (.finite s m e h) =
      if 2048 ≤ (e + 1023 + 52).toNat + 1 then packedInfinity Format.binary64 s
      else if m.log2 + 1 = 53 then
        packComponents Format.binary64 s (.ofNat 11 (e + 1023 + 52).toNat) (.ofNat 52 m)
      else packComponents Format.binary64 s 0#_ (.ofNat 52 m) :=
  rfl

theorem unpack_packedInfinity (s : Sign) :
    (unpack Format.binary64 (packedInfinity Format.binary64 s)).isInf = true := by
  have hexp : @unpackExponent Format.binary64 (packedInfinity Format.binary64 s) = -1#_ :=
    unpackExponent_packComponents
  have hman : @unpackMantissa Format.binary64 (packedInfinity Format.binary64 s) = 0#_ :=
    unpackMantissa_packComponents
  rw [unpack_eq, if_pos hexp, if_pos hman]
  rfl

/-- Zero and finite numbers are stored as such or, if they are not in range, as an infinity. -/
theorem isFinite_unpack_pack {u : UnpackedFloat} (h : u.isFinite = true) :
    (unpack Format.binary64 (UnpackedFloat.pack Format.binary64 u)).isFinite = true ∨
      ¬ InRange u ∧
        (unpack Format.binary64 (UnpackedFloat.pack Format.binary64 u)).isInf = true := by
  obtain ⟨s, rfl⟩ | ⟨s, m, e, hm, rfl⟩ := eq_zero_or_finite h
  · refine .inl ((isFinite_unpack _).mpr ?_)
    change unpackExponent (packComponents Format.binary64 s 0 0) ≠ _
    rw [unpackExponent_packComponents]
    decide
  rw [pack_finite]
  by_cases hbig : 2048 ≤ (e + 1023 + 52).toNat + 1
  · rw [if_pos hbig]
    refine .inr ⟨?_, unpack_packedInfinity s⟩
    rintro ⟨⟩
    omega
  · rw [if_neg hbig]
    refine .inl ((isFinite_unpack _).mpr ?_)
    split
    · rw [unpackExponent_packComponents]
      intro hexp
      have hnat := congrArg BitVec.toNat hexp
      rw [BitVec.toNat_ofNat, Nat.mod_eq_of_lt (by omega)] at hnat
      have hones : (-1#11 : BitVec 11).toNat = 2047 := rfl
      have : (e + 1023 + 52).toNat = 2047 := hnat.trans hones
      omega
    · rw [unpackExponent_packComponents]
      decide

theorem finite_congr {s : Sign} {m m' : Nat} {e e' : Int} {h : 0 < m} {h' : 0 < m'} (hm : m = m')
    (he : e = e') : UnpackedFloat.finite s m e h = .finite s m' e' h' := by
  subst hm he
  rfl

/-- A number with a mantissa of 53 bits is stored without loss. -/
theorem unpack_pack {s : Sign} {m : Nat} {e : Int} (h : 0 < m) (hlow : 2 ^ 52 ≤ m)
    (hhigh : m < 2 ^ 53) (he : -1074 ≤ e) (hrange : e ≤ 971) :
    ∃ s', unpack Format.binary64 (UnpackedFloat.pack Format.binary64 (.finite s m e h)) =
      .finite s' m e h := by
  have hlog : m.log2 + 1 = 53 := by
    rw [(Nat.log2_eq_iff (by omega)).mpr ⟨hlow, hhigh⟩]
  have hbiased : ∃ k : Nat, k < 2047 ∧ 0 < k ∧ e = k - 1075 :=
    ⟨(e + 1075).toNat, by omega, by omega, by omega⟩
  obtain ⟨k, hk, hpos, rfl⟩ := hbiased
  have hstored : ((k : Int) - 1075 + 1023 + 52).toNat = k := by omega
  have hnat : (BitVec.ofNat 11 k).toNat = k := by
    rw [BitVec.toNat_ofNat]
    omega
  have hones : BitVec.ofNat 11 k ≠ -1#_ := fun hb => by
    have := congrArg BitVec.toNat hb
    rw [hnat] at this
    exact absurd this (Nat.ne_of_lt hk)
  have hzero : BitVec.ofNat 11 k ≠ 0#_ := fun hb => by
    have := congrArg BitVec.toNat hb
    rw [hnat] at this
    exact absurd this (Nat.ne_of_gt hpos)
  have hm : (1#1 ++ BitVec.ofNat 52 m).toNat = m := by
    rw [toNat_append_one, BitVec.toNat_ofNat]
    omega
  rw [pack_finite, hstored, if_neg (by omega), if_pos hlog]
  generalize hb : packComponents Format.binary64 s (.ofNat 11 k) (.ofNat 52 m) = b
  have hexp : @unpackExponent Format.binary64 b = .ofNat 11 k := by
    rw [← hb, unpackExponent_packComponents]
  have hman : @unpackMantissa Format.binary64 b = .ofNat 52 m := by
    rw [← hb, unpackMantissa_packComponents]
  rw [unpack_eq, if_neg (hexp ▸ hones), if_neg (hexp ▸ hzero)]
  refine ⟨_, finite_congr ?_ ?_⟩
  · rw [hman, hm]
  · rw [hexp, hnat]

theorem InRange.isFinite_unpack_pack {u : UnpackedFloat} (h : InRange u) :
    (unpack Format.binary64 (UnpackedFloat.pack Format.binary64 u)).isFinite = true := by
  rcases Binary64.isFinite_unpack_pack h.isFinite with h' | ⟨h', -⟩
  · exact h'
  · exact absurd h h'

/-! ## Rounded numbers -/

theorem isFinite_roundWithAccuracy (s : Sign) (m : Nat) (e : Int) (a : Accuracy) :
    (roundWithAccuracy Format.binary64 s m e a).isFinite = true := by
  obtain ⟨r, hr, -⟩ := rounded_roundWithAccuracy s m e a
  generalize roundWithAccuracy Format.binary64 s m e a = u at hr
  cases hr <;> rfl

theorem inRange_roundWithAccuracy (s : Sign) {m : Nat} {e : Int} (a : Accuracy)
    (h : gridExponent m e ≤ 970) : InRange (roundWithAccuracy Format.binary64 s m e a) := by
  obtain ⟨r, hr, -⟩ := rounded_roundWithAccuracy s m e a
  generalize roundWithAccuracy Format.binary64 s m e a = u at hr
  cases hr with
  | zero => exact .zero s
  | fits hr hlt => exact .finite s hr hlt (by omega)
  | carry hr => exact .finite s hr (by decide) (by omega)

/-- A number that is rounded to 53 bits and stays below `2 ^ 1024` is stored without loss. -/
theorem exists_unpack_pack_round (s : Sign) {m : Nat} {e : Int} (hm : 2 ^ 52 ≤ m)
    (he : -1022 ≤ m.log2 + e) (hlt : (m : ℚ) * 2 ^ e * (1 + 1 / 2 ^ 53) < 2 ^ 1024) :
    ∃ s' r e' h, unpack Format.binary64 (UnpackedFloat.pack Format.binary64
        (roundWithAccuracy Format.binary64 s m e .exact)) = .finite s' r e' h ∧
      2 ^ 52 ≤ r ∧ m.log2 + e - 52 ≤ e' ∧ (r : ℚ) * 2 ^ e' ≤ m * 2 ^ e * (1 + 1 / 2 ^ 53) := by
  obtain ⟨r, e', h, hround, hlow, hhigh, hexp, hle⟩ := exists_finite_of_normal s hm he
  have hrange : e' < 972 := by
    have hlow' : (2 : ℚ) ^ 52 ≤ r := by exact_mod_cast hlow
    have hpow : (2 : ℚ) ^ (52 + e') < 2 ^ (1024 : Int) := by
      calc (2 : ℚ) ^ (52 + e') = 2 ^ 52 * 2 ^ e' := by
            rw [zpow_add₀ (by norm_num)]
            norm_num
        _ ≤ r * 2 ^ e' := by gcongr
        _ ≤ m * 2 ^ e * (1 + 1 / 2 ^ 53) := hle
        _ < 2 ^ (1024 : Int) := by exact_mod_cast hlt
    have := (zpow_lt_zpow_iff_right₀ (by norm_num)).mp hpow
    omega
  obtain ⟨s', hs'⟩ := unpack_pack (s := s) (e := e') h hlow hhigh (by omega) (by omega)
  exact ⟨s', r, e', h, by rw [hround, hs'], hlow, hexp, hle⟩

/-- A quotient by a mantissa of 53 bits takes at most one bit more than the exponents say. -/
theorem gridExponent_divCore_le {m₁ m₂ : Nat} {e₁ e₂ : Int} (h₁ : m₁ < 2 ^ 53) (h₂ : 2 ^ 52 ≤ m₂)
    (hle : e₁ - e₂ ≤ 1020) :
    gridExponent (divCore Format.binary64 m₁ e₁ m₂ e₂).1 (divCore Format.binary64 m₁ e₁ m₂ e₂).2.1 ≤
      970 := by
  have hlog₁ : m₁.log2 ≤ 52 := by
    rcases Nat.eq_zero_or_pos m₁ with rfl | hpos
    · decide
    · exact Nat.le_of_lt_succ ((Nat.log2_lt (Nat.ne_of_gt hpos)).mpr h₁)
  have hlog₂ : 52 ≤ m₂.log2 := (Nat.le_log2 (by omega)).mpr h₂
  simp only [divCore, targetExponent_eq, totalExponent, Nat.shiftLeft_eq]
  generalize he : min (e₁ - e₂)
    (max ((m₁.log2 : Int) + 1 + e₁ - (m₂.log2 + 1 + e₂) - 53) (-1074)) = e
  generalize hk : (e₁ - e₂ - e).toNat = k
  have hquot : (m₁ * 2 ^ k / m₂).log2 ≤ k := by
    rcases Nat.eq_zero_or_pos (m₁ * 2 ^ k / m₂) with hzero | hpos
    · rw [hzero]
      exact Nat.zero_le k
    · refine Nat.le_of_lt_succ ((Nat.log2_lt (Nat.ne_of_gt hpos)).mpr ?_)
      rw [Nat.div_lt_iff_lt_mul (by omega)]
      calc m₁ * 2 ^ k < 2 ^ 53 * 2 ^ k := Nat.mul_lt_mul_of_pos_right h₁ (Nat.two_pow_pos k)
        _ = 2 ^ (k + 1) * 2 ^ 52 := by ring
        _ ≤ 2 ^ (k + 1) * m₂ := Nat.mul_le_mul_left _ h₂
  simp only [gridExponent]
  omega

theorem log2_mul_two_pow {n : Nat} (hn : 0 < n) (k : Nat) : (n * 2 ^ k).log2 = n.log2 + k := by
  have hne : n ≠ 0 := Nat.ne_of_gt hn
  have hpow : 2 ^ k ≠ 0 := Nat.pos_iff_ne_zero.mp (Nat.two_pow_pos k)
  refine (Nat.log2_eq_iff (Nat.mul_ne_zero hne hpow)).mpr ⟨?_, ?_⟩
  · rw [Nat.pow_add]
    exact Nat.mul_le_mul_right _ (Nat.log2_self_le hne)
  · rw [Nat.add_right_comm, Nat.pow_add]
    exact Nat.mul_lt_mul_of_pos_right Nat.lt_log2_self (Nat.two_pow_pos k)

/-- A positive word of 64 bits as a float. -/
theorem exists_unpack_toFloat {n : UInt64} (hn : 0 < n.toNat) :
    ∃ s r e h, n.toFloat.toModel.unpack = .finite s r e h ∧ 2 ^ 52 ≤ r ∧ -52 ≤ e ∧
      (r : ℚ) * 2 ^ e ≤ n.toNat * (1 + 1 / 2 ^ 53) := by
  have hlt : n.toNat < 2 ^ 64 := n.toNat_lt
  have hlog : n.toNat.log2 < 64 := (Nat.log2_lt (Nat.ne_of_gt hn)).mpr hlt
  generalize hk : ((0 : Int) - max ((n.toNat.log2 : Int) + 1 + 0 - 53) (-1074)).toNat = k
  have hround : UnpackedFloat.ofUInt64 Format.binary64 n =
      roundWithAccuracy Format.binary64 .positive (n.toNat * 2 ^ k) (0 - k) .exact := by
    have hgt : compare (n.toNat : Int) 0 = .gt := by
      rw [Int.compare_eq_gt]
      omega
    simp only [UnpackedFloat.ofUInt64, UnpackedFloat.ofNat, UnpackedFloat.ofInt,
      UnpackedFloat.normalize, hgt, UnpackedFloat.round, decreaseExponent, targetExponent_eq,
      totalExponent, Int.toNat_natCast, hk, Nat.shiftLeft_eq]
  have hlow : 2 ^ 52 ≤ n.toNat * 2 ^ k := by
    refine le_trans (Nat.pow_le_pow_right (by decide) ?_)
      (Nat.log2_self_le (n := n.toNat * 2 ^ k) ?_)
    · rw [log2_mul_two_pow hn]
      omega
    · have := Nat.two_pow_pos k
      positivity
  have hvalue : ((n.toNat * 2 ^ k : Nat) : ℚ) * 2 ^ (0 - k : Int) = n.toNat := by
    rw [zero_sub, zpow_neg, zpow_natCast]
    push_cast
    rw [mul_assoc, mul_inv_cancel₀ (by positivity), mul_one]
  have hsmall : (n.toNat : ℚ) * (1 + 1 / 2 ^ 53) < 2 ^ 1024 := by
    have hword : (n.toNat : ℚ) < 2 ^ 64 := by exact_mod_cast hlt
    calc (n.toNat : ℚ) * (1 + 1 / 2 ^ 53) < 2 ^ 65 := by linarith
      _ ≤ 2 ^ 1024 := pow_le_pow_right₀ (by norm_num) (by norm_num)
  obtain ⟨s, r, e, h, hr, hlow', hexp, hle⟩ := exists_unpack_pack_round .positive hlow
    (e := 0 - k) (by rw [log2_mul_two_pow hn]; omega) (by rwa [hvalue])
  rw [log2_mul_two_pow hn] at hexp
  rw [hvalue] at hle
  refine ⟨s, r, e, h, ?_, hlow', by omega, hle⟩
  rw [← hr, ← hround]
  rfl

/-- The powers of ten are rounded from their exact values. -/
theorem powerOfTen_eq (k : Nat) (hk : k ≤ 308) :
    NumberLiteral.powerOfTen k = .ofModel (.ofScientific 1 k) := by
  unfold NumberLiteral.powerOfTen Float.ofScientific
  split
  · next h =>
    have hall : ∀ k < 23, (Float.ofScientific 1 false k) = .ofModel (.ofScientific 1 k) := by
      decide +kernel
    have := hall k (by omega)
    unfold Float.ofScientific at this
    rwa [dif_pos h] at this
  · rfl

/-- A power of ten as a float. -/
theorem exists_unpack_powerOfTen {k : Nat} (hk : k ≤ 308) :
    ∃ s r e h, (NumberLiteral.powerOfTen k).toModel.unpack = .finite s r e h ∧ 2 ^ 52 ≤ r ∧
      -52 ≤ e ∧ (0 < k → -49 ≤ e) ∧ (r : ℚ) * 2 ^ e ≤ 10 ^ k * (1 + 1 / 2 ^ 53) := by
  have hvalue : ((2 ^ 53 * 10 ^ k : Nat) : ℚ) * 2 ^ (-53 : Int) = 10 ^ k := by
    push_cast
    ring
  have hpow : 0 < 10 ^ k := Nat.pow_pos (by decide)
  have hlog : (2 ^ 53 * 10 ^ k).log2 = (10 ^ k).log2 + 53 := by
    rw [Nat.mul_comm, log2_mul_two_pow hpow]
  have hsmall : (10 : ℚ) ^ k * (1 + 1 / 2 ^ 53) < 2 ^ 1024 := by
    have hnat : 10 ^ 308 * (2 ^ 53 + 1) < 2 ^ 1024 * 2 ^ 53 := by decide +kernel
    have hcast : (10 : ℚ) ^ 308 * (2 ^ 53 + 1) < 2 ^ 1024 * 2 ^ 53 := by exact_mod_cast hnat
    calc (10 : ℚ) ^ k * (1 + 1 / 2 ^ 53) ≤ 10 ^ 308 * (1 + 1 / 2 ^ 53) := by gcongr; norm_num
      _ = 10 ^ 308 * (2 ^ 53 + 1) / 2 ^ 53 := by
        rw [one_add_div (by norm_num), mul_div_assoc]
      _ < 2 ^ 1024 := (div_lt_iff₀ (by norm_num)).mpr hcast
  have hten : 0 < k → 3 ≤ (10 ^ k).log2 := fun hpos => by
    rw [Nat.le_log2 (by omega)]
    calc 2 ^ 3 ≤ 10 ^ 1 := by decide
      _ ≤ 10 ^ k := Nat.pow_le_pow_right (by decide) hpos
  obtain ⟨s, r, e, h, hr, hlow, hexp, hle⟩ := exists_unpack_pack_round .positive
    (m := 2 ^ 53 * 10 ^ k) (e := -53) (by omega) (by omega) (by rwa [hvalue])
  rw [hvalue] at hle
  refine ⟨s, r, e, h, ?_, hlow, by omega, by omega, hle⟩
  have hround : UnpackedFloat.ofScientific Format.binary64 1 k =
      roundWithAccuracy Format.binary64 .positive (2 ^ 53 * 10 ^ k) (-53) .exact := by
    have hbig : ¬ (k : Int) > 2 ^ 11 := by omega
    have hlow : ¬ (k : Int) < -(2 ^ 11 + (1 : Nat).log2) := by omega
    unfold UnpackedFloat.ofScientific
    rw [dif_neg (by decide), if_neg hbig, if_neg hlow, if_pos (by omega)]
    rfl
  rw [powerOfTen_eq k hk, ← hr, ← hround]
  rfl

/-! ## Floats -/

/-- A float is finite unless all bits of its exponent are set. -/
theorem isFinite_iff (x : Float) : x.isFinite = true ↔ x.toBits.toNat / 2 ^ 52 % 2048 ≠ 2047 := by
  have h := isFinite_unpack x.toModel.toBits.toBitVec
  rw [ne_eq, ← BitVec.toNat_inj, toNat_unpackExponent] at h
  exact h

theorem isFinite_toFloat (n : UInt64) : n.toFloat.isFinite = true := by
  rcases Nat.eq_zero_or_pos n.toNat with h | h
  · obtain rfl : n = 0 := UInt64.toNat_inj.mp h
    decide
  · obtain ⟨s, r, e, h, hn, -⟩ := exists_unpack_toFloat h
    exact congrArg UnpackedFloat.isFinite hn

theorem isFinite_neg {x : Float} (h : x.isFinite = true) : (-x).isFinite = true := by
  have hneg : InRange x.toModel.unpack.neg := by
    have hrange : InRange x.toModel.unpack := inRange_unpack h
    generalize x.toModel.unpack = u at hrange
    cases hrange with
    | zero s => exact .zero _
    | finite s hm hlt hle => exact .finite _ hm hlt hle
  exact hneg.isFinite_unpack_pack

theorem isFinite_powerOfTen {k : Nat} (hk : k ≤ 308) :
    (NumberLiteral.powerOfTen k).isFinite = true := by
  obtain ⟨s, r, e, h, hn, -⟩ := exists_unpack_powerOfTen hk
  exact congrArg UnpackedFloat.isFinite hn

/-- A product of finite floats is finite or overflows. -/
theorem isFinite_mul {x y : Float} (hx : x.isFinite = true) (hy : y.isFinite = true)
    (h : (x * y).isInf = false) : (x * y).isFinite = true := by
  have hmul : (mul Format.binary64 x.toModel.unpack y.toModel.unpack).isFinite = true := by
    have hu : x.toModel.unpack.isFinite = true := hx
    have hv : y.toModel.unpack.isFinite = true := hy
    generalize x.toModel.unpack = u at hu
    generalize y.toModel.unpack = v at hv
    obtain ⟨s₁, rfl⟩ | ⟨s₁, m₁, e₁, h₁, rfl⟩ := eq_zero_or_finite hu
    · obtain ⟨s₂, rfl⟩ | ⟨s₂, m₂, e₂, h₂, rfl⟩ := eq_zero_or_finite hv <;> rfl
    · obtain ⟨s₂, rfl⟩ | ⟨s₂, m₂, e₂, h₂, rfl⟩ := eq_zero_or_finite hv
      · rfl
      · exact isFinite_roundWithAccuracy _ _ _ _
  rcases isFinite_unpack_pack hmul with h' | h'
  · exact h'
  · exact absurd (h'.2.symm.trans h) (by decide)

/-- A quotient of a finite float by a power of ten is finite. -/
theorem isFinite_div_powerOfTen {x : Float} (hx : x.isFinite = true) {k : Nat} (hpos : 0 < k)
    (hk : k ≤ 308) : (x / NumberLiteral.powerOfTen k).isFinite = true := by
  obtain ⟨s₂, m₂, e₂, h₂, hy, hlow, -, hexp, -⟩ := exists_unpack_powerOfTen hk
  specialize hexp hpos
  have hdiv : InRange (div Format.binary64 x.toModel.unpack
      (NumberLiteral.powerOfTen k).toModel.unpack) := by
    have hrange : InRange x.toModel.unpack := inRange_unpack hx
    rw [hy]
    generalize x.toModel.unpack = u at hrange
    cases hrange with
    | zero s => exact .zero _
    | finite s hm hlt hle =>
      exact inRange_roundWithAccuracy _ _ (gridExponent_divCore_le hlt hlow (by omega))
  exact hdiv.isFinite_unpack_pack

/-- A product of a word of 64 bits and a power of ten is finite unless the exact product is close
to the overflow. -/
theorem isInf_mul_powerOfTen {n : UInt64} {k : Nat} (hk : k ≤ 308)
    (hlt : (n.toNat : ℚ) * 10 ^ k * (1 + 1 / 2 ^ 53) ^ 3 < 2 ^ 1024) :
    (n.toFloat * NumberLiteral.powerOfTen k).isInf = false := by
  obtain ⟨s₂, m₂, e₂, h₂, hy, hlow₂, hexp₂, -, hle₂⟩ := exists_unpack_powerOfTen hk
  have hproduct : (n.toFloat * NumberLiteral.powerOfTen k).isInf =
      (unpack Format.binary64 (UnpackedFloat.pack Format.binary64 (mul Format.binary64
        n.toFloat.toModel.unpack (NumberLiteral.powerOfTen k).toModel.unpack))).isInf := rfl
  rw [hproduct, hy]
  rcases Nat.eq_zero_or_pos n.toNat with hzero | hn
  · obtain rfl : n = 0 := UInt64.toNat_inj.mp hzero
    have hnull : (0 : UInt64).toFloat.toModel.unpack = .zero .positive := rfl
    have hmul : mul Format.binary64 (.zero .positive) (.finite s₂ m₂ e₂ h₂) =
        .zero (.positive * s₂) := rfl
    rw [hnull, hmul]
    cases s₂ <;> rfl
  obtain ⟨s₁, m₁, e₁, h₁, hx, hlow₁, hexp₁, hle₁⟩ := exists_unpack_toFloat hn
  have hprod : ((m₁ * m₂ : Nat) : ℚ) * 2 ^ (e₁ + e₂) * (1 + 1 / 2 ^ 53) < 2 ^ 1024 := by
    calc ((m₁ * m₂ : Nat) : ℚ) * 2 ^ (e₁ + e₂) * (1 + 1 / 2 ^ 53)
        = (m₁ * 2 ^ e₁) * (m₂ * 2 ^ e₂) * (1 + 1 / 2 ^ 53) := by
          rw [zpow_add₀ (by norm_num)]
          push_cast
          ring
      _ ≤ ((n.toNat : ℚ) * (1 + 1 / 2 ^ 53)) * (10 ^ k * (1 + 1 / 2 ^ 53)) * (1 + 1 / 2 ^ 53) := by
        gcongr
      _ = (n.toNat : ℚ) * 10 ^ k * (1 + 1 / 2 ^ 53) ^ 3 := by ring
      _ < 2 ^ 1024 := hlt
  have hlow : 2 ^ 104 ≤ m₁ * m₂ :=
    le_trans (by decide : 2 ^ 104 ≤ 2 ^ 52 * 2 ^ 52) (Nat.mul_le_mul hlow₁ hlow₂)
  have hlog : 104 ≤ (m₁ * m₂).log2 := (Nat.le_log2 (by omega)).mpr hlow
  obtain ⟨s, r, e, h, hr, -⟩ := exists_unpack_pack_round (s₁ * s₂)
    (le_trans (by decide) hlow) (by omega) hprod
  rw [hx]
  exact congrArg UnpackedFloat.isInf hr

end DenialMonitor.Binary64
