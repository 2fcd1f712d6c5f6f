import DenialMonitor.Proofs.Decimal.Bounds

set_option autoImplicit false

/-!
# Numbers that are read again

A number that was read and then written is read again, as some number. Integers are exact, so only
an overflow could prevent this: a float near the limit whose decimal is scaled beyond it.

The decimal that is written for a float `m · 2 ^ q` is at most `(m + 1/2) · 2 ^ q`, the reader
takes no more than the digits of it that fit, and it rounds three times, each time by at most the
`2 ^ 53`-th part. This stays below `2 ^ 1024` for all floats but the three greatest ones of either
sign, and these are tried one by one.

## Main definitions

* `NumberLiteral.absolute` — the number that a literal denotes, without its sign.

## Main results

* `Decimal.absolute_literal` — the literal of a decimal denotes the decimal.
* `NumberLiteral.isFinite_of_float?` — a literal is read as a finite float or not at all.
* `Number.exists_value?_literal` — a number that was read is written so that it is read again.
-/

namespace DenialMonitor

namespace NumberLiteral

/-! ## What a literal denotes -/

/-- The number that the digits of a literal denote, without its sign. -/
def absolute (l : NumberLiteral) : ℚ :=
  natural (l.whole ++ l.fraction) * 10 ^ (l.exponentValue - l.fraction.length)

/-- A literal whose digits are those of `n` and `k` zeros denotes a multiple of `n`. -/
theorem absolute_eq {l : NumberLiteral} {n k : Nat} {e : Int}
    (hn : natural (l.whole ++ l.fraction) = n * 10 ^ k)
    (he : l.exponentValue - l.fraction.length + k = e) : l.absolute = n * 10 ^ e := by
  rw [absolute, hn, ← he, zpow_add₀ (by norm_num), zpow_natCast]
  push_cast
  ring

theorem natural_zero_cons (ds : List Nat) : natural (0 :: ds) = natural ds := rfl

theorem natural_append_replicate (ds : List Nat) (k : Nat) :
    natural (ds ++ List.replicate k 0) = natural ds * 10 ^ k := by
  induction k with
  | zero => simp
  | succ k ih =>
    rw [List.replicate_succ', ← List.append_assoc, natural_append, ih]
    ring

theorem natural_replicate_append (k : Nat) (ds : List Nat) :
    natural (List.replicate k 0 ++ ds) = natural ds := by
  induction k with
  | zero => rfl
  | succ k ih => rw [List.replicate_succ, List.cons_append, natural_zero_cons, ih]

end NumberLiteral

open NumberLiteral

/-- The literal of a decimal denotes the decimal. -/
theorem Decimal.absolute_literal (negative : Bool) (d : Decimal) :
    (d.literal negative).absolute = d.value := by
  have hdigits := natural_digitsOf d.digits
  have hpos := List.length_pos_iff.mpr (digitsOf_ne_nil d.digits)
  simp only [literal]
  generalize hlead : d.exponent + ((digitsOf d.digits).length : Int) - 1 = lead
  split
  · next hzero =>
    rw [value, hzero]
    simp [absolute, natural]
  split
  · refine absolute_eq (k := 0) ?_ ?_
    · rw [List.singleton_append, natural_zero_cons, natural_replicate_append, hdigits]
      simp
    · simp only [exponentValue, List.length_append, List.length_replicate]
      omega
  split
  · split
    · refine absolute_eq (k := d.exponent.toNat + 1) ?_ ?_
      · rw [List.append_assoc, ← List.replicate_succ', natural_append_replicate, hdigits]
      · simp only [exponentValue, List.length_singleton]
        omega
    · refine absolute_eq (k := 0) ?_ ?_
      · rw [List.take_append_drop, hdigits]
        simp
      · simp only [exponentValue, List.length_drop]
        omega
  · have hfraction : (if (digitsOf d.digits).length ≤ 1 then [] else (digitsOf d.digits).drop 1) =
        (digitsOf d.digits).drop 1 := by
      split
      · next h => rw [List.drop_eq_nil_of_le h]
      · rfl
    refine absolute_eq (k := 0) ?_ ?_
    · rw [hfraction, List.take_append_drop, hdigits]
      simp
    · rw [hfraction, List.length_drop]
      have hlead' : (⟨negative, (digitsOf d.digits).take 1, (digitsOf d.digits).drop 1,
          some (lead < 0, digitsOf lead.natAbs)⟩ : NumberLiteral).exponentValue = lead := by
        by_cases h : lead < 0
        · simp only [exponentValue, h, decide_true, natural_digitsOf]
          omega
        · simp only [exponentValue, h, decide_false, natural_digitsOf]
          omega
      rw [hlead']
      omega

/-- The literal of a decimal has few digits before the point. -/
theorem Decimal.length_whole_literal_le (negative : Bool) (d : Decimal) :
    (d.literal negative).whole.length ≤ 16 := by
  simp only [literal]
  generalize hlead : d.exponent + ((digitsOf d.digits).length : Int) - 1 = lead
  split
  · simp
  split
  · simp
  split
  · split
    · simp only [List.length_append, List.length_replicate]
      omega
    · simp only [List.length_take]
      omega
  · simp only [List.length_take]
    omega

namespace NumberLiteral

/-! ## Reading a significand -/

/-- Every digit makes a number at least ten times as great. -/
theorem foldl_ge (n : Nat) (ds : List Nat) :
    n * 10 ^ ds.length ≤ ds.foldl (fun n d => 10 * n + d) n := by
  induction ds generalizing n with
  | nil => simp
  | cons d ds ih =>
    rw [List.length_cons, List.foldl_cons]
    refine le_trans ?_ (ih (10 * n + d))
    rw [Nat.pow_succ, ← Nat.mul_assoc, Nat.mul_right_comm]
    exact Nat.mul_le_mul_right _ (by omega)

/-- What is absorbed falls short of the digits. -/
theorem absorb_spec {n : Nat} (hn : n < UInt64.size) (ds : List Nat) :
    (absorb n ds).1 < UInt64.size ∧ (absorb n ds).2.length ≤ ds.length ∧
      (absorb n ds).1 * 10 ^ (absorb n ds).2.length ≤ ds.foldl (fun n d => 10 * n + d) n := by
  induction ds generalizing n with
  | nil => exact ⟨hn, le_refl _, by simp [absorb]⟩
  | cons d ds ih =>
    unfold absorb
    split
    · next h =>
      obtain ⟨hlt, hlen, hle⟩ := ih h
      exact ⟨hlt, Nat.le_succ_of_le hlen, hle⟩
    · exact ⟨hn, le_refl _, foldl_ge n (d :: ds)⟩

/-- Digits of a number that fits are all absorbed. -/
theorem absorb_eq {n : Nat} {ds : List Nat}
    (h : ds.foldl (fun n d => 10 * n + d) n < UInt64.size) :
    absorb n ds = (ds.foldl (fun n d => 10 * n + d) n, []) := by
  induction ds generalizing n with
  | nil => rfl
  | cons d ds ih =>
    have hle : 10 * n + d < UInt64.size := by
      refine lt_of_le_of_lt ?_ h
      refine le_trans ?_ (foldl_ge (10 * n + d) ds)
      exact Nat.le_mul_of_pos_right _ (Nat.pow_pos (by decide))
    rw [absorb, if_pos hle, ih h]
    rfl

/-- A number is bounded by the count of its digits. -/
theorem natural_lt {ds : List Nat} (h : ∀ d ∈ ds, d < 10) : natural ds < 10 ^ ds.length := by
  induction ds using List.reverseRecOn with
  | nil => simp [natural]
  | append_singleton ds d ih =>
    have hd : d < 10 := h d (by simp)
    have hds := ih fun a ha => h a (by simp [ha])
    rw [natural_append, List.length_append, List.length_singleton, Nat.pow_succ]
    omega

/-- A literal with few whole digits is read from a number that is not greater than what it
denotes. -/
theorem exists_float?_eq {l : NumberLiteral} (hwhole : ∀ d ∈ l.whole, d < 10)
    (hlen : l.whole.length ≤ 19) :
    ∃ (n : UInt64) (e : Int), l.float?.isSome = (scale? n.toFloat e).isSome ∧
      (n.toNat : ℚ) * 10 ^ e ≤ l.absolute := by
  have hfits : natural l.whole < UInt64.size :=
    ((natural_lt hwhole).trans_le (Nat.pow_le_pow_right (by decide) hlen)).trans_le (by decide)
  obtain ⟨hlt, hle, hspec⟩ := absorb_spec hfits l.fraction
  have hall : absorb 0 l.whole = (natural l.whole, []) := absorb_eq hfits
  generalize hn : (absorb (natural l.whole) l.fraction).1 = n at hlt hspec
  generalize hrest : (absorb (natural l.whole) l.fraction).2 = rest at hle hspec
  refine ⟨UInt64.ofNat n, (0 : Int) - (l.fraction.length - rest.length) + l.exponentValue, ?_, ?_⟩
  · simp only [float?, hall, hn, hrest, Option.isSome_map]
    rfl
  · rw [UInt64.toNat_ofNat_of_lt' hlt]
    have hsum : (0 : Int) - (l.fraction.length - rest.length) + l.exponentValue =
        rest.length + (l.exponentValue - l.fraction.length) := by omega
    rw [hsum, zpow_add₀ (by norm_num), ← mul_assoc, zpow_natCast, absolute, natural,
      List.foldl_append]
    gcongr
    exact_mod_cast hspec

/-! ## Scaling -/

/-- A quotient does not overflow. -/
theorem isSome_scale?_of_neg (x : Float) {e : Int} (h : e < 0) : (scale? x e).isSome = true := by
  fun_induction scale? x e with
  | case1 => omega
  | case2 => omega
  | case3 => omega
  | case4 => omega
  | case5 => rfl
  | case6 => rfl
  | case7 x e hbig hneg hlow hzero ih => exact ih (by omega)

theorem isSome_scale?_of_isInf_eq_false {x : Float} {k : Nat} (hk : k ≤ 308)
    (h : (x * powerOfTen k).isInf = false) : (scale? x k).isSome = true := by
  rw [scale?, if_neg (by omega), if_pos (by omega), Int.toNat_natCast]
  simp [h]

/-- A product does not overflow unless the exact product is close to the overflow. -/
theorem isSome_scale? {n : UInt64} {e : Int}
    (h : (n.toNat : ℚ) * 10 ^ e * (1 + 1 / 2 ^ 53) ^ 3 < 2 ^ 1024) :
    (scale? n.toFloat e).isSome = true := by
  rcases Int.lt_or_le e 0 with hneg | hnonneg
  · exact isSome_scale?_of_neg _ hneg
  obtain ⟨k, rfl⟩ := Int.eq_ofNat_of_zero_le hnonneg
  rw [zpow_natCast] at h
  rcases Nat.lt_or_ge 308 k with hbig | hk
  · rcases Nat.eq_zero_or_pos n.toNat with hzero | hpos
    · obtain rfl : n = 0 := UInt64.toNat_inj.mp hzero
      have hnull : ((0 : UInt64).toFloat == 0) = true := by decide
      rw [scale?, if_pos (by omega), hnull]
      rfl
    · have hten : 2 ^ 1024 < 10 ^ 309 := by decide +kernel
      have hpow : (10 : ℚ) ^ k < 10 ^ 309 := by
        calc (10 : ℚ) ^ k = 1 * 10 ^ k * 1 := by rw [one_mul, mul_one]
          _ ≤ n.toNat * 10 ^ k * (1 + 1 / 2 ^ 53) ^ 3 := by
            gcongr
            · exact_mod_cast hpos
            · exact one_le_pow₀ (by norm_num)
          _ < 2 ^ 1024 := h
          _ < 10 ^ 309 := by exact_mod_cast hten
      have hlt := (pow_lt_pow_iff_right₀ (by norm_num)).mp hpow
      omega
  · exact isSome_scale?_of_isInf_eq_false hk (Binary64.isInf_mul_powerOfTen hk h)

/-- Scaling a finite float gives a finite float. -/
theorem isFinite_of_scale? {x y : Float} {e : Int} (hx : x.isFinite = true)
    (h : scale? x e = some y) : y.isFinite = true := by
  fun_induction scale? x e with
  | case1 => exact Option.some.inj h ▸ hx
  | case2 => cases h
  | case3 => cases h
  | case4 x e hbig hnonneg z hinf =>
    obtain rfl := Option.some.inj h
    refine Binary64.isFinite_mul hx (Binary64.isFinite_powerOfTen (by omega)) ?_
    simpa using hinf
  | case5 x e hbig hneg hlow =>
    obtain rfl := Option.some.inj h
    exact Binary64.isFinite_div_powerOfTen hx (by omega) (by omega)
  | case6 => exact Option.some.inj h ▸ hx
  | case7 x e hbig hneg hlow hzero ih =>
    exact ih (Binary64.isFinite_div_powerOfTen hx (by decide) (by decide)) h

/-- A literal is read as a finite float or not at all. -/
theorem isFinite_of_float? {l : NumberLiteral} {x : Float} (h : l.float? = some x) :
    x.isFinite = true := by
  obtain ⟨y, hy, rfl⟩ := Option.map_eq_some_iff.mp h
  have hfinite := isFinite_of_scale? (Binary64.isFinite_toFloat _) hy
  split
  · exact Binary64.isFinite_neg hfinite
  · exact hfinite

end NumberLiteral

/-! ## Floats are read back -/

namespace Binary

theorem ofFloat_subnormal {x : Float} (h : x.toBits.toNat / 2 ^ 52 % 2048 = 0) :
    ofFloat x = ⟨x.toBits.toNat / 2 ^ 52 / 2048 = 1, x.toBits.toNat % 2 ^ 52, -1074, false⟩ := by
  simp only [ofFloat]
  exact if_pos h

theorem ofFloat_normal {x : Float} (h : x.toBits.toNat / 2 ^ 52 % 2048 ≠ 0) :
    ofFloat x = ⟨x.toBits.toNat / 2 ^ 52 / 2048 = 1, 2 ^ 52 + x.toBits.toNat % 2 ^ 52,
      ((x.toBits.toNat / 2 ^ 52 % 2048 : Nat) : Int) - 1075,
      x.toBits.toNat % 2 ^ 52 = 0 ∧ 1 < x.toBits.toNat / 2 ^ 52 % 2048⟩ := by
  simp only [ofFloat]
  exact if_neg h

/-- The parts of a finite float are bounded. -/
theorem bounds_ofFloat {x : Float} (h : x.isFinite = true) :
    (ofFloat x).significand < 2 ^ 53 ∧ (ofFloat x).exponent ≤ 971 := by
  rw [Binary64.isFinite_iff] at h
  by_cases hb : x.toBits.toNat / 2 ^ 52 % 2048 = 0
  · simp only [ofFloat_subnormal hb]
    omega
  · simp only [ofFloat_normal hb]
    omega

/-- There are three floats beyond `(2 ^ 53 - 4) · 2 ^ 971` of either sign. -/
theorem ofFloat_eq_of_lt {x : Float} (h : x.isFinite = true)
    (hsig : 2 ^ 53 - 4 < (ofFloat x).significand) (hexp : 970 < (ofFloat x).exponent) :
    ∃ i < 3, ofFloat x = ⟨(ofFloat x).negative, 2 ^ 53 - 1 - i, 971, false⟩ := by
  rw [Binary64.isFinite_iff] at h
  by_cases hb : x.toBits.toNat / 2 ^ 52 % 2048 = 0
  · simp only [ofFloat_subnormal hb] at hexp
    omega
  · simp only [ofFloat_normal hb] at hsig hexp ⊢
    refine ⟨2 ^ 52 - 1 - x.toBits.toNat % 2 ^ 52, by omega, ?_⟩
    simp only [mk.injEq, true_and, decide_eq_false_iff_not]
    omega

end Binary

namespace Number

/-- The three greatest floats are read back as some float. -/
theorem isSome_float?_greatest : ∀ negative : Bool, ∀ i < 3,
    ((Decimal.shortest ⟨negative, 2 ^ 53 - 1 - i, 971, false⟩).literal negative).float?.isSome =
      true := by
  decide +kernel

/-- The shortest decimal of any other float is not close to the overflow.

**Proof sketch.** In units of `2 ^ 971`, the decimal is at most `2 ^ 53 - 7/2`, and the factor
adds hardly more than `3`. -/
theorem value_shortest_lt {b : Binary} (hsig : b.significand < 2 ^ 53) (hexp : b.exponent ≤ 971)
    (hgreat : b.significand ≤ 2 ^ 53 - 4 ∨ b.exponent ≤ 970) :
    (Decimal.shortest b).value * (1 + 1 / 2 ^ 53) ^ 3 < 2 ^ 1024 := by
  obtain ⟨unit, hunit⟩ : ∃ unit : ℚ, unit = 2 ^ (971 : Int) := ⟨_, rfl⟩
  have htwo : 2 ≤ unit := by
    rw [hunit]
    exact (zpow_le_zpow_right₀ (by norm_num) (by decide : (1 : Int) ≤ 971)).trans_eq' (zpow_one 2)
  have hlimit : (2 : ℚ) ^ 1024 = 2 ^ 53 * unit := by
    rw [hunit, ← zpow_natCast, ← zpow_natCast, ← zpow_add₀ (by norm_num)]
    rfl
  have hsig' : (b.significand : ℚ) ≤ 2 ^ 53 - 1 := by
    have : (b.significand : ℚ) + 1 ≤ 2 ^ 53 := by exact_mod_cast hsig
    linarith
  have hbound : (Decimal.shortest b).value ≤ (2 ^ 53 - 7 / 2) * unit := by
    refine (Decimal.value_shortest_le b).trans (max_le ?_ ?_)
    · rcases hgreat with h | h
      · have hsig'' : (b.significand : ℚ) + 4 ≤ 2 ^ 53 := by
          have : b.significand + 4 ≤ 2 ^ 53 := by omega
          exact_mod_cast this
        have hpow : (2 : ℚ) ^ b.exponent ≤ unit := by
          rw [hunit]
          exact zpow_le_zpow_right₀ (by norm_num) hexp
        exact mul_le_mul (by linarith only [hsig'']) hpow (by positivity) (by norm_num)
      · have hpow : (2 : ℚ) ^ b.exponent * 2 ≤ unit := by
          rw [hunit, ← zpow_add_one₀ (by norm_num)]
          exact zpow_le_zpow_right₀ (by norm_num) (by omega)
        calc ((b.significand : ℚ) + 1 / 2) * 2 ^ b.exponent
            ≤ 2 ^ 53 * (unit / 2) :=
              mul_le_mul (by linarith only [hsig']) (by linarith only [hpow]) (by positivity)
                (by norm_num)
          _ ≤ (2 ^ 53 - 7 / 2) * unit := by linarith only [htwo]
    · linarith only [hsig', htwo]
  rw [hlimit]
  calc (Decimal.shortest b).value * (1 + 1 / 2 ^ 53) ^ 3
      ≤ (2 ^ 53 - 7 / 2) * unit * (1 + 1 / 2 ^ 53) ^ 3 := by gcongr
    _ = (2 ^ 53 - 7 / 2) * (1 + 1 / 2 ^ 53) ^ 3 * unit := by ring
    _ < 2 ^ 53 * unit := by
      gcongr
      norm_num

/-- A finite float is read back as some float. -/
theorem isSome_float?_literal {x : Float} (hx : x.isFinite = true) :
    (Number.float x).literal.float?.isSome = true := by
  obtain ⟨hsig, hexp⟩ := Binary.bounds_ofFloat hx
  by_cases hgreat : 2 ^ 53 - 4 < (Binary.ofFloat x).significand ∧ 970 < (Binary.ofFloat x).exponent
  · obtain ⟨i, hi, heq⟩ := Binary.ofFloat_eq_of_lt hx hgreat.1 hgreat.2
    rw [literal, heq]
    exact isSome_float?_greatest _ i hi
  · have hlen := Decimal.length_whole_literal_le (Binary.ofFloat x).negative
      (Decimal.shortest (Binary.ofFloat x))
    obtain ⟨n, e, hread, hle⟩ := exists_float?_eq (spelled_literal (.float x)).whole_lt
      (hlen.trans (by decide))
    rw [hread]
    refine isSome_scale? (lt_of_le_of_lt ?_ (value_shortest_lt hsig hexp (by omega)))
    rw [← Decimal.absolute_literal (Binary.ofFloat x).negative]
    gcongr
    exact hle

/-- A number that was read is written so that it is read again. -/
theorem exists_value?_literal {l : NumberLiteral} {n : Number} (h : l.value? = some n) :
    ∃ n', n.literal.value? = some n' := by
  cases n with
  | integer n => exact ⟨_, value?_literal_integer (fits_of_value? h)⟩
  | float x =>
    have hx : x.isFinite = true := by
      simp only [value?] at h
      split at h
      · cases h
      · obtain ⟨y, hy, hyx⟩ := Option.map_eq_some_iff.mp h
        obtain rfl := Number.float.inj hyx
        exact isFinite_of_float? hy
    obtain ⟨y, hy⟩ := Option.isSome_iff_exists.mp (isSome_float?_literal hx)
    simp only [value?]
    split
    · exact ⟨_, rfl⟩
    · exact ⟨.float y, by rw [hy]; rfl⟩

end Number

end DenialMonitor
