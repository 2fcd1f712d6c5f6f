import DenialMonitor.Proofs.Text.Split
import DenialMonitor.Proofs.Text.Utf8

set_option autoImplicit false

/-!
# Decoding line by line

A file is decoded before it is cut into lines. It may as well be cut first: an ASCII byte ends
whatever character is open and stands for itself, and no bytes but a line feed are decoded as one,
be they well-formed or not. So a line is decoded by itself, and what stands behind it in the file
does not matter.

## Main definitions

* `Utf8.Open.Beyond` — an open character lies beyond ASCII, whatever bytes follow.

## Main results

* `Utf8.scan_append_cons` — what stands before and behind an ASCII byte is decoded by itself.
* `Utf8.decodeLossyChars_eq_nil_iff` — no byte is decoded as nothing.
* `Utf8.isCut_decodeLossyChars` — the lines of a file are those of its bytes.
-/

namespace DenialMonitor.Utf8

variable {s : State} {b : UInt8} {read : List (Option Char)}

/-! ## Open characters -/

/-- An open character lies beyond ASCII, whatever bytes follow, and an ASCII byte cannot continue
it. -/
structure Open.Beyond (o : Open) : Prop where
  le_lower : 0x80 ≤ o.lower.toNat
  le_bits : 2 ≤ o.bits ∨ o.owed ≠ 0 ∧ 2 ≤ o.bits * 64 + (o.lower.toNat - 0x80)

/-- What is open, if anything, lies beyond ASCII. -/
def State.Beyond (s : State) : Prop :=
  ∀ o, s.opened = some o → o.Beyond

theorem beyond_of_opened_eq_none (h : s.opened = none) : s.Beyond := by
  simp [State.Beyond, h]

/-- What the first bytes of a character open lies beyond ASCII. -/
theorem Opens.beyond {bs : List UInt8} {o : Open} (h : Opens bs o) : o.Beyond := by
  cases h with
  | two hb => exact ⟨Nat.le_refl _, .inl (by simp only; omega)⟩
  | three hb =>
    simp only [← UInt8.toNat_inj, UInt8.reduceToNat]
    refine ⟨?_, .inr ⟨by simp, ?_⟩⟩ <;> simp only [apply_ite UInt8.toNat, UInt8.reduceToNat] <;>
      split <;> omega
  | threeSecond hb hc =>
    have hc := hc.toNat
    exact ⟨Nat.le_refl _, .inl (by simp only; omega)⟩
  | four hb =>
    simp only [← UInt8.toNat_inj, UInt8.reduceToNat]
    refine ⟨?_, .inr ⟨by simp, ?_⟩⟩ <;> simp only [apply_ite UInt8.toNat, UInt8.reduceToNat] <;>
      split <;> omega
  | fourSecond hb hc =>
    have hc := hc.toNat
    exact ⟨Nat.le_refl _, .inl (by simp only; omega)⟩
  | fourThird hb hc hd =>
    have hc := hc.toNat
    exact ⟨Nat.le_refl _, .inl (by simp only; omega)⟩

/-- A byte between two characters is an ASCII character, or malformed, or it opens a character that
lies beyond ASCII. -/
theorem start_cases (b : UInt8) :
    (b.toNat < 0x80 ∧ ∀ read, start read b = ⟨some (Char.ofNat b.toNat) :: read, none⟩) ∨
      0x80 ≤ b.toNat ∧ ((∀ read, start read b = ⟨none :: read, none⟩) ∨
        ∃ o : Open, o.Beyond ∧ ∀ read, start read b = ⟨read, some o⟩) := by
  rcases start_opens b with hascii | ⟨o, ho, heq⟩ | ⟨hb, heq⟩
  · exact .inl hascii
  · refine .inr ⟨?_, .inr ⟨o, ho.beyond, heq⟩⟩
    cases ho <;> omega
  · exact .inr ⟨hb, .inl heq⟩

theorem beyond_start (read : List (Option Char)) (b : UInt8) : (start read b).Beyond := by
  rcases start_cases b with ⟨-, h⟩ | ⟨-, h | ⟨o, ho, h⟩⟩
  · exact beyond_of_opened_eq_none (by rw [h])
  · exact beyond_of_opened_eq_none (by rw [h])
  · rw [h]
    rintro _ ⟨⟩
    exact ho

theorem beyond_step (h : s.Beyond) (b : UInt8) : (step s b).Beyond := by
  unfold step
  split
  · exact beyond_start _ _
  · next o hopened =>
    obtain ⟨hlower, hbits⟩ := h o hopened
    split
    · next hbounds =>
      have hle : o.lower.toNat ≤ b.toNat := UInt8.le_iff_toNat_le.mp hbounds.1
      split
      · exact beyond_of_opened_eq_none rfl
      · next n howed =>
        intro o' ho'
        obtain rfl := Option.some.inj ho'
        have hbits' : 2 ≤ o.bits * 64 + (b.toNat - 0x80) := by omega
        exact ⟨Nat.le_refl _, .inl hbits'⟩
    · exact beyond_start _ _

theorem beyond_foldl (h : s.Beyond) (bytes : List UInt8) : (bytes.foldl step s).Beyond := by
  induction bytes generalizing s with
  | nil => exact h
  | cons b bytes ih => exact ih (beyond_step h b)

theorem start_of_ascii (hb : b.toNat < 0x80) :
    start read b = ⟨some (Char.ofNat b.toNat) :: read, none⟩ := by
  rcases start_cases b with ⟨-, h⟩ | ⟨hnot, -⟩
  · exact h read
  · omega

/-- An ASCII byte ends what is open and stands for itself. -/
theorem step_of_ascii (h : s.Beyond) (hb : b.toNat < 0x80) :
    step s b = ⟨some (Char.ofNat b.toNat) :: s.pieces.reverse, none⟩ := by
  unfold step
  split
  · next hopened =>
    rw [start_of_ascii hb]
    simp [State.pieces, hopened]
  · next o hopened =>
    have hlower := (h o hopened).le_lower
    have hout : ¬ (o.lower ≤ b ∧ b ≤ o.upper) := by
      rw [UInt8.le_iff_toNat_le]
      omega
    rw [if_neg hout, start_of_ascii hb]
    simp [State.pieces, hopened]

/-! ## What was read before -/

/-- The state behind pieces that were read before. -/
def State.behind (read : List (Option Char)) (s : State) : State :=
  ⟨s.read ++ read, s.opened⟩

theorem start_append (s : State) (b : UInt8) :
    start (s.read ++ read) b = (start s.read b).behind read := by
  rcases start_cases b with ⟨-, h⟩ | ⟨-, h | ⟨o, -, h⟩⟩ <;> rw [h, h] <;> rfl

/-- What was read before does not matter to the machine. -/
theorem step_behind (s : State) (b : UInt8) : step (s.behind read) b = (step s b).behind read := by
  have hopened : (s.behind read).opened = s.opened := rfl
  have hread : (s.behind read).read = s.read ++ read := rfl
  unfold step
  rw [hopened, hread]
  split
  · exact start_append s b
  · next o ho =>
    by_cases hbounds : o.lower ≤ b ∧ b ≤ o.upper
    · simp only [hbounds, and_self, if_true]
      cases o.owed <;> rfl
    · simp only [hbounds, if_false]
      exact start_append ⟨none :: s.read, s.opened⟩ b

theorem foldl_behind (s : State) (bytes : List UInt8) :
    bytes.foldl step (s.behind read) = (bytes.foldl step s).behind read := by
  induction bytes generalizing s with
  | nil => rfl
  | cons b bytes ih => rw [List.foldl_cons, List.foldl_cons, step_behind, ih]

theorem pieces_behind (s : State) : (s.behind read).pieces = read.reverse ++ s.pieces := by
  unfold State.pieces
  have hopened : (s.behind read).opened = s.opened := rfl
  rw [hopened]
  cases s.opened <;> simp [State.behind]

/-- What stands before and behind an ASCII byte is decoded by itself. -/
theorem scan_append_cons (hb : b.toNat < 0x80) (bytes rest : List UInt8) :
    scan (bytes ++ b :: rest) = scan bytes ++ some (Char.ofNat b.toNat) :: scan rest := by
  have hbeyond : (bytes.foldl step ⟨[], none⟩).Beyond :=
    beyond_foldl (beyond_of_opened_eq_none rfl) bytes
  have hstart : (⟨some (Char.ofNat b.toNat) :: (scan bytes).reverse, none⟩ : State) =
      State.behind (some (Char.ofNat b.toNat) :: (scan bytes).reverse) ⟨[], none⟩ := rfl
  rw [scan, List.foldl_append, List.foldl_cons, step_of_ascii hbeyond hb, ← scan, hstart,
    foldl_behind, pieces_behind, ← scan]
  simp

/-- A byte leaves a piece behind, or an open character. -/
theorem pieces_step_ne_nil (s : State) (b : UInt8) : (step s b).pieces ≠ [] := by
  have hstart (read : List (Option Char)) : (start read b).pieces ≠ [] := by
    rcases start_cases b with ⟨-, h⟩ | ⟨-, h | ⟨o, -, h⟩⟩ <;> rw [h] <;> simp [State.pieces]
  unfold step
  split
  · exact hstart _
  · split
    · split <;> simp [State.pieces]
    · exact hstart _

/-- Only the empty sequence of bytes is decoded as the empty text. -/
theorem decodeLossyChars_eq_nil_iff {bytes : List UInt8} :
    decodeLossyChars bytes = [] ↔ bytes = [] := by
  refine ⟨fun h => ?_, fun h => h ▸ rfl⟩
  rcases List.eq_nil_or_concat' bytes with rfl | ⟨before, b, rfl⟩
  · rfl
  · rw [decodeLossyChars, List.map_eq_nil_iff, scan, List.foldl_append] at h
    exact absurd h (pieces_step_ne_nil _ b)

/-! ## Line feeds -/

theorem decodeLossyChars_append_lineFeed (bytes rest : List UInt8) :
    decodeLossyChars (bytes ++ 0x0A :: rest) =
      decodeLossyChars bytes ++ '\n' :: decodeLossyChars rest := by
  rw [decodeLossyChars, scan_append_cons (by decide), List.map_append, List.map_cons]
  rfl

/-- Only the number of the line feed makes it. -/
theorem ofNat_ne_lineFeed {n : Nat} (h : n ≠ 0x0A) : Char.ofNat n ≠ '\n' := by
  intro heq
  by_cases hvalid : n.isValidChar
  · rw [Char.ofNat, dif_pos hvalid] at heq
    have hval : n = 0x0A := congrArg (·.val.toNat) heq
    exact h hval
  · rw [Char.ofNat, dif_neg hvalid] at heq
    exact absurd heq (by decide)

theorem lineFeed_not_mem_start (hb : b ≠ 0x0A) (hread : some '\n' ∉ read) :
    some '\n' ∉ (start read b).read := by
  have hne : b.toNat ≠ 0x0A := fun heq => hb (UInt8.toNat_inj.mp heq)
  rcases start_cases b with ⟨-, h⟩ | ⟨-, h | ⟨o, -, h⟩⟩ <;> rw [h]
  · simpa [hread] using (ofNat_ne_lineFeed hne).symm
  · simpa using hread
  · exact hread

/-- No byte but a line feed completes a character that is one. -/
theorem lineFeed_not_mem_step (h : s.Beyond) (hb : b ≠ 0x0A) (hread : some '\n' ∉ s.read) :
    some '\n' ∉ (step s b).read := by
  unfold step
  split
  · exact lineFeed_not_mem_start hb hread
  · next o hopened =>
    obtain ⟨-, hbits⟩ := h o hopened
    split
    · split
      · next howed =>
        have hne : o.bits * 64 + (b.toNat - 0x80) ≠ 0x0A := by omega
        simpa [hread] using (ofNat_ne_lineFeed hne).symm
      · exact hread
    · exact lineFeed_not_mem_start hb (by simpa using hread)

theorem lineFeed_not_mem_foldl {bytes : List UInt8} (h : s.Beyond) (hbytes : 0x0A ∉ bytes)
    (hread : some '\n' ∉ s.read) : some '\n' ∉ (bytes.foldl step s).read := by
  induction bytes generalizing s with
  | nil => exact hread
  | cons b bytes ih =>
    obtain ⟨hb, hbytes⟩ := List.ne_and_not_mem_of_not_mem_cons hbytes
    exact ih (beyond_step h b) hbytes (lineFeed_not_mem_step h hb.symm hread)

/-- Bytes without a line feed are decoded as a text without one. -/
theorem lineFeed_not_mem_decodeLossyChars {bytes : List UInt8} (h : 0x0A ∉ bytes) :
    '\n' ∉ decodeLossyChars bytes := by
  have hread : some '\n' ∉ (bytes.foldl step ⟨[], none⟩).read :=
    lineFeed_not_mem_foldl (beyond_of_opened_eq_none rfl) h (by simp)
  intro hmem
  obtain ⟨piece, hpiece, heq⟩ := List.mem_map.mp hmem
  cases piece with
  | none => exact absurd heq (by decide)
  | some c =>
    obtain rfl : c = '\n' := heq
    unfold scan State.pieces at hpiece
    split at hpiece <;> simp [hread] at hpiece

/-- The lines of a file are those of its bytes. -/
theorem isCut_decodeLossyChars {bytes rest : List UInt8} {lines : List (List UInt8)}
    (h : Split.IsCut 0x0A bytes lines rest) :
    Split.IsCut '\n' (decodeLossyChars bytes) (lines.map decodeLossyChars)
      (decodeLossyChars rest) := by
  obtain ⟨rfl, hlines, hrest⟩ := h
  refine ⟨?_, ?_, lineFeed_not_mem_decodeLossyChars hrest⟩
  · induction lines with
    | nil => simp
    | cons line lines ih =>
      rw [List.flatMap_cons, List.append_assoc, List.append_assoc, List.singleton_append,
        decodeLossyChars_append_lineFeed, ih fun l hl => hlines l (List.mem_cons_of_mem _ hl)]
      simp
  · intro line hline
    obtain ⟨bytes, hbytes, rfl⟩ := List.mem_map.mp hline
    exact lineFeed_not_mem_decodeLossyChars (hlines bytes hbytes)

end DenialMonitor.Utf8
