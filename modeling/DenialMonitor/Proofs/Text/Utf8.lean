import DenialMonitor.Text.Utf8

set_option autoImplicit false

/-!
# Decoding what was encoded

The bytes of a character take the machine from between two characters to between two characters,
and the character is what it reads there. So every text is read back from its bytes. Conversely,
whatever the machine reads a character from is the bytes of the character. So nothing but the bytes
of a text is read as a text.

## Main definitions

* `Utf8.Opens` — the first bytes of a character.
* `Utf8.ReadFrom` — what the bytes were from which the machine has come to a state.

## Main results

* `Utf8.foldl_step_encodeChar` — the machine reads a character from its bytes.
* `Utf8.decode?_encode` — a text is read back from its bytes.
* `Utf8.ReadFrom.step` — one more byte.
* `Utf8.decode?_eq_some_iff` — the bytes that are read as a text.
-/

namespace DenialMonitor.Utf8

variable {read : List (Option Char)}

/-! ## Bytes as numbers -/

/-- The number of a byte below 256. -/
private theorem toNat_byte {n : Nat} (h : n < 256) : (UInt8.ofNat n).toNat = n :=
  UInt8.toNat_ofNat_of_lt' h

/-- What a byte does between two characters, by its number. -/
theorem start_byte {n : Nat} (h : n < 256) :
    start read (UInt8.ofNat n) =
      if n < 0x80 then ⟨some (Char.ofNat n) :: read, none⟩
      else if n < 0xC2 then ⟨none :: read, none⟩
      else if n < 0xE0 then ⟨read, some ⟨n - 0xC0, 0x80, 0xBF, 0⟩⟩
      else if n < 0xF0 then
        ⟨read, some ⟨n - 0xE0, if n = 0xE0 then 0xA0 else 0x80, if n = 0xED then 0x9F else 0xBF, 1⟩⟩
      else if n < 0xF5 then
        ⟨read, some ⟨n - 0xF0, if n = 0xF0 then 0x90 else 0x80, if n = 0xF4 then 0x8F else 0xBF, 2⟩⟩
      else ⟨none :: read, none⟩ := by
  have hlt (k : Nat) (hk : k < 256) : UInt8.ofNat n < UInt8.ofNat k ↔ n < k := by
    rw [UInt8.lt_iff_toNat_lt, toNat_byte h, toNat_byte hk]
  have heq (k : Nat) (hk : k < 256) : UInt8.ofNat n = UInt8.ofNat k ↔ n = k := by
    rw [← UInt8.toNat_inj, toNat_byte h, toNat_byte hk]
  have h80 := hlt 0x80 (by decide)
  have hC2 := hlt 0xC2 (by decide)
  have hE0 := hlt 0xE0 (by decide)
  have hF0 := hlt 0xF0 (by decide)
  have hF5 := hlt 0xF5 (by decide)
  have heE0 := heq 0xE0 (by decide)
  have heED := heq 0xED (by decide)
  have heF0 := heq 0xF0 (by decide)
  have heF4 := heq 0xF4 (by decide)
  simp only [UInt8.reduceOfNat] at h80 hC2 hE0 hF0 hF5 heE0 heED heF0 heF4
  simp only [start, toNat_byte h, h80, hC2, hE0, hF0, hF5, heE0, heED, heF0, heF4]

/-- A byte that may come next adds its six bits to the open character. -/
theorem step_byte {bits n owed : Nat} {lower upper : UInt8} (hn : n < 0x40)
    (hl : lower.toNat ≤ n + 0x80) (hu : n + 0x80 ≤ upper.toNat) :
    step ⟨read, some ⟨bits, lower, upper, owed⟩⟩ (UInt8.ofNat (n + 0x80)) =
      match owed with
      | 0 => ⟨some (Char.ofNat (bits * 64 + n)) :: read, none⟩
      | k + 1 => ⟨read, some ⟨bits * 64 + n, 0x80, 0xBF, k⟩⟩ := by
  have hb : (UInt8.ofNat (n + 0x80)).toNat = n + 0x80 := toNat_byte (by omega)
  have hbounds : lower ≤ UInt8.ofNat (n + 0x80) ∧ UInt8.ofNat (n + 0x80) ≤ upper := by
    rw [UInt8.le_iff_toNat_le, UInt8.le_iff_toNat_le, hb]
    exact ⟨hl, hu⟩
  cases owed <;> simp only [step, hbounds, and_self, if_true, hb, Nat.add_sub_cancel]

/-! ## Characters -/

/-- The machine reads a character from its bytes.

**Proof sketch.** A character takes one to four bytes, by the size of its number. The first byte
holds the highest bits and each further byte six more, so the bits that were read add up to the
number. The narrower bounds on a second byte hold since the number is large enough for so many
bytes, is no surrogate, and is not above U+10FFFF. -/
theorem foldl_step_encodeChar (c : Char) :
    (String.utf8EncodeChar c).foldl step ⟨read, none⟩ = ⟨some c :: read, none⟩ := by
  have hvalid : c.val.toNat < 0xD800 ∨ 0xDFFF < c.val.toNat ∧ c.val.toNat < 0x110000 := c.valid
  have hc : Char.ofNat c.val.toNat = c := Char.ofNat_toNat c
  simp only [String.utf8EncodeChar]
  generalize c.val.toNat = v at hvalid hc
  have hstart {bs : List UInt8} {b : UInt8} :
      (b :: bs).foldl step ⟨read, none⟩ = bs.foldl step (start read b) := rfl
  by_cases h1 : v ≤ 0x7F
  · rw [if_pos h1, hstart, start_byte (by omega), if_pos (by omega), hc, List.foldl_nil]
  rw [if_neg h1]
  by_cases h2 : v ≤ 0x7FF
  · rw [if_pos h2, hstart, start_byte (by omega), if_neg (by omega), if_neg (by omega),
      if_pos (by omega), List.foldl_cons, step_byte (by omega) (by simp) (by simp; omega)]
    rw [show (v / 64 % 0x20 + 0xC0 - 0xC0) * 64 + v % 64 = v by omega, hc, List.foldl_nil]
  rw [if_neg h2]
  by_cases h3 : v ≤ 0xFFFF
  · rw [if_pos h3, hstart, start_byte (by omega), if_neg (by omega), if_neg (by omega),
      if_neg (by omega), if_pos (by omega), List.foldl_cons,
      step_byte (by omega) (by split <;> simp; omega) (by split <;> simp <;> omega),
      List.foldl_cons, step_byte (by omega) (by simp) (by simp; omega)]
    rw [show ((v / 4096 % 0x10 + 0xE0 - 0xE0) * 64 + v / 64 % 64) * 64 + v % 64 = v by omega, hc,
      List.foldl_nil]
  rw [if_neg h3, hstart, start_byte (by omega), if_neg (by omega), if_neg (by omega),
    if_neg (by omega), if_neg (by omega), if_pos (by omega), List.foldl_cons,
    step_byte (by omega) (by split <;> simp; omega) (by split <;> simp <;> omega),
    List.foldl_cons, step_byte (by omega) (by simp) (by simp; omega),
    List.foldl_cons, step_byte (by omega) (by simp) (by simp; omega)]
  rw [show (((v / 262144 % 8 + 0xF0 - 0xF0) * 64 + v / 4096 % 64) * 64 + v / 64 % 64) * 64 + v % 64 =
    v by omega, hc, List.foldl_nil]

/-- The machine reads the characters of a text from their bytes. -/
theorem foldl_step_encodeChars (cs : List Char) :
    (encodeChars cs).foldl step ⟨read, none⟩ = ⟨(cs.map some).reverse ++ read, none⟩ := by
  induction cs generalizing read with
  | nil => rfl
  | cons c cs ih =>
    rw [encodeChars, List.flatMap_cons, List.foldl_append, foldl_step_encodeChar]
    rw [encodeChars] at ih
    simp [ih]

/-- Nothing is malformed in the bytes of a text. -/
theorem scan_encodeChars (cs : List Char) : scan (encodeChars cs) = cs.map some := by
  simp [scan, foldl_step_encodeChars, State.pieces]

/-- Pieces that are all characters. -/
theorem mapM_id_eq_some_iff {xs : List (Option Char)} {cs : List Char} :
    xs.mapM id = some cs ↔ xs = cs.map some := by
  induction xs generalizing cs with
  | nil => cases cs <;> simp
  | cons x xs ih =>
    cases x with
    | none => cases cs <;> simp
    | some c =>
      cases cs with
      | nil => simp [Option.bind_eq_some_iff]
      | cons d ds => simpa [Option.bind_eq_some_iff, ih] using and_comm

/-- A text is read back from its bytes. -/
theorem decode?_encode (s : String) : decode? (encode s) = some s := by
  rw [decode?, decodeChars?, encode, scan_encodeChars, mapM_id_eq_some_iff.mpr rfl,
    Option.map_some, String.ofList_toList]

/-! ## Bytes that are read as characters -/

/-- The bytes of the character with the number `v`. -/
theorem utf8EncodeChar_ofNat {v : Nat} (h : v < 0xD800 ∨ 0xDFFF < v ∧ v < 0x110000) :
    String.utf8EncodeChar (Char.ofNat v) =
      if v ≤ 0x7F then [UInt8.ofNat v]
      else if v ≤ 0x7FF then [UInt8.ofNat (v / 64 % 32 + 0xC0), UInt8.ofNat (v % 64 + 0x80)]
      else if v ≤ 0xFFFF then
        [UInt8.ofNat (v / 4096 % 16 + 0xE0), UInt8.ofNat (v / 64 % 64 + 0x80),
          UInt8.ofNat (v % 64 + 0x80)]
      else
        [UInt8.ofNat (v / 262144 % 8 + 0xF0), UInt8.ofNat (v / 4096 % 64 + 0x80),
          UInt8.ofNat (v / 64 % 64 + 0x80), UInt8.ofNat (v % 64 + 0x80)] := by
  have hnumber : (Char.ofNat v).val.toNat = v := by
    rw [Char.ofNat, dif_pos h]
    rfl
  rw [String.utf8EncodeChar, hnumber]

theorem ofNat_eq {n : Nat} {b : UInt8} (h : n = b.toNat) : UInt8.ofNat n = b := by
  rw [h, UInt8.ofNat_toNat]

/-- A byte that may come second in a character of three bytes that starts with `b`. -/
def SecondOfThree (b c : UInt8) : Prop :=
  (if b = 0xE0 then 0xA0 else 0x80) ≤ c ∧ c ≤ if b = 0xED then 0x9F else 0xBF

/-- A byte that may come second in a character of four bytes that starts with `b`. -/
def SecondOfFour (b c : UInt8) : Prop :=
  (if b = 0xF0 then 0x90 else 0x80) ≤ c ∧ c ≤ if b = 0xF4 then 0x8F else 0xBF

/-- A byte that may come behind the second one. -/
def Further (c : UInt8) : Prop :=
  0x80 ≤ c ∧ c ≤ 0xBF

/-- The first bytes of a character, and what is known of it when they have been read. -/
inductive Opens : List UInt8 → Open → Prop where
  | two {b : UInt8} (hb : 0xC2 ≤ b.toNat ∧ b.toNat < 0xE0) :
    Opens [b] ⟨b.toNat - 0xC0, 0x80, 0xBF, 0⟩
  | three {b : UInt8} (hb : 0xE0 ≤ b.toNat ∧ b.toNat < 0xF0) :
    Opens [b] ⟨b.toNat - 0xE0, if b = 0xE0 then 0xA0 else 0x80, if b = 0xED then 0x9F else 0xBF, 1⟩
  | threeSecond {b c : UInt8} (hb : 0xE0 ≤ b.toNat ∧ b.toNat < 0xF0) (hc : SecondOfThree b c) :
    Opens [b, c] ⟨(b.toNat - 0xE0) * 64 + (c.toNat - 0x80), 0x80, 0xBF, 0⟩
  | four {b : UInt8} (hb : 0xF0 ≤ b.toNat ∧ b.toNat < 0xF5) :
    Opens [b] ⟨b.toNat - 0xF0, if b = 0xF0 then 0x90 else 0x80, if b = 0xF4 then 0x8F else 0xBF, 2⟩
  | fourSecond {b c : UInt8} (hb : 0xF0 ≤ b.toNat ∧ b.toNat < 0xF5) (hc : SecondOfFour b c) :
    Opens [b, c] ⟨(b.toNat - 0xF0) * 64 + (c.toNat - 0x80), 0x80, 0xBF, 1⟩
  | fourThird {b c d : UInt8} (hb : 0xF0 ≤ b.toNat ∧ b.toNat < 0xF5) (hc : SecondOfFour b c)
    (hd : Further d) :
    Opens [b, c, d]
      ⟨((b.toNat - 0xF0) * 64 + (c.toNat - 0x80)) * 64 + (d.toNat - 0x80), 0x80, 0xBF, 0⟩

theorem Further.toNat {c : UInt8} (h : Further c) : 0x80 ≤ c.toNat ∧ c.toNat ≤ 0xBF := by
  simpa [Further, UInt8.le_iff_toNat_le] using h

theorem SecondOfThree.toNat {b c : UInt8} (h : SecondOfThree b c) :
    0x80 ≤ c.toNat ∧ c.toNat ≤ 0xBF ∧ (b.toNat = 0xE0 → 0xA0 ≤ c.toNat) ∧
      (b.toNat = 0xED → c.toNat ≤ 0x9F) := by
  simp only [SecondOfThree, UInt8.le_iff_toNat_le, ← UInt8.toNat_inj] at h
  split at h <;> split at h <;> simp_all <;> omega

theorem SecondOfFour.toNat {b c : UInt8} (h : SecondOfFour b c) :
    0x80 ≤ c.toNat ∧ c.toNat ≤ 0xBF ∧ (b.toNat = 0xF0 → 0x90 ≤ c.toNat) ∧
      (b.toNat = 0xF4 → c.toNat ≤ 0x8F) := by
  simp only [SecondOfFour, UInt8.le_iff_toNat_le, ← UInt8.toNat_inj] at h
  split at h <;> split at h <;> simp_all <;> omega

/-- A byte at the start of a character is a character of its own, or it opens one, or it is
malformed. -/
theorem start_opens (b : UInt8) :
    (b.toNat < 0x80 ∧ ∀ read, start read b = ⟨some (Char.ofNat b.toNat) :: read, none⟩) ∨
      (∃ o, Opens [b] o ∧ ∀ read, start read b = ⟨read, some o⟩) ∨
      0x80 ≤ b.toNat ∧ ∀ read, start read b = ⟨none :: read, none⟩ := by
  simp only [start, UInt8.lt_iff_toNat_lt, UInt8.reduceToNat]
  by_cases h80 : b.toNat < 0x80
  · exact .inl ⟨h80, fun read => if_pos h80⟩
  simp only [h80, if_false]
  by_cases hC2 : b.toNat < 0xC2
  · exact .inr (.inr ⟨by omega, fun read => if_pos hC2⟩)
  simp only [hC2, if_false]
  by_cases hE0 : b.toNat < 0xE0
  · exact .inr (.inl ⟨_, .two (by omega), fun read => if_pos hE0⟩)
  simp only [hE0, if_false]
  by_cases hF0 : b.toNat < 0xF0
  · exact .inr (.inl ⟨_, .three (by omega), fun read => if_pos hF0⟩)
  simp only [hF0, if_false]
  by_cases hF5 : b.toNat < 0xF5
  · exact .inr (.inl ⟨_, .four (by omega), fun read => if_pos hF5⟩)
  · exact .inr (.inr ⟨by omega, fun read => if_neg hF5⟩)

/-- The characters of one, two, three and four bytes. -/
theorem utf8EncodeChar_one {a : UInt8} (ha : a.toNat < 0x80) :
    String.utf8EncodeChar (Char.ofNat a.toNat) = [a] := by
  rw [utf8EncodeChar_ofNat (by omega), if_pos (by omega), ofNat_eq rfl]

theorem utf8EncodeChar_two {a b : UInt8} (ha : 0xC2 ≤ a.toNat ∧ a.toNat < 0xE0) (hb : Further b) :
    String.utf8EncodeChar (Char.ofNat ((a.toNat - 0xC0) * 64 + (b.toNat - 0x80))) = [a, b] := by
  have hb := hb.toNat
  rw [utf8EncodeChar_ofNat (by omega), if_neg (by omega), if_pos (by omega),
    ofNat_eq (b := a) (by omega), ofNat_eq (b := b) (by omega)]

theorem utf8EncodeChar_three {a b c : UInt8} (ha : 0xE0 ≤ a.toNat ∧ a.toNat < 0xF0)
    (hb : SecondOfThree a b) (hc : Further c) :
    String.utf8EncodeChar
      (Char.ofNat (((a.toNat - 0xE0) * 64 + (b.toNat - 0x80)) * 64 + (c.toNat - 0x80))) =
        [a, b, c] := by
  have hb := hb.toNat
  have hc := hc.toNat
  rw [utf8EncodeChar_ofNat (by omega), if_neg (by omega), if_neg (by omega), if_pos (by omega),
    ofNat_eq (b := a) (by omega), ofNat_eq (b := b) (by omega), ofNat_eq (b := c) (by omega)]

theorem utf8EncodeChar_four {a b c d : UInt8} (ha : 0xF0 ≤ a.toNat ∧ a.toNat < 0xF5)
    (hb : SecondOfFour a b) (hc : Further c) (hd : Further d) :
    String.utf8EncodeChar (Char.ofNat
      ((((a.toNat - 0xF0) * 64 + (b.toNat - 0x80)) * 64 + (c.toNat - 0x80)) * 64 +
        (d.toNat - 0x80))) = [a, b, c, d] := by
  have hb := hb.toNat
  have hc := hc.toNat
  have hd := hd.toNat
  rw [utf8EncodeChar_ofNat (by omega), if_neg (by omega), if_neg (by omega), if_neg (by omega),
    ofNat_eq (b := a) (by omega), ofNat_eq (b := b) (by omega), ofNat_eq (b := c) (by omega),
    ofNat_eq (b := d) (by omega)]

/-- A byte that may come next completes the open character or leaves it open, and any other byte is
read as the start of the next one. -/
theorem step_opens {o : Open} {bs : List UInt8} (h : Opens bs o) (read : List (Option Char))
    (b : UInt8) :
    (∃ c, String.utf8EncodeChar c = bs ++ [b] ∧ step ⟨read, some o⟩ b = ⟨some c :: read, none⟩) ∨
      (∃ o', Opens (bs ++ [b]) o' ∧ step ⟨read, some o⟩ b = ⟨read, some o'⟩) ∨
      step ⟨read, some o⟩ b = start (none :: read) b := by
  by_cases hnext : o.lower ≤ b ∧ b ≤ o.upper
  · cases h with
    | two ha => exact .inl ⟨_, utf8EncodeChar_two ha hnext, if_pos hnext⟩
    | three ha => exact .inr (.inl ⟨_, .threeSecond ha hnext, if_pos hnext⟩)
    | threeSecond ha hc => exact .inl ⟨_, utf8EncodeChar_three ha hc hnext, if_pos hnext⟩
    | four ha => exact .inr (.inl ⟨_, .fourSecond ha hnext, if_pos hnext⟩)
    | fourSecond ha hc => exact .inr (.inl ⟨_, .fourThird ha hc hnext, if_pos hnext⟩)
    | fourThird ha hc hd => exact .inl ⟨_, utf8EncodeChar_four ha hc hd hnext, if_pos hnext⟩
  · exact .inr (.inr (if_neg hnext))

/-- What was malformed stays so. -/
theorem none_mem_start (h : none ∈ read) (b : UInt8) : none ∈ (start read b).read := by
  rcases start_opens b with ⟨-, heq⟩ | ⟨o, -, heq⟩ | ⟨-, heq⟩ <;> rw [heq]
  · exact List.mem_cons_of_mem _ h
  · exact h
  · exact List.mem_cons_self

theorem none_mem_step {s : State} (h : none ∈ s.read) (b : UInt8) : none ∈ (step s b).read := by
  unfold step
  split
  · exact none_mem_start h b
  · split
    · dsimp only
      split
      · exact List.mem_cons_of_mem _ h
      · exact h
    · exact none_mem_start List.mem_cons_self b

/-- What the bytes were from which the machine has come to a state: unless one was malformed, they
are those of the characters that were read, and the first ones of the open character. -/
inductive ReadFrom : State → List UInt8 → Prop where
  | malformed {s : State} {bytes : List UInt8} (h : none ∈ s.read) : ReadFrom s bytes
  | closed (cs : List Char) : ReadFrom ⟨(cs.map some).reverse, none⟩ (encodeChars cs)
  | opened (cs : List Char) {o : Open} {bs : List UInt8} (h : Opens bs o) :
    ReadFrom ⟨(cs.map some).reverse, some o⟩ (encodeChars cs ++ bs)

/-- One more character. -/
theorem ReadFrom.next (cs : List Char) {c : Char} {bs : List UInt8}
    (hc : String.utf8EncodeChar c = bs) :
    ReadFrom ⟨some c :: (cs.map some).reverse, none⟩ (encodeChars cs ++ bs) := by
  have hclosed := ReadFrom.closed (cs ++ [c])
  simpa [encodeChars, hc] using hclosed

theorem ReadFrom.step {s : State} {bytes : List UInt8} (h : ReadFrom s bytes) (b : UInt8) :
    ReadFrom (step s b) (bytes ++ [b]) := by
  cases h with
  | malformed h => exact .malformed (none_mem_step h b)
  | closed cs =>
    show ReadFrom (start _ b) _
    rcases start_opens b with ⟨hascii, heq⟩ | ⟨o, ho, heq⟩ | ⟨-, heq⟩ <;> rw [heq]
    · exact .next cs (utf8EncodeChar_one hascii)
    · exact .opened cs ho
    · exact .malformed List.mem_cons_self
  | @opened cs o bs ho =>
    rw [List.append_assoc]
    rcases step_opens ho (cs.map some).reverse b with ⟨c, hc, heq⟩ | ⟨o', ho', heq⟩ | heq <;>
      rw [heq]
    · exact .next cs hc
    · exact .opened cs ho'
    · exact .malformed (none_mem_start List.mem_cons_self b)

theorem ReadFrom.foldl_step {s : State} {bytes : List UInt8} (h : ReadFrom s bytes)
    (more : List UInt8) : ReadFrom (more.foldl Utf8.step s) (bytes ++ more) := by
  induction more generalizing s bytes with
  | nil => simpa using h
  | cons b more ih => simpa using ih (h.step b)

/-- Bytes that are read as characters, and nothing malformed, are the bytes of these characters. -/
theorem eq_encodeChars_of_scan {bytes : List UInt8} {cs : List Char}
    (h : scan bytes = cs.map some) : bytes = encodeChars cs := by
  have hfrom : ReadFrom (bytes.foldl Utf8.step ⟨[], none⟩) bytes :=
    (ReadFrom.closed []).foldl_step bytes
  have hnone : none ∉ scan bytes := by simp [h]
  unfold scan at h hnone
  generalize bytes.foldl Utf8.step ⟨[], none⟩ = s at hfrom h hnone
  cases hfrom with
  | malformed hmem =>
    refine absurd ?_ hnone
    unfold State.pieces
    split <;> simp [hmem]
  | closed ds =>
    have hds : ds.map some = cs.map some := by simpa [State.pieces] using h
    rw [(List.map_inj_right fun _ _ => Option.some.inj).mp hds]
  | opened ds ho => simp [State.pieces] at hnone

/-- Bytes are read as a text exactly if they are its bytes. -/
theorem decode?_eq_some_iff {bytes : List UInt8} {s : String} :
    decode? bytes = some s ↔ bytes = encode s := by
  refine ⟨fun h => ?_, fun h => h ▸ decode?_encode s⟩
  obtain ⟨cs, hcs, rfl⟩ := Option.map_eq_some_iff.mp h
  rw [encode, String.toList_ofList]
  exact eq_encodeChars_of_scan (mapM_id_eq_some_iff.mp hcs)

end DenialMonitor.Utf8
