import DenialMonitor.Denial.Log
import DenialMonitor.Proofs.Json.Lexing
import DenialMonitor.Proofs.Text.Lines
import Mathlib.Data.List.Induction

set_option autoImplicit false

/-!
# The lines of the denial log

Each line of the denial log holds a record or none, and a blank line holds none. While the window
covers all lines that hold something, it consists of the records of all lines, so it can be told
from the lines alone. What is appended to the file goes on with the last line and adds lines behind
it; the lines before the last one stay as they are.

## Main definitions

* `DenialLog.lineRecords`, `DenialLog.recordAt?` — the records on the lines of a file.
* `DenialLog.IsNewest` — the record on the last line that holds one.
* `DenialLog.Fits` — the window covers all lines that hold something.
* `DenialLog.Continues` — bytes are appended, and they spoil no record.

## Main results

* `DenialRecord.parse?_of_allBlank` — a blank line holds no record.
* `DenialLog.window_eq` — the window consists of the records of all lines.
* `DenialLog.Continues.length_window_lt_iff` — the window grows where a line has come to hold a
  record.
* `DenialLog.Continues.newest_is_new` — then the last line that holds one is such a line.
-/

namespace DenialMonitor

/-! ## Blank lines -/

namespace Lexer

/-- No byte of a blank character begins a token. -/
theorem startToken_of_isBlank {c : Char} {b : UInt8} (hc : Text.isBlank c)
    (hb : b ∈ String.utf8EncodeChar c) (read : List Token) :
    startToken read b = some ⟨read, .gap⟩ ∨ startToken read b = none := by
  have hcases : b.toNat ∈ [0x09, 0x0A, 0x0B, 0x0C, 0x0D, 0x20] ∨ 0x80 ≤ b.toNat := by
    rcases toNat_of_mem_encodeChar hb with hb | hb
    · simp only [Text.isBlank, Bool.or_eq_true, Bool.and_eq_true, beq_iff_eq,
        decide_eq_true_eq] at hc
      simp only [List.mem_cons, List.not_mem_nil, or_false]
      omega
    · exact .inr hb
  have hne (n : UInt8)
      (hn : n.toNat < 0x80 ∧ n.toNat ∉ [0x09, 0x0A, 0x0B, 0x0C, 0x0D, 0x20]) : b ≠ n := by
    rintro rfl
    rcases hcases with h | h
    · exact hn.2 h
    · omega
  have hdigit : digit? b = none := by
    unfold digit?
    rw [if_neg]
    rw [UInt8.le_iff_toNat_le, UInt8.le_iff_toNat_le]
    simp only [List.mem_cons, List.not_mem_nil, or_false] at hcases
    simp only [UInt8.reduceToNat]
    omega
  unfold startToken
  by_cases hspace : isSpace b
  · simp [hspace]
  · simp (disch := decide) [hspace, hne, hdigit]

theorem foldlM_step_gap {bytes : List UInt8}
    (h : ∀ b ∈ bytes, startToken [] b = some ⟨[], .gap⟩ ∨ startToken [] b = none) :
    bytes.foldlM step ⟨[], .gap⟩ = some ⟨[], .gap⟩ ∨ bytes.foldlM step ⟨[], .gap⟩ = none := by
  induction bytes with
  | nil => exact .inl rfl
  | cons b bytes ih =>
    obtain ⟨hb, hbytes⟩ := List.forall_mem_cons.mp h
    have hstep : step ⟨[], .gap⟩ b = startToken [] b := rfl
    rw [List.foldlM_cons, hstep]
    rcases hb with hb | hb
    · rw [hb]
      exact ih hbytes
    · rw [hb]
      exact .inr rfl

end Lexer

/-- A blank line holds no record: it has no tokens, if it can be cut into tokens at all. -/
theorem DenialRecord.parse?_of_allBlank {line : List Char} (h : Text.allBlank line) :
    parse? (Utf8.encodeChars line) = none := by
  have hgap := @Lexer.foldlM_step_gap (Utf8.encodeChars line) fun b hb => by
    obtain ⟨c, hc, hbc⟩ := List.mem_flatMap.mp hb
    exact Lexer.startToken_of_isBlank (List.all_eq_true.mp h c hc) hbc []
  have htokens : tokens? (Utf8.encodeChars line) = some [] ∨
      tokens? (Utf8.encodeChars line) = none := by
    unfold tokens?
    rcases hgap with hgap | hgap <;> rw [hgap]
    · exact .inl rfl
    · exact .inr rfl
  unfold parse? Literals.parse?
  rcases htokens with htokens | htokens <;> rw [htokens] <;> rfl

namespace DenialLog

/-! ## Lists with holes -/

section Holes

variable {α : Type} {xs ys : List (Option α)}

theorem filterMap_id_eq_nil_iff : xs.filterMap id = [] ↔ ∀ i : Nat, xs[i]?.join = none := by
  simp only [List.filterMap_eq_nil_iff, id, Option.join_eq_none_iff]
  constructor
  · intro h i
    cases hi : xs[i]? with
    | none => exact .inl rfl
    | some o => exact .inr (by rw [h o (List.mem_of_getElem? hi)])
  · intro h o ho
    obtain ⟨i, hi⟩ := List.mem_iff_getElem?.mp ho
    simpa [hi] using h i

/-- A list that has its elements in places where another one has some as well has no more of them,
and fewer if and only if there is a place where only the other one has one. -/
theorem length_filterMap_le_and_lt_iff
    (h : ∀ i : Nat, xs[i]?.join.isSome → ys[i]?.join.isSome) :
    (xs.filterMap id).length ≤ (ys.filterMap id).length ∧
      ((xs.filterMap id).length < (ys.filterMap id).length ↔
        ∃ i : Nat, ys[i]?.join.isSome ∧ xs[i]?.join = none) := by
  induction xs generalizing ys with
  | nil =>
    refine ⟨Nat.zero_le _, ?_⟩
    simp only [List.filterMap_nil, List.length_nil, List.length_pos_iff, ne_eq,
      filterMap_id_eq_nil_iff, not_forall]
    simp [Option.isSome_iff_ne_none]
  | cons x xs ih =>
    cases ys with
    | nil =>
      have hnil : (x :: xs).filterMap id = [] :=
        filterMap_id_eq_nil_iff.mpr fun i => by simpa using h i
      rw [hnil]
      simp
    | cons y ys =>
      obtain ⟨hle, hlt⟩ := @ih ys fun i hi => by simpa using h (i + 1) (by simpa using hi)
      have hhead := h 0
      -- the first places count by themselves, and the others are those of the tails
      rw [← Nat.or_exists_add_one]
      cases x <;> cases y <;> simp_all
      omega

/-- The last element of a list with holes stands where only holes follow. -/
theorem getLast?_filterMap_eq_some_iff {x : α} :
    (xs.filterMap id).getLast? = some x ↔
      ∃ i : Nat, xs[i]?.join = some x ∧ ∀ k : Nat, i < k → xs[k]?.join = none := by
  induction xs using List.reverseRecOn with
  | nil => simp
  | append_singleton xs o ih =>
    have hbefore {i : Nat} (hi : i < xs.length) : (xs ++ [o])[i]? = xs[i]? :=
      List.getElem?_append_left hi
    have hbehind {i : Nat} (hi : xs.length < i) : (xs ++ [o])[i]?.join = none := by
      rw [List.getElem?_eq_none (by simp; omega)]
      rfl
    have hlast : (xs ++ [o])[xs.length]? = some o := List.getElem?_concat_length
    cases o with
    | none =>
      have hsame (i : Nat) : (xs ++ [none])[i]?.join = xs[i]?.join := by
        rcases Nat.lt_trichotomy i xs.length with hi | rfl | hi
        · rw [hbefore hi]
        · simp
        · rw [hbehind hi, List.getElem?_eq_none (by omega)]
          rfl
      simp only [hsame, ← ih]
      simp
    | some y =>
      simp only [List.filterMap_append, List.filterMap_cons, List.filterMap_nil, id,
        List.getLast?_concat, Option.some.injEq]
      constructor
      · rintro rfl
        exact ⟨xs.length, by simp, fun k hk => hbehind hk⟩
      · rintro ⟨i, hi, hnewest⟩
        rcases Nat.lt_trichotomy i xs.length with hlt | rfl | hgt
        · simpa [hlast] using hnewest _ hlt
        · simpa using hi
        · simp [hbehind hgt] at hi

end Holes

/-! ## Records by their lines -/

/-- The record on each line of a file, `none` for a line that holds none. -/
def lineRecords (content : List UInt8) : List (Option DenialRecord) :=
  (Split.lines (Utf8.decodeLossyChars content)).map fun line =>
    DenialRecord.parse? (Utf8.encodeChars line)

/-- The record on line number `i` of a file. -/
def recordAt? (content : List UInt8) (i : Nat) : Option DenialRecord :=
  (lineRecords content)[i]?.join

/-- Line number `i` is the last one that holds a record, which is `r`. -/
def IsNewest (content : List UInt8) (i : Nat) (r : DenialRecord) : Prop :=
  recordAt? content i = some r ∧ ∀ k, i < k → recordAt? content k = none

/-- The window covers all lines of a file that hold something. -/
def Fits (content : List UInt8) : Prop :=
  (entries (Utf8.decodeLossyChars content)).length ≤ maxRecords

instance (content : List UInt8) : Decidable (Fits content) :=
  inferInstanceAs (Decidable (_ ≤ _))

variable {content earlier later : List UInt8} {r : DenialRecord} {i j : Nat}

/-- A window that covers all lines consists of their records. -/
theorem window_eq (h : Fits content) :
    window content = ((lineRecords content).filterMap id).reverse := by
  rw [window, windowOfChars, List.take_of_length_le h, entries, List.filterMap_reverse,
    List.filterMap_filter, lineRecords, List.filterMap_map]
  congr 2
  funext line
  by_cases hblank : Text.allBlank line = true
  · simp [hblank, DenialRecord.parse?_of_allBlank hblank]
  · simp [hblank]

theorem head?_window_eq_some_iff (h : Fits content) :
    (window content).head? = some r ↔ ∃ i, IsNewest content i r := by
  rw [window_eq h, List.head?_reverse]
  exact getLast?_filterMap_eq_some_iff

/-! ## What is appended -/

/-- The records on the lines that have been ended. -/
def endedRecords (content : List UInt8) : List (Option DenialRecord) :=
  (Split.cut 0x0A content).1.map fun line =>
    DenialRecord.parse?
      (Utf8.encodeChars (Split.dropCarriageReturn (Utf8.decodeLossyChars line)))

/-- All lines but at most one have been ended. -/
theorem lineRecords_eq (content : List UInt8) :
    ∃ unended, lineRecords content = endedRecords content ++ unended ∧ unended.length ≤ 1 := by
  have hcut := (Utf8.isCut_decodeLossyChars (Split.isCut_cut 0x0A content)).cut_eq
  rw [lineRecords, Split.lines, hcut, List.map_append, List.map_map, List.map_map]
  refine ⟨_, rfl, ?_⟩
  rw [List.length_map]
  split <;> simp

theorem endedRecords_prefix (content appended : List UInt8) :
    endedRecords content <+: endedRecords (content ++ appended) := by
  rw [endedRecords, endedRecords, Split.cut_append, List.map_append]
  exact List.prefix_append _ _

/-- What is appended leaves all lines but the last one. -/
theorem getElem?_lineRecords_append (h : j + 1 < (lineRecords content).length)
    (appended : List UInt8) :
    (lineRecords (content ++ appended))[j]? = (lineRecords content)[j]? := by
  obtain ⟨unended, heq, hunended⟩ := lineRecords_eq content
  obtain ⟨unended', heq', -⟩ := lineRecords_eq (content ++ appended)
  obtain ⟨more, hmore⟩ := endedRecords_prefix content appended
  rw [heq, List.length_append] at h
  rw [heq, heq', ← hmore, List.append_assoc, List.getElem?_append_left (by omega),
    List.getElem?_append_left (by omega)]

/-- The later content goes on with the earlier one, and what was appended has made no line that held
a record one that holds none. -/
structure Continues (earlier later : List UInt8) : Prop where
  appended : earlier <+: later
  kept : ∀ i, (recordAt? earlier i).isSome → (recordAt? later i).isSome

theorem continues_iff : Continues earlier later ↔ earlier <+: later ∧
    ∀ i < (lineRecords earlier).length, (recordAt? earlier i).isSome → (recordAt? later i).isSome := by
  refine ⟨fun h => ⟨h.appended, fun i _ => h.kept i⟩, fun h => ⟨h.1, fun i hi => h.2 i ?_ hi⟩⟩
  by_contra hnot
  rw [recordAt?, List.getElem?_eq_none (by omega)] at hi
  simp at hi

instance (earlier later : List UInt8) : Decidable (Continues earlier later) :=
  decidable_of_iff _ continues_iff.symm

/-- A window that covers all lines has grown if and only if a line has come to hold a record. -/
theorem Continues.length_window_lt_iff (h : Continues earlier later) (hearlier : Fits earlier)
    (hlater : Fits later) : (window earlier).length < (window later).length ↔
      ∃ i, (recordAt? later i).isSome ∧ recordAt? earlier i = none := by
  rw [window_eq hearlier, window_eq hlater, List.length_reverse, List.length_reverse]
  exact (length_filterMap_le_and_lt_iff h.kept).2

/-- Where a line has come to hold a record, the last line that holds one is such a line: of the lines
that have been there, only the last one may have changed. -/
theorem Continues.newest_is_new (h : Continues earlier later) (hnewest : IsNewest later i r)
    (hnew : ∃ j, (recordAt? later j).isSome ∧ recordAt? earlier j = none) :
    recordAt? earlier i = none := by
  obtain ⟨j, hlater, hearlier⟩ := hnew
  by_contra hold
  have hi : i < (lineRecords earlier).length := by
    by_contra hnot
    exact hold (by rw [recordAt?, List.getElem?_eq_none (by omega)]; rfl)
  rcases Nat.lt_trichotomy j i with hlt | rfl | hgt
  · obtain ⟨appended, rfl⟩ := h.appended
    have hj : j + 1 < (lineRecords earlier).length := by omega
    rw [recordAt?, getElem?_lineRecords_append hj, ← recordAt?, hearlier] at hlater
    simp at hlater
  · exact hold hearlier
  · rw [hnewest.2 j hgt] at hlater
    simp at hlater

end DenialLog

end DenialMonitor
