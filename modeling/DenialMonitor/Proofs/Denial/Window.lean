import DenialMonitor.Denial.Log
import DenialMonitor.Proofs.Denial.RoundTrip
import DenialMonitor.Proofs.Text.Lines

set_option autoImplicit false

/-!
# The window and the lines it covers

The window of a denial log covers the last lines that hold something, as many as there may be
records. Every line is decoded by itself: neither a malformed line nor bytes that are no UTF-8 nor a
line that is still being written matter to the other lines. So the window of a file is told from its
end. Where lines are inserted that hold no record, each of them takes a place in the window, and the
oldest lines that the window has covered go out of it; as long as the window covers all lines,
nothing does.

## Main definitions

* `DenialLog.lineTexts`, `DenialLog.filledLines` — the lines of a file, and those that hold something.
* `DenialLog.recordsOfLast` — the records on the last lines that hold something.
* `DenialLog.Ended` — a file whose last line has been ended.
* `DenialLog.Enlarges` — lines without records are inserted between those of a file.

## Main results

* `DenialLog.lineTexts_append_cons`, `DenialLog.lineTexts_append` — lines are decoded by themselves.
* `DenialLog.recordsOfLast_append` — the records on the last lines of a file in two parts.
* `DenialLog.window_is_told_from_the_end` — the window of a file in two parts.
* `DenialLog.inserted_lines_take_places` — the window of a file with lines inserted.
* `DenialLog.inserted_line_costs_a_record` — a line without a record costs a full window one.
-/

namespace DenialMonitor.DenialLog

/-- The texts of the lines of a file. -/
def lineTexts (content : List UInt8) : List (List Char) :=
  Split.lines (Utf8.decodeLossyChars content)

/-- The lines of a file that hold something. -/
def filledLines (content : List UInt8) : List (List Char) :=
  (lineTexts content).filter (!Text.allBlank ·)

/-- The record on a line. -/
def recordOn? (line : List Char) : Option DenialRecord :=
  DenialRecord.parse? (Utf8.encodeChars line)

/-- The records on the last `k` lines of a file that hold something, newest first. -/
def recordsOfLast (k : Nat) (content : List UInt8) : List DenialRecord :=
  ((filledLines content).reverse.take k).filterMap recordOn?

/-- The last line of a file has been ended. -/
def Ended (content : List UInt8) : Prop :=
  content = [] ∨ content.getLast? = some 0x0A

instance (content : List UInt8) : Decidable (Ended content) :=
  inferInstanceAs (Decidable (_ ∨ _))

variable {content before after : List UInt8} {line : List UInt8}

/-! ## Lines -/

/-- The lines of a file, each decoded by itself: those that have been ended, without their line ends,
and the one that is being written, as it is. -/
theorem lineTexts_eq (content : List UInt8) :
    lineTexts content =
      (Split.cut 0x0A content).1.map (fun line =>
        Split.dropCarriageReturn (Utf8.decodeLossyChars line)) ++
      (if (Split.cut 0x0A content).2 = [] then []
        else [Utf8.decodeLossyChars (Split.cut 0x0A content).2]) := by
  have hcut := (Utf8.isCut_decodeLossyChars (Split.isCut_cut 0x0A content)).cut_eq
  rw [lineTexts, Split.lines, hcut, List.map_map]
  simp only [List.isEmpty_iff, Utf8.decodeLossyChars_eq_nil_iff]
  rfl

/-- Behind a line that has been ended nothing is left over. -/
theorem Ended.cut_eq (h : Ended before) :
    Split.cut 0x0A before = ((Split.cut 0x0A before).1, []) := by
  have hcut := Split.isCut_cut 0x0A before
  refine Prod.ext rfl ?_
  by_contra hrest
  rcases h with rfl | hlast
  · exact hrest rfl
  · rw [hcut.eq, List.getLast?_append_of_ne_nil _ hrest] at hlast
    exact hcut.not_mem_rest (List.mem_of_getLast? hlast)

/-- The lines of a file in two parts are those of the first part and those of the second one, if the
first part ends with a line. -/
theorem lineTexts_append (h : Ended before) (after : List UInt8) :
    lineTexts (before ++ after) = lineTexts before ++ lineTexts after := by
  rw [lineTexts_eq, lineTexts_eq before, lineTexts_eq after, Split.cut_append, h.cut_eq]
  simp

/-- A line that has been ended. -/
theorem lineTexts_ended (h : 0x0A ∉ line) :
    lineTexts (line ++ [0x0A]) = [Split.dropCarriageReturn (Utf8.decodeLossyChars line)] := by
  rw [lineTexts_eq, Split.cut_append_cons h]
  rfl

/-- A line that is being written. -/
theorem lineTexts_unended (h : 0x0A ∉ line) (hne : line ≠ []) :
    lineTexts line = [Utf8.decodeLossyChars line] := by
  rw [lineTexts_eq, Split.cut_of_not_mem h]
  simp [hne]

theorem ended_concat (content : List UInt8) : Ended (content ++ [0x0A]) :=
  .inr List.getLast?_concat

/-- A line is decoded by itself, and so are those before and behind it. -/
theorem lineTexts_append_cons (h : Ended before) (hline : 0x0A ∉ line) (after : List UInt8) :
    lineTexts (before ++ line ++ 0x0A :: after) = lineTexts before ++
      Split.dropCarriageReturn (Utf8.decodeLossyChars line) :: lineTexts after := by
  have hsplit : before ++ line ++ 0x0A :: after = before ++ ((line ++ [0x0A]) ++ after) := by
    simp
  rw [hsplit, lineTexts_append h, lineTexts_append (ended_concat line), lineTexts_ended hline]
  rfl

/-! ## The records on the last lines -/

/-- What a reload shows are the records on the last lines. -/
theorem records_reload (log : DenialLog) (content : List UInt8) :
    (log.reload (some content)).2.records = recordsOfLast maxRecords content :=
  rfl

theorem length_recordsOfLast_le (k : Nat) (content : List UInt8) :
    (recordsOfLast k content).length ≤ k := by
  refine Nat.le_trans (List.length_filterMap_le _ _) ?_
  rw [List.length_take]
  exact Nat.min_le_left _ _

/-- The records on the last lines of a file in two parts: the lines of the second part come first,
and the first part gives as many lines as are missing. -/
theorem recordsOfLast_append (h : Ended before) (after : List UInt8) (k : Nat) :
    recordsOfLast k (before ++ after) =
      recordsOfLast k after ++ recordsOfLast (k - (filledLines after).length) before := by
  rw [recordsOfLast, filledLines, lineTexts_append h, List.filter_append, List.reverse_append,
    List.take_append, List.filterMap_append, List.length_reverse]
  rfl

/-- **The window is told from the end of the file.** Let a file consist of two parts, the first of
which ends with a line. If the second part has no more lines that hold something than the window
covers, the window is that of the second part, and behind it are the records on the last lines of the
first part, as many lines as the window has left. If it has more, the first part does not matter. The
window never has more records than it covers lines. And no line matters to how another one is
decoded, be it malformed, no UTF-8 or still being written: the lines of the whole file are those of
its parts.

**Proof sketch.** A line feed ends whatever character is open, and no other bytes are decoded as one,
so the file can be cut into lines before they are decoded. -/
theorem window_is_told_from_the_end (log : DenialLog) (before after : List UInt8)
    (h : Ended before) :
    let shown content := (log.reload (some content)).2.records
    let n := (filledLines after).length
    (n ≤ maxRecords →
      shown (before ++ after) = shown after ++ recordsOfLast (maxRecords - n) before) ∧
    (maxRecords < n → shown (before ++ after) = shown after) ∧
    (shown (before ++ after)).length ≤ maxRecords ∧
    lineTexts (before ++ after) = lineTexts before ++ lineTexts after ∧
    (∀ line, 0x0A ∉ line → lineTexts (before ++ line ++ 0x0A :: after) = lineTexts before ++
      Split.dropCarriageReturn (Utf8.decodeLossyChars line) :: lineTexts after) ∧
    (∀ line, 0x0A ∉ line → line ≠ [] →
      lineTexts (before ++ line) = lineTexts before ++ [Utf8.decodeLossyChars line]) := by
  intro shown n
  have happend : shown (before ++ after) =
      shown after ++ recordsOfLast (maxRecords - n) before :=
    recordsOfLast_append h after maxRecords
  refine ⟨fun _ => happend, fun hlt => ?_, ?_, lineTexts_append h after, fun line hline => ?_,
    fun line hline hne => ?_⟩
  · have hzero : recordsOfLast (maxRecords - n) before = [] := by
      rw [Nat.sub_eq_zero_of_le (Nat.le_of_lt hlt)]
      rfl
    rw [happend, hzero, List.append_nil]
  · exact length_recordsOfLast_le maxRecords (before ++ after)
  · exact lineTexts_append_cons h hline after
  · rw [lineTexts_append h, lineTexts_unended hline hne]

/-- Two denials, and behind them one line less than the window covers, without records. -/
theorem window_reaches_one_line_back :
    let first : DenialRecord := ⟨1, .delete, "/work/a", none, "/work/", "rm", "codex"⟩
    let before := written [first, { first with ts := 2 }]
    let after := (List.replicate 199 [0x78, 0x0A]).flatten
    (filledLines after).length = 199 ∧
      (empty.reload (some (before ++ after))).2.records = [{ first with ts := 2 }] := by
  intro first before after
  have hcount : (filledLines after).length = 199 := by decide +kernel
  obtain ⟨hwindow, -⟩ := window_is_told_from_the_end empty before after (by decide +kernel)
  refine ⟨hcount, (hwindow (by rw [hcount]; decide)).trans ?_⟩
  rw [hcount]
  decide +kernel

/-! ## Inserted lines -/

/-- A line that holds something, but no record. -/
def IsMalformed (line : List Char) : Prop :=
  Text.allBlank line = false ∧ recordOn? line = none

instance (line : List Char) : Decidable (IsMalformed line) :=
  inferInstanceAs (Decidable (_ ∧ _))

/-- A line of a file into which lines were inserted. -/
inductive PlacedLine where
  /-- It was there before. -/
  | kept (text : List Char)
  | inserted (text : List Char)
  deriving DecidableEq, Repr

namespace PlacedLine

/-- The text of a line. -/
def text : PlacedLine → List Char
  | .kept text | .inserted text => text

/-- The text of a line that was there before. -/
def kept? : PlacedLine → Option (List Char)
  | .kept text => some text
  | .inserted _ => none

def isInserted : PlacedLine → Bool
  | .kept _ => false
  | .inserted _ => true

end PlacedLine

/-- The file `enlarged` has the lines of `content` and malformed ones between them, in the places
given. -/
structure Enlarges (content enlarged : List UInt8) (places : List PlacedLine) : Prop where
  kept_eq : lineTexts content = places.filterMap PlacedLine.kept?
  text_eq : lineTexts enlarged = places.map PlacedLine.text
  malformed : ∀ line, .inserted line ∈ places → IsMalformed line

instance (content enlarged : List UInt8) (places : List PlacedLine) :
    Decidable (Enlarges content enlarged places) :=
  decidable_of_iff (lineTexts content = places.filterMap PlacedLine.kept? ∧
      lineTexts enlarged = places.map PlacedLine.text ∧
      ∀ p ∈ places, p.isInserted = true → IsMalformed p.text)
    ⟨fun h => ⟨h.1, h.2.1, fun _ hline => h.2.2 _ hline rfl⟩, fun h => ⟨h.kept_eq, h.text_eq,
      fun p hp hinserted => by cases p with
        | kept text => simp [PlacedLine.isInserted] at hinserted
        | inserted text => exact h.malformed text hp⟩⟩

/-- How many lines were inserted among the last lines that hold something, as many as the window
covers. -/
def insertedInWindow (places : List PlacedLine) : Nat :=
  ((places.filter fun p => !Text.allBlank p.text).reverse.take maxRecords).countP
    PlacedLine.isInserted

/-- A malformed line that is inserted between two lines of a file enlarges it. -/
theorem enlarges_insert (h : Ended before) (hline : 0x0A ∉ line)
    (hmalformed : IsMalformed (Split.dropCarriageReturn (Utf8.decodeLossyChars line)))
    (after : List UInt8) :
    Enlarges (before ++ after) (before ++ line ++ 0x0A :: after)
      ((lineTexts before).map .kept ++
        .inserted (Split.dropCarriageReturn (Utf8.decodeLossyChars line)) ::
          (lineTexts after).map .kept) where
  kept_eq := by
    have hkept (texts : List (List Char)) :
        (texts.map PlacedLine.kept).filterMap PlacedLine.kept? = texts := by
      simp [List.filterMap_map, Function.comp_def, PlacedLine.kept?]
    rw [lineTexts_append h, List.filterMap_append, List.filterMap_cons_none rfl, hkept, hkept]
  text_eq := by
    have hkept (texts : List (List Char)) :
        (texts.map PlacedLine.kept).map PlacedLine.text = texts := by
      simp [Function.comp_def, PlacedLine.text]
    rw [lineTexts_append_cons h hline, List.map_append, List.map_cons, hkept, hkept]
    rfl
  malformed := by
    intro text htext
    simp only [List.mem_append, List.mem_map, List.mem_cons, reduceCtorEq, and_false, exists_false,
      PlacedLine.inserted.injEq, or_false, false_or] at htext
    exact htext ▸ hmalformed

/-- The kept ones among the first `n` places are the first kept ones: each inserted one takes the
place of one of them. -/
theorem filterMap_kept?_take (n : Nat) (places : List PlacedLine) :
    (places.take n).filterMap PlacedLine.kept? =
      (places.filterMap PlacedLine.kept?).take
        (n - (places.take n).countP PlacedLine.isInserted) := by
  induction places generalizing n with
  | nil => simp
  | cons p places ih =>
    cases n with
    | zero => simp
    | succ n =>
      cases p with
      | kept text =>
        have hcount : (places.take n).countP PlacedLine.isInserted ≤ n :=
          Nat.le_trans List.countP_le_length (List.length_take_le _ _)
        simp only [List.take_succ_cons, List.filterMap_cons, PlacedLine.kept?, List.countP_cons,
          PlacedLine.isInserted, Bool.false_eq_true, if_false, Nat.add_zero, ih n,
          Nat.succ_sub hcount]
      | inserted text =>
        simp only [List.take_succ_cons, List.filterMap_cons, PlacedLine.kept?, List.countP_cons,
          PlacedLine.isInserted, if_true, ih n, Nat.add_sub_add_right]

variable {enlarged : List UInt8} {places : List PlacedLine}

/-- Places without a record give the records of the lines that were kept. -/
theorem filterMap_recordOn?_text (h : ∀ line, .inserted line ∈ places → recordOn? line = none) :
    (places.map PlacedLine.text).filterMap recordOn? =
      (places.filterMap PlacedLine.kept?).filterMap recordOn? := by
  rw [List.filterMap_map, List.filterMap_filterMap]
  refine List.filterMap_congr fun p hp => ?_
  cases p with
  | kept text => rfl
  | inserted text => exact h text hp

namespace Enlarges

/-- The lines of the two files that hold something, by the places that do. -/
theorem filledLines_eq (h : Enlarges content enlarged places) :
    filledLines content =
        (places.filter fun p => !Text.allBlank p.text).filterMap PlacedLine.kept? ∧
      filledLines enlarged =
        (places.filter fun p => !Text.allBlank p.text).map PlacedLine.text := by
  constructor
  · rw [filledLines, h.kept_eq, List.filter_filterMap, List.filterMap_filter]
    refine List.filterMap_congr fun p _ => ?_
    cases p with
    | kept text => cases hblank : Text.allBlank text <;> simp [PlacedLine.kept?, PlacedLine.text,
        Option.filter, hblank]
    | inserted text => simp [PlacedLine.kept?]
  · rw [filledLines, h.text_eq, List.filter_map]
    rfl

/-- The window of the enlarged file has the records on the last lines of the original one, but for as
many lines as were inserted. -/
theorem recordsOfLast_eq (h : Enlarges content enlarged places) :
    recordsOfLast maxRecords enlarged =
      recordsOfLast (maxRecords - insertedInWindow places) content := by
  obtain ⟨hcontent, henlarged⟩ := h.filledLines_eq
  rw [recordsOfLast, recordsOfLast, hcontent, henlarged, ← List.map_reverse,
    ← List.filterMap_reverse, ← List.map_take, filterMap_recordOn?_text, filterMap_kept?_take]
  · rfl
  · intro line hline
    exact (h.malformed line (List.mem_of_mem_filter
      (List.mem_reverse.mp (List.mem_of_mem_take hline)))).2

end Enlarges

/-- The records on fewer of the last lines come first among those on more of them. -/
theorem recordsOfLast_eq_append {k n : Nat} (h : k ≤ n) (content : List UInt8) :
    recordsOfLast n content = recordsOfLast k content ++
      (((filledLines content).reverse.take n).drop k).filterMap recordOn? := by
  rw [recordsOfLast, recordsOfLast, ← List.filterMap_append]
  congr 1
  conv_lhs => rw [← List.take_append_drop k ((filledLines content).reverse.take n)]
  rw [List.take_take, Nat.min_eq_left h]

/-- Places that hold something are kept ones or inserted ones. -/
theorem length_filterMap_kept?_add_countP (places : List PlacedLine) :
    (places.filterMap PlacedLine.kept?).length + places.countP PlacedLine.isInserted =
      places.length := by
  induction places with
  | nil => rfl
  | cons p places ih =>
    cases p with
    | kept text =>
      simp only [List.filterMap_cons, PlacedLine.kept?, PlacedLine.isInserted, List.countP_cons,
        List.length_cons, Bool.false_eq_true, if_false]
      omega
    | inserted text =>
      simp only [List.filterMap_cons, PlacedLine.kept?, PlacedLine.isInserted, List.countP_cons,
        List.length_cons, if_true]
      omega

/-- As long as the window covers all lines of the enlarged file, none of the original ones goes out
of it. -/
theorem Enlarges.length_filledLines_le (h : Enlarges content enlarged places)
    (hfits : (filledLines enlarged).length ≤ maxRecords) :
    (filledLines content).length ≤ maxRecords - insertedInWindow places := by
  obtain ⟨hcontent, henlarged⟩ := h.filledLines_eq
  rw [henlarged, List.length_map] at hfits
  have hcount := length_filterMap_kept?_add_countP (places.filter fun p => !Text.allBlank p.text)
  rw [hcontent, insertedInWindow, List.take_of_length_le (by rwa [List.length_reverse]),
    List.countP_reverse]
  omega

/-- **Inserted lines take places in the window.** Let malformed lines that hold something be inserted
between the lines of a file, `k` of them among the last lines that the window covers. Then a reload
of the enlarged file shows the records on the last lines of the original file, but for `k` lines,
newest first: those that a reload of the original file shows, without the ones on the oldest lines
that the window has covered. It shows the same records, in the same order and number, if and only if
no record was on these lines, and in particular if the window covers all lines of the enlarged file.

**Proof sketch.** The window covers a number of lines, whatever they hold. Inserted lines hold no
record, so among the lines that are covered only the original ones matter, and of these there are as
many less as lines were inserted. -/
theorem inserted_lines_take_places (log : DenialLog) (content enlarged : List UInt8)
    (places : List PlacedLine) (h : Enlarges content enlarged places) :
    let shown content := (log.reload (some content)).2.records
    let k := insertedInWindow places
    let pushedOut := ((filledLines content).reverse.take maxRecords).drop (maxRecords - k)
    shown enlarged = recordsOfLast (maxRecords - k) content ∧
    shown content = shown enlarged ++ pushedOut.filterMap recordOn? ∧
    (shown enlarged = shown content ↔ ∀ line ∈ pushedOut, recordOn? line = none) ∧
    ((filledLines enlarged).length ≤ maxRecords → shown enlarged = shown content) := by
  intro shown k pushedOut
  have henlarged : shown enlarged = recordsOfLast (maxRecords - k) content := h.recordsOfLast_eq
  have hcontent : shown content = shown enlarged ++ pushedOut.filterMap recordOn? := by
    rw [henlarged]
    exact recordsOfLast_eq_append (Nat.sub_le maxRecords k) content
  have hiff : shown enlarged = shown content ↔ ∀ line ∈ pushedOut, recordOn? line = none := by
    rw [hcontent, List.self_eq_append_right, List.filterMap_eq_nil_iff]
  refine ⟨henlarged, hcontent, hiff, fun hfits => hiff.mpr fun line hline => ?_⟩
  have hle := h.length_filledLines_le hfits
  have hnil : pushedOut = [] := by
    refine List.drop_eq_nil_of_le (Nat.le_trans (List.length_take_le' _ _) ?_)
    rwa [List.length_reverse]
  simp [hnil] at hline

/-- A file of records ends with a line. -/
theorem ended_written (rs : List DenialRecord) : Ended (written rs) := by
  rcases List.eq_nil_or_concat' rs with rfl | ⟨before, r, rfl⟩
  · exact .inl rfl
  · rw [written, List.flatMap_append, List.flatMap_singleton, ← List.append_assoc]
    exact ended_concat _

/-- The deletion of a file at the given time. -/
def deletionAt (ts : Int64) : DenialRecord :=
  ⟨ts, .delete, "/work/a", none, "/work/", "rm", "codex"⟩

/-- A malformed line between two denials: both of them are shown. -/
theorem malformed_line_is_skipped :
    let content := written [deletionAt 1] ++ written [deletionAt 2]
    let enlarged := written [deletionAt 1] ++ [0x78] ++ 0x0A :: written [deletionAt 2]
    (empty.reload (some enlarged)).2.records = (empty.reload (some content)).2.records := by
  intro content enlarged
  have hline : 0x0A ∉ ([0x78] : List UInt8) := by decide
  have henlarges := enlarges_insert (ended_written [deletionAt 1]) hline (by decide +kernel)
    (written [deletionAt 2])
  obtain ⟨-, -, -, hsame⟩ := inserted_lines_take_places empty content enlarged _ henlarges
  exact hsame (by decide +kernel)

/-- The last lines of a file of records hold the last records. -/
theorem recordsOfLast_written (k : Nat) (rs : List DenialRecord) :
    recordsOfLast k (written rs) = rs.reverse.take k := by
  have hfilled : filledLines (written rs) = rs.map fun r => r.text.toList := by
    rw [filledLines, lineTexts, lines_written, List.filter_eq_self]
    intro line hline
    obtain ⟨r, -, rfl⟩ := List.mem_map.mp hline
    simp [r.not_allBlank_text]
  have hrecord (r : DenialRecord) : recordOn? r.text.toList = some r := r.parse?_text
  rw [recordsOfLast, hfilled, ← List.map_reverse, ← List.map_take, List.filterMap_map]
  simp [hrecord]

/-- As many denials as the window covers lines are all shown. With a malformed line behind them the
oldest one is not shown any more. -/
theorem inserted_line_costs_a_record :
    let content := written ((List.range maxRecords).map fun i => deletionAt (.ofNat i))
    let enlarged := content ++ [0x78] ++ [0x0A]
    (∃ places, Enlarges content enlarged places) ∧
      (empty.reload (some enlarged)).2.records ≠ (empty.reload (some content)).2.records := by
  intro content enlarged
  have hended : Ended content := ended_written _
  refine ⟨?_, fun hsame => ?_⟩
  · have hline : 0x0A ∉ ([0x78] : List UInt8) := by decide
    have h := enlarges_insert hended hline (by decide +kernel) []
    rw [List.append_nil] at h
    exact ⟨_, h⟩
  · have hlast : recordsOfLast maxRecords [0x78, 0x0A] = [] ∧
        (filledLines [0x78, 0x0A]).length = 1 := by decide +kernel
    have henlarged : recordsOfLast maxRecords enlarged = recordsOfLast (maxRecords - 1) content := by
      have happend := recordsOfLast_append hended [0x78, 0x0A] maxRecords
      rw [hlast.1, hlast.2, List.nil_append] at happend
      have hsplit : enlarged = content ++ [0x78, 0x0A] := List.append_assoc ..
      rw [hsplit, happend]
    rw [records_reload, records_reload, henlarged, recordsOfLast_written,
      recordsOfLast_written] at hsame
    have hlength := congrArg List.length hsame
    simp [maxRecords] at hlength

end DenialMonitor.DenialLog
