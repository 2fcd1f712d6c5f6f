import DenialMonitor.Text.Split
import Mathlib.Data.List.Basic

set_option autoImplicit false

/-!
# Cutting what arrives in parts

A cut of a sequence is told by what it is made of: pieces without separators, each followed by one,
and a rest without separators. There is only one cut of a sequence, and what arrives behind it is
cut together with the rest.

## Main definitions

* `Split.IsCut` — pieces and a rest are a cut of a sequence.

## Main results

* `Split.isCut_cut`, `Split.IsCut.cut_eq` — the cut, and that there is no other one.
* `Split.cut_append` — the cut of a sequence that arrives in two parts.
* `Split.intercalate_pieces`, `Split.pieces_intercalate` — pieces are put together again.
-/

namespace DenialMonitor.Split

variable {α : Type} {sep : α} {xs rest : List α} {pieces : List (List α)}

/-- The pieces, with a separator behind each of them, and the rest make up the sequence, and hold
no separators. -/
structure IsCut (sep : α) (xs : List α) (pieces : List (List α)) (rest : List α) : Prop where
  eq : xs = pieces.flatMap (· ++ [sep]) ++ rest
  not_mem_piece : ∀ piece ∈ pieces, sep ∉ piece
  not_mem_rest : sep ∉ rest

/-- What is behind a cut is cut together with the rest. -/
theorem IsCut.append (h : IsCut sep xs pieces rest) {ys rest' : List α} {pieces' : List (List α)}
    (h' : IsCut sep (rest ++ ys) pieces' rest') :
    IsCut sep (xs ++ ys) (pieces ++ pieces') rest' := by
  refine ⟨?_, fun piece hpiece => ?_, h'.not_mem_rest⟩
  · rw [h.eq, List.append_assoc, h'.eq, List.flatMap_append, List.append_assoc]
  · rcases List.mem_append.mp hpiece with hpiece | hpiece
    · exact h.not_mem_piece piece hpiece
    · exact h'.not_mem_piece piece hpiece

/-- Putting pieces together ends each of them but the last one with a separator. -/
theorem intercalate_append_singleton (sep : α) (pieces : List (List α)) (rest : List α) :
    [sep].intercalate (pieces ++ [rest]) = pieces.flatMap (· ++ [sep]) ++ rest := by
  induction pieces with
  | nil => simp
  | cons piece pieces ih =>
    obtain ⟨next, others, hnext⟩ := List.exists_cons_of_ne_nil
      (show pieces ++ [rest] ≠ [] by simp)
    rw [List.cons_append, hnext, List.intercalate_cons_cons, ← hnext, ih, List.flatMap_cons,
      List.append_assoc (piece ++ [sep])]

variable [BEq α] [LawfulBEq α]

/-- A sequence without separators is all rest. -/
theorem cut_of_not_mem (h : sep ∉ xs) : cut sep xs = ([], xs) := by
  induction xs with
  | nil => rfl
  | cons x xs ih =>
    obtain ⟨hx, hxs⟩ := List.ne_and_not_mem_of_not_mem_cons h
    simp [ih hxs, push, hx.symm]

/-- What stands before the first separator is the first piece. -/
theorem cut_append_cons (h : sep ∉ xs) (ys : List α) :
    cut sep (xs ++ sep :: ys) = (xs :: (cut sep ys).1, (cut sep ys).2) := by
  induction xs with
  | nil =>
    rw [List.nil_append, cut_cons]
    rcases cut sep ys with ⟨_ | _, rest⟩ <;> simp [push]
  | cons x xs ih =>
    obtain ⟨hx, hxs⟩ := List.ne_and_not_mem_of_not_mem_cons h
    rw [List.cons_append, cut_cons, ih hxs]
    simp [push, hx.symm]

/-- A sequence has no other cut. -/
theorem IsCut.cut_eq (h : IsCut sep xs pieces rest) : cut sep xs = (pieces, rest) := by
  obtain ⟨rfl, hpieces, hrest⟩ := h
  induction pieces with
  | nil =>
    rw [List.flatMap_nil, List.nil_append]
    exact cut_of_not_mem hrest
  | cons piece pieces ih =>
    obtain ⟨hpiece, hpieces⟩ := List.forall_mem_cons.mp hpieces
    rw [List.flatMap_cons, List.append_assoc, List.append_assoc, List.singleton_append,
      cut_append_cons hpiece, ih hpieces]

theorem IsCut.pieces_eq (h : IsCut sep xs pieces rest) : pieces = (cut sep xs).1 := by
  rw [h.cut_eq]

/-- One more element in front keeps a cut one. A separator makes an empty piece, and anything else
belongs to the first piece, or to the rest where there are no pieces. -/
theorem IsCut.push {c : List (List α) × List α} (h : IsCut sep xs c.1 c.2) (x : α) :
    IsCut sep (x :: xs) (push sep x c).1 (push sep x c).2 := by
  obtain ⟨pieces, rest⟩ := c
  obtain ⟨rfl, hpieces, hrest⟩ := h
  by_cases hx : x = sep
  · subst hx
    have hpush : Split.push x x (pieces, rest) = ([] :: pieces, rest) := by
      cases pieces <;> simp [Split.push]
    rw [hpush]
    exact ⟨by simp, by simpa using hpieces, hrest⟩
  · have hne : sep ≠ x := fun h => hx h.symm
    cases pieces with
    | nil =>
      have hpush : Split.push sep x ([], rest) = ([], x :: rest) := by simp [Split.push, hx]
      rw [hpush]
      exact ⟨by simp, by simp, by simp [hne, hrest]⟩
    | cons piece pieces =>
      have hpush : Split.push sep x (piece :: pieces, rest) = ((x :: piece) :: pieces, rest) := by
        simp [Split.push, hx]
      rw [hpush]
      exact ⟨by simp, by simpa [hne] using hpieces, hrest⟩

/-- The cut of a sequence is one. -/
theorem isCut_cut (sep : α) (xs : List α) : IsCut sep xs (cut sep xs).1 (cut sep xs).2 := by
  induction xs with
  | nil => exact ⟨rfl, by simp, by simp⟩
  | cons x xs ih => exact ih.push x

/-- The cut of a sequence that arrives in two parts: the second part is cut together with the rest
of the first one. -/
theorem cut_append (sep : α) (xs ys : List α) :
    cut sep (xs ++ ys) = ((cut sep xs).1 ++ (cut sep ((cut sep xs).2 ++ ys)).1,
      (cut sep ((cut sep xs).2 ++ ys)).2) :=
  ((isCut_cut sep xs).append (isCut_cut sep _)).cut_eq

/-- The pieces of a sequence, put together again, are the sequence. -/
theorem intercalate_pieces (sep : α) (xs : List α) :
    [sep].intercalate (Split.pieces sep xs) = xs := by
  rw [Split.pieces, intercalate_append_singleton, ← (isCut_cut sep xs).eq]

/-- Pieces without separators are found again when they were put together. -/
theorem pieces_intercalate (hpieces : ∀ piece ∈ pieces, sep ∉ piece) (hrest : sep ∉ rest) :
    Split.pieces sep ([sep].intercalate (pieces ++ [rest])) = pieces ++ [rest] := by
  have hcut : IsCut sep ([sep].intercalate (pieces ++ [rest])) pieces rest :=
    ⟨intercalate_append_singleton sep pieces rest, hpieces, hrest⟩
  rw [Split.pieces, hcut.cut_eq]

end DenialMonitor.Split
