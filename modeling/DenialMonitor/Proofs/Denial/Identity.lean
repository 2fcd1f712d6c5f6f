import DenialMonitor.Denial.Record
import DenialMonitor.Proofs.Text.Split

set_option autoImplicit false

/-!
# Identities of denials

The identity of a record joins its time and its path by a hyphen. A path may have hyphens anywhere, but
a decimal has one at its beginning only. So behind the first character of an identity the first hyphen
is the one that joins, whatever the path looks like, and time and path can be told from the identity.

## Main results

* `DenialRecord.join_inj` — a decimal and a text can be told from what a hyphen makes of them.
* `DenialRecord.id_eq_iff` — records have the same identity only where time and path are the same.
-/

namespace DenialMonitor.DenialRecord

/-- The digits of a number are no hyphens. -/
theorem hyphen_not_mem_repr (n : Nat) : '-' ∉ n.repr.toList := by
  rw [Nat.toList_repr]
  intro hmem
  have hdigit : '-'.isDigit = true := Nat.isDigit_of_mem_toDigits (by decide) (by decide) hmem
  exact absurd hdigit (by decide)

/-- A number can be told from its digits. -/
theorem repr_inj {m n : Nat} (h : m.repr.toList = n.repr.toList) : m = n := by
  rw [Nat.toList_repr, Nat.toList_repr] at h
  have hread := congrArg (fun ds => Nat.ofDigitChars 10 ds 0) h
  rwa [Nat.ofDigitChars_ten_toDigits, Nat.ofDigitChars_ten_toDigits] at hread

/-- What is below zero starts with a hyphen. -/
theorem toList_toString_negSucc (n : Nat) :
    (toString (Int.negSucc n)).toList = '-' :: n.succ.repr.toList := by
  have htext : toString (Int.negSucc n) = "-" ++ n.succ.repr := rfl
  rw [htext, String.toList_append]
  rfl

/-- An integer can be told from its decimal. -/
theorem toString_inj {a b : Int} (h : (toString a).toList = (toString b).toList) : a = b := by
  have hsigns (m n : Nat) : m.repr.toList ≠ (toString (Int.negSucc n)).toList := by
    intro heq
    apply hyphen_not_mem_repr m
    rw [heq, toList_toString_negSucc]
    exact List.mem_cons_self
  cases a with
  | ofNat m =>
    cases b with
    | ofNat n => rw [repr_inj h]
    | negSucc n => exact absurd h (hsigns m n)
  | negSucc m =>
    cases b with
    | ofNat n => exact absurd h.symm (hsigns n m)
    | negSucc n =>
      rw [toList_toString_negSucc, toList_toString_negSucc] at h
      rw [Nat.succ.inj (repr_inj (List.cons.inj h).2)]

/-- A decimal has hyphens at its beginning only. -/
theorem exists_toString_eq (n : Int) :
    ∃ first rest, (toString n).toList = first :: rest ∧ '-' ∉ rest := by
  cases n with
  | ofNat n =>
    have hne : n.repr.toList ≠ [] := by
      rw [Nat.toList_repr]
      exact Nat.toDigits_ne_nil
    obtain ⟨first, rest, hdigits⟩ := List.exists_cons_of_ne_nil hne
    refine ⟨first, rest, hdigits, fun hmem => hyphen_not_mem_repr n ?_⟩
    rw [hdigits]
    exact List.mem_cons_of_mem first hmem
  | negSucc n =>
    exact ⟨'-', n.succ.repr.toList, toList_toString_negSucc n, hyphen_not_mem_repr n.succ⟩

/-- A decimal and a text can be told from what a hyphen makes of them.

**Proof sketch.** Without its first character the decimal is what stands before the first hyphen. -/
theorem join_inj {a b : Int} {p q : String} :
    toString a ++ "-" ++ p = toString b ++ "-" ++ q ↔ a = b ∧ p = q := by
  refine ⟨fun h => ?_, fun ⟨hab, hpq⟩ => by rw [hab, hpq]⟩
  obtain ⟨first, rest, ha, hrest⟩ := exists_toString_eq a
  obtain ⟨first', rest', hb, hrest'⟩ := exists_toString_eq b
  have hchars : first :: (rest ++ '-' :: p.toList) = first' :: (rest' ++ '-' :: q.toList) := by
    have htoList := congrArg String.toList h
    have hhyphen : "-".toList = ['-'] := rfl
    simpa only [String.toList_append, ha, hb, hhyphen, List.append_assoc, List.cons_append,
      List.nil_append] using htoList
  obtain ⟨hfirst, htails⟩ := List.cons.inj hchars
  have hcuts := congrArg (fun cs => (Split.cut '-' cs).1.head?) htails
  simp only [Split.cut_append_cons hrest, Split.cut_append_cons hrest', List.head?_cons,
    Option.some.injEq] at hcuts
  have htexts : (toString a).toList = (toString b).toList := by rw [ha, hb, hfirst, hcuts]
  rw [hcuts] at htails
  have hpaths : p.toList = q.toList := (List.cons.inj (List.append_cancel_left htails)).2
  exact ⟨toString_inj htexts, String.toList_injective hpaths⟩

/-- Records have the same identity only where their times and their paths are the same. -/
theorem id_eq_iff {r s : DenialRecord} : r.id = s.id ↔ r.ts = s.ts ∧ r.path = s.path := by
  rw [id, id, RecordId.mk.injEq, join_inj, Int64.toInt_inj]

end DenialMonitor.DenialRecord
