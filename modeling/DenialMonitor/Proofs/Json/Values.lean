import DenialMonitor.Proofs.Json.Reading
import DenialMonitor.Proofs.Text.Utf8

set_option autoImplicit false

/-!
# Documents that are read back

A document of values that was written and read again is the same document, as long as no object of
it repeats a key and its numbers are read back as they were. No document that was read repeats a
key, since a repeated key keeps its first place and its last value.

## Main definitions

* `Json.numbers` — the numbers of a document.
* `Json.UniqueKeys` — no object of the document repeats a key.
* `Json.mapNumbers` — the document with other numbers.
* `Literals.Denotes` — what is known of a document that was read from a tree.

## Main results

* `StringLiteral.value?_ofString` — a written string denotes the string.
* `Json.value?_literals`, `Literals.members?_literals` — what a written document denotes.
* `Literals.denotes_of_value?` — what is known of a document that was read.
-/

namespace DenialMonitor

/-! ## Strings -/

namespace StringLiteral

/-- The pieces of a written character denote its bytes. -/
theorem foldlM_step_ofChar (c : Char) (bytes : List UInt8) :
    (ofChar c).foldlM Decoder.step ⟨bytes, none⟩ =
      some ⟨(String.utf8EncodeChar c).reverse ++ bytes, none⟩ := by
  have hbytes (bs bytes : List UInt8) :
      (bs.map Piece.byte).foldlM Decoder.step ⟨bytes, none⟩ = some ⟨bs.reverse ++ bytes, none⟩ := by
    induction bs generalizing bytes with
    | nil => rfl
    | cons b bs ih =>
      rw [List.map_cons, List.foldlM_cons]
      simp only [Decoder.step, Option.bind_eq_bind, Option.bind_some]
      rw [ih]
      simp
  unfold ofChar
  split
  · next hcoded =>
    simp only [isCoded, Bool.and_eq_true, decide_eq_true_eq] at hcoded
    have hhigh : isHigh c.toNat = false := by simp [isHigh]; omega
    have hlow : isLow c.toNat = false := by simp [isLow]; omega
    simp [Decoder.step, Decoder.push, hhigh, hlow]
  · exact hbytes _ bytes

/-- A written string denotes the string. -/
theorem value?_ofString (s : String) : value? (ofString s) = some s := by
  have hchars (cs : List Char) (bytes : List UInt8) :
      (cs.flatMap ofChar).foldlM Decoder.step ⟨bytes, none⟩ =
        some ⟨(Utf8.encodeChars cs).reverse ++ bytes, none⟩ := by
    induction cs generalizing bytes with
    | nil => rfl
    | cons c cs ih =>
      rw [List.flatMap_cons, List.foldlM_append, foldlM_step_ofChar]
      simp only [Option.bind_eq_bind, Option.bind_some]
      rw [ih]
      simp [Utf8.encodeChars]
  have hbytes : bytes? (ofString s) = some (Utf8.encode s) := by
    simp [bytes?, ofString, hchars, Utf8.encode]
  rw [value?, hbytes, Option.bind_some, Utf8.decode?_encode]

end StringLiteral

/-! ## Documents -/

namespace Json

mutual

/-- The numbers of a document. -/
def numbers : Json → List Number
  | .number n => [n]
  | .array items => itemNumbers items
  | .object members => memberNumbers members
  | _ => []

/-- The numbers of the items of an array. -/
def itemNumbers : List Json → List Number
  | [] => []
  | v :: vs => numbers v ++ itemNumbers vs

/-- The numbers of the members of an object. -/
def memberNumbers : Members String Number → List Number
  | [] => []
  | (_, v) :: ms => numbers v ++ memberNumbers ms

end

mutual

/-- No object of the document repeats a key. -/
def UniqueKeys : Json → Prop
  | .array items => UniqueItemKeys items
  | .object members => (members.map (·.1)).Nodup ∧ UniqueMemberKeys members
  | _ => True

/-- No object within the items of an array repeats a key. -/
def UniqueItemKeys : List Json → Prop
  | [] => True
  | v :: vs => UniqueKeys v ∧ UniqueItemKeys vs

/-- No object within the members of an object repeats a key. -/
def UniqueMemberKeys : Members String Number → Prop
  | [] => True
  | (_, v) :: ms => UniqueKeys v ∧ UniqueMemberKeys ms

end

mutual

/-- The document with other numbers. -/
def mapNumbers (f : Number → Number) : Json → Json
  | .null => .null
  | .bool b => .bool b
  | .number n => .number (f n)
  | .string s => .string s
  | .array items => .array (mapItems f items)
  | .object members => .object (mapMembers f members)

/-- The items of an array with other numbers. -/
def mapItems (f : Number → Number) : List Json → List Json
  | [] => []
  | v :: vs => mapNumbers f v :: mapItems f vs

/-- The members of an object with other numbers. -/
def mapMembers (f : Number → Number) : Members String Number → Members String Number
  | [] => []
  | (k, v) :: ms => (k, mapNumbers f v) :: mapMembers f ms

end

theorem mem_itemNumbers {n : Number} {vs : List Json} :
    n ∈ itemNumbers vs ↔ ∃ v ∈ vs, n ∈ numbers v := by
  induction vs with
  | nil => simp [itemNumbers]
  | cons v vs ih => simp [itemNumbers, ih]

theorem mem_memberNumbers {n : Number} {ms : Members String Number} :
    n ∈ memberNumbers ms ↔ ∃ m ∈ ms, n ∈ numbers m.2 := by
  induction ms with
  | nil => simp [memberNumbers]
  | cons m ms ih =>
    obtain ⟨k, v⟩ := m
    simp only [memberNumbers, List.mem_append, ih, List.mem_cons, or_and_right, exists_or,
      exists_eq_left]

theorem uniqueItemKeys_iff {vs : List Json} : UniqueItemKeys vs ↔ ∀ v ∈ vs, UniqueKeys v := by
  induction vs with
  | nil => simp [UniqueItemKeys]
  | cons v vs ih => simp [UniqueItemKeys, ih]

theorem uniqueMemberKeys_iff {ms : Members String Number} :
    UniqueMemberKeys ms ↔ ∀ m ∈ ms, UniqueKeys m.2 := by
  induction ms with
  | nil => simp [UniqueMemberKeys]
  | cons m ms ih =>
    obtain ⟨k, v⟩ := m
    simp only [UniqueMemberKeys, ih, List.forall_mem_cons]

/-- A member with a new key comes last. -/
theorem insert_of_not_mem {k : String} {v : Json} {acc : Members String Number}
    (h : k ∉ acc.map (·.1)) : Members.insert k v acc = acc ++ [(k, v)] := by
  induction acc with
  | nil => rfl
  | cons m acc ih =>
    obtain ⟨k', v'⟩ := m
    simp only [List.map_cons, List.mem_cons, not_or] at h
    rw [Members.insert, if_neg (Ne.symm h.1), ih h.2, List.cons_append]

mutual

/-- A written document denotes the document, with each number as it is read back. -/
theorem value?_literals {f : Number → Number} (v : Json) (hkeys : v.UniqueKeys)
    (hnumbers : ∀ n ∈ v.numbers, n.literal.value? = some (f n)) :
    v.literals.value? = some (v.mapNumbers f) := by
  match v with
  | .null => rfl
  | .bool b => rfl
  | .number n =>
    have hn := hnumbers n (by simp [numbers])
    simp [literals, Literals.value?, mapNumbers, hn]
  | .string s => simp [literals, Literals.value?, mapNumbers, StringLiteral.value?_ofString]
  | .array items =>
    simp only [literals, Literals.value?, mapNumbers]
    rw [valueItems?_literalItems items hkeys hnumbers]
    rfl
  | .object members =>
    simp only [literals, Literals.value?, mapNumbers]
    rw [valueMembers?_literalMembers members [] (by simpa using hkeys.1) hkeys.2 hnumbers]
    rfl

theorem valueItems?_literalItems {f : Number → Number} (vs : List Json) (hkeys : UniqueItemKeys vs)
    (hnumbers : ∀ n ∈ itemNumbers vs, n.literal.value? = some (f n)) :
    Literals.valueItems? (literalItems vs) = some (mapItems f vs) := by
  match vs with
  | [] => rfl
  | v :: vs =>
    have hv := value?_literals v hkeys.1 fun n hn => hnumbers n (List.mem_append_left _ hn)
    have hvs := valueItems?_literalItems vs hkeys.2 fun n hn =>
      hnumbers n (List.mem_append_right _ hn)
    simp [literalItems, Literals.valueItems?, mapItems, hv, hvs]

theorem valueMembers?_literalMembers {f : Number → Number} (ms : Members String Number)
    (acc : Members String Number) (hnodup : (acc.map (·.1) ++ ms.map (·.1)).Nodup)
    (hkeys : UniqueMemberKeys ms)
    (hnumbers : ∀ n ∈ memberNumbers ms, n.literal.value? = some (f n)) :
    Literals.valueMembers? acc (literalMembers ms) = some (acc ++ mapMembers f ms) := by
  match ms with
  | [] => simp [literalMembers, Literals.valueMembers?, mapMembers]
  | (k, v) :: ms =>
    have hv := value?_literals v hkeys.1 fun n hn => hnumbers n (List.mem_append_left _ hn)
    have hk : k ∉ acc.map (·.1) := fun hmem =>
      (List.nodup_append.mp hnodup).2.2 k hmem k (by simp) rfl
    have hms := valueMembers?_literalMembers (f := f) ms (acc ++ [(k, mapNumbers f v)])
      (by simpa using hnodup) hkeys.2 fun n hn => hnumbers n (List.mem_append_right _ hn)
    simp only [literalMembers, Literals.valueMembers?, StringLiteral.value?_ofString, hv,
      insert_of_not_mem hk, Option.bind_eq_bind, Option.bind_some, hms]
    simp only [mapMembers, List.append_assoc, List.singleton_append]

end

/-- The literals of members, one by one. -/
theorem literalMembers_eq_map (ms : Members String Number) :
    literalMembers ms = ms.map fun m => (StringLiteral.ofString m.1, literals m.2) := by
  induction ms with
  | nil => rfl
  | cons m ms ih =>
    obtain ⟨k, v⟩ := m
    rw [literalMembers, ih, List.map_cons]

end Json

/-- The members of a written document are found with their keys. -/
theorem Literals.members?_literals (ms : Members String Number) :
    members? (Json.literals (.object ms)) = some (ms.map fun m => (m.1, Json.literals m.2)) := by
  simp only [Json.literals, members?, Json.literalMembers_eq_map]
  induction ms with
  | nil => rfl
  | cons m ms ih => simp [StringLiteral.value?_ofString, ih]

/-! ## Documents that were read -/

namespace Members

variable {σ ν : Type} [DecidableEq σ]

/-- An added member is found among the members, and the others were there before. -/
theorem eq_or_mem_of_mem_insert {k : σ} {v : Tree σ ν} {ms : Members σ ν} {m : σ × Tree σ ν}
    (h : m ∈ insert k v ms) : m = (k, v) ∨ m ∈ ms := by
  induction ms with
  | nil => exact .inl (by simpa [insert] using h)
  | cons m' ms ih =>
    obtain ⟨k', v'⟩ := m'
    simp only [insert] at h
    split at h
    · next hk =>
      rcases List.mem_cons.mp h with h | h
      · exact .inl (by rw [h, hk])
      · exact .inr (List.mem_cons_of_mem _ h)
    · rcases List.mem_cons.mp h with h | h
      · exact .inr (by simp [h])
      · exact (ih h).imp_right (List.mem_cons_of_mem _)

/-- The keys after a member was added: its key comes last if it is a new one. -/
theorem keys_insert (k : σ) (v : Tree σ ν) (ms : Members σ ν) :
    (insert k v ms).map (·.1) =
      if k ∈ ms.map (·.1) then ms.map (·.1) else ms.map (·.1) ++ [k] := by
  induction ms with
  | nil => simp [insert]
  | cons m' ms ih =>
    obtain ⟨k', v'⟩ := m'
    simp only [insert]
    split
    · next hk => simp [hk]
    · next hk =>
      simp only [List.map_cons, ih, List.mem_cons, Ne.symm hk, false_or]
      split <;> simp

/-- Adding a member never repeats a key. -/
theorem nodup_keys_insert {k : σ} {v : Tree σ ν} {ms : Members σ ν} (h : (ms.map (·.1)).Nodup) :
    ((insert k v ms).map (·.1)).Nodup := by
  rw [keys_insert]
  split
  · exact h
  · next hk =>
    rw [List.nodup_append]
    refine ⟨h, by simp, fun a ha b hb hab => hk ?_⟩
    rwa [← List.mem_singleton.mp hb, ← hab]

end Members

namespace Literals

/-- What is known of a document that was read from a tree: no object repeats a key, each of its
numbers was read from a literal, and it nests no more deeply than the tree. -/
structure Denotes (t : Literals) (v : Json) : Prop where
  uniqueKeys : v.UniqueKeys
  numbers : ∀ n ∈ v.numbers, ∃ l : NumberLiteral, l.value? = some n
  depth_le : v.depth ≤ t.depth

theorem exists_of_mem_valueItems? {ts : List Literals} {vs : List Json}
    (h : valueItems? ts = some vs) : ∀ v ∈ vs, ∃ t ∈ ts, t.value? = some v := by
  induction ts generalizing vs with
  | nil =>
    obtain rfl : [] = vs := Option.some.inj h
    simp
  | cons t ts ih =>
    obtain ⟨v, hv, h⟩ := Option.bind_eq_some_iff.mp h
    obtain ⟨vs', hvs, h⟩ := Option.bind_eq_some_iff.mp h
    obtain rfl : v :: vs' = vs := Option.some.inj h
    intro w hw
    rcases List.mem_cons.mp hw with rfl | hw
    · exact ⟨t, by simp, hv⟩
    · obtain ⟨t', ht', hw⟩ := ih hvs w hw
      exact ⟨t', List.mem_cons_of_mem _ ht', hw⟩

theorem exists_of_mem_valueMembers? {ts : Members StringLiteral NumberLiteral}
    {acc ms : Members String Number} (h : valueMembers? acc ts = some ms) :
    ∀ m ∈ ms, m ∈ acc ∨ ∃ t ∈ ts, value? t.2 = some m.2 := by
  induction ts generalizing acc with
  | nil =>
    obtain rfl : acc = ms := Option.some.inj h
    exact fun m hm => .inl hm
  | cons t ts ih =>
    obtain ⟨k, hk, h⟩ := Option.bind_eq_some_iff.mp h
    obtain ⟨v, hv, h⟩ := Option.bind_eq_some_iff.mp h
    intro m hm
    rcases ih h m hm with hm | ⟨t', ht', hm⟩
    · rcases Members.eq_or_mem_of_mem_insert hm with rfl | hm
      · exact .inr ⟨t, by simp, hv⟩
      · exact .inl hm
    · exact .inr ⟨t', List.mem_cons_of_mem _ ht', hm⟩

theorem nodup_keys_of_valueMembers? {ts : Members StringLiteral NumberLiteral}
    {acc ms : Members String Number} (h : valueMembers? acc ts = some ms)
    (hacc : (acc.map (·.1)).Nodup) : (ms.map (·.1)).Nodup := by
  induction ts generalizing acc with
  | nil =>
    obtain rfl : acc = ms := Option.some.inj h
    exact hacc
  | cons t ts ih =>
    obtain ⟨k, hk, h⟩ := Option.bind_eq_some_iff.mp h
    obtain ⟨v, hv, h⟩ := Option.bind_eq_some_iff.mp h
    exact ih h (Members.nodup_keys_insert hacc)

/-- What is known of a document holds of every one that a tree denotes.

**Proof sketch.** By recursion on the tree. The items of an array come from the items of the tree
one by one, and so do the members of an object, of which some are overwritten. -/
theorem denotes_of_value? (t : Literals) {v : Json} (h : t.value? = some v) : t.Denotes v := by
  match t with
  | .null =>
    obtain rfl : .null = v := Option.some.inj h
    exact ⟨trivial, by simp [Json.numbers], by simp [Tree.depth]⟩
  | .bool b =>
    obtain rfl : .bool b = v := Option.some.inj h
    exact ⟨trivial, by simp [Json.numbers], by simp [Tree.depth]⟩
  | .number l =>
    obtain ⟨n, hn, rfl⟩ := Option.map_eq_some_iff.mp h
    exact ⟨trivial, by simpa [Json.numbers] using ⟨l, hn⟩, by simp [Tree.depth]⟩
  | .string s =>
    obtain ⟨s', -, rfl⟩ := Option.map_eq_some_iff.mp h
    exact ⟨trivial, by simp [Json.numbers], by simp [Tree.depth]⟩
  | .array ts =>
    obtain ⟨vs, hvs, rfl⟩ := Option.map_eq_some_iff.mp h
    have hitem : ∀ v ∈ vs, ∃ t ∈ ts, Denotes t v := fun v hv => by
      obtain ⟨t, ht, hv⟩ := exists_of_mem_valueItems? hvs v hv
      exact ⟨t, ht, denotes_of_value? t hv⟩
    refine ⟨Json.uniqueItemKeys_iff.mpr fun v hv => ?_, fun n hn => ?_, ?_⟩
    · obtain ⟨t, -, hd⟩ := hitem v hv
      exact hd.uniqueKeys
    · obtain ⟨v, hv, hn⟩ := Json.mem_itemNumbers.mp hn
      obtain ⟨t, -, hd⟩ := hitem v hv
      exact hd.numbers n hn
    · refine Nat.add_le_add_right (Tree.itemsDepth_le.mpr fun v hv => ?_) 1
      obtain ⟨t, ht, hd⟩ := hitem v hv
      exact Nat.le_trans hd.depth_le (Tree.itemsDepth_le.mp (Nat.le_refl _) t ht)
  | .object ts =>
    obtain ⟨ms, hms, rfl⟩ := Option.map_eq_some_iff.mp h
    have hmember : ∀ m ∈ ms, ∃ t ∈ ts, Denotes t.2 m.2 := fun m hm => by
      rcases exists_of_mem_valueMembers? hms m hm with hm | ⟨t, ht, hm⟩
      · simp at hm
      · exact ⟨t, ht, denotes_of_value? t.2 hm⟩
    refine ⟨⟨nodup_keys_of_valueMembers? hms (by simp),
      Json.uniqueMemberKeys_iff.mpr fun m hm => ?_⟩, fun n hn => ?_, ?_⟩
    · obtain ⟨t, -, hd⟩ := hmember m hm
      exact hd.uniqueKeys
    · obtain ⟨m, hm, hn⟩ := Json.mem_memberNumbers.mp hn
      obtain ⟨t, -, hd⟩ := hmember m hm
      exact hd.numbers n hn
    · refine Nat.add_le_add_right (Tree.membersDepth_le.mpr fun m hm => ?_) 1
      obtain ⟨t, ht, hd⟩ := hmember m hm
      exact Nat.le_trans hd.depth_le (Tree.membersDepth_le.mp (Nat.le_refl _) t ht)
termination_by sizeOf t
decreasing_by
  · have := List.sizeOf_lt_of_mem ht
    simp only [Tree.array.sizeOf_spec]
    omega
  · have := List.sizeOf_lt_of_mem ht
    obtain ⟨k, v⟩ := t
    simp only [Tree.object.sizeOf_spec, Prod.mk.sizeOf_spec] at this ⊢
    omega

end Literals

end DenialMonitor
