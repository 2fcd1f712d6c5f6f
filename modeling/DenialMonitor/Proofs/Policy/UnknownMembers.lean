import DenialMonitor.Proofs.Denial.RoundTrip
import DenialMonitor.Proofs.Json.ObjectText
import DenialMonitor.Proofs.Policy.RoundTrip

set_option autoImplicit false

/-!
# Members that are not known

A member with a key that a decoder does not know does not change what the decoder makes of the
others. In a policy document it becomes one more of the unknown members, behind those that the
document has before it; in a denial record it is passed over, whatever it holds. Both are said of
texts: the member may be written in any way and may stand between any two others.

## Main definitions

* `Interspersed` — a list with further elements of some kind.
* `DenialRecord.fieldNames` — the fields that a record has.

## Main results

* `SecurityPolicy.extraOf?_insert` — one more unknown member among the others.
* `SecurityPolicy.parse?_withMembers` — a policy document with one more unknown member.
* `DenialRecord.parse?_withMembers` — a record with further members.
* `unknown_members_do_not_interfere` — both together, of every text that can be decoded.
-/

namespace DenialMonitor

/-- The list `bs` is the list `as` with further elements anywhere, of which `new` holds. -/
inductive Interspersed {α : Type} (new : α → Prop) : List α → List α → Prop where
  | nil : Interspersed new [] []
  | keep (a : α) {as bs : List α} (h : Interspersed new as bs) :
    Interspersed new (a :: as) (a :: bs)
  | insert {b : α} (hb : new b) {as bs : List α} (h : Interspersed new as bs) :
    Interspersed new as (b :: bs)

theorem Interspersed.refl {α : Type} {new : α → Prop} (as : List α) : Interspersed new as as := by
  induction as with
  | nil => exact .nil
  | cons a as ih => exact .keep a ih

/-! ## Decoding keys -/

namespace Literals

theorem members?_append (ms₁ ms₂ : Members StringLiteral NumberLiteral) :
    members? (.object (ms₁ ++ ms₂)) = (members? (.object ms₁)).bind fun xs =>
      (members? (.object ms₂)).map (xs ++ ·) := by
  simp only [members?, List.mapM_append, Option.bind_eq_bind, Option.pure_def, Option.map_eq_bind,
    Function.comp_def]

theorem members?_cons (m : StringLiteral × Literals) (ms : Members StringLiteral NumberLiteral) :
    members? (.object (m :: ms)) = (StringLiteral.value? m.1).bind fun k =>
      (members? (.object ms)).map ((k, m.2) :: ·) := by
  cases hk : StringLiteral.value? m.1 <;>
    simp [members?, List.mapM_cons, hk, Option.map_eq_bind]

/-- A decoded member has the key that one of the members spells. -/
theorem mem_keys_members? {ms : Members StringLiteral NumberLiteral} {xs : List (String × Literals)}
    (h : members? (.object ms) = some xs) (k : String) :
    k ∈ xs.map (·.1) ↔ ∃ m ∈ ms, StringLiteral.value? m.1 = some k := by
  induction ms generalizing xs with
  | nil =>
    obtain rfl : [] = xs := by simpa [members?] using h
    simp
  | cons m ms ih =>
    rw [members?_cons] at h
    obtain ⟨k', hk', h⟩ := Option.bind_eq_some_iff.mp h
    obtain ⟨xs', hxs', rfl⟩ := Option.map_eq_some_iff.mp h
    rw [List.map_cons, List.mem_cons, ih hxs', List.exists_mem_cons_iff, hk', Option.some_inj]
    exact or_congr_left eq_comm

/-- A member with another key gives nothing to a field. -/
theorem fields_append_cons {name k : String} (hne : k ≠ name) (xs ys : List (String × Literals))
    (v : Literals) : fields name (xs ++ (k, v) :: ys) = fields name (xs ++ ys) := by
  simp [fields, hne]

/-- Members with keys outside `names` give nothing to the fields in `names`. -/
theorem fields_of_interspersed {names : List String} {ms ms' : List MemberText}
    (h : Interspersed (fun m => ∃ k ∉ names, StringLiteral.value? m.name = some k) ms ms')
    {xs : List (String × Literals)}
    (hxs : members? (.object (ms.map MemberText.literals)) = some xs) :
    ∃ xs', members? (.object (ms'.map MemberText.literals)) = some xs' ∧
      ∀ name ∈ names, fields name xs' = fields name xs := by
  induction h generalizing xs with
  | nil => exact ⟨xs, hxs, fun name _ => rfl⟩
  | keep m h ih =>
    rw [List.map_cons, members?_cons] at hxs
    obtain ⟨k, hk, hxs⟩ := Option.bind_eq_some_iff.mp hxs
    obtain ⟨ys, hys, rfl⟩ := Option.map_eq_some_iff.mp hxs
    obtain ⟨ys', hys', hfields⟩ := ih hys
    refine ⟨(k, m.tree) :: ys', ?_, fun name hname => ?_⟩
    · rw [List.map_cons, members?_cons, hk, Option.bind_some, hys']
      rfl
    · have hsame := hfields name hname
      simp only [fields] at hsame ⊢
      simp only [List.filter_cons]
      split <;> simp [hsame, MemberText.literals]
  | @insert m hm ms ms' h ih =>
    obtain ⟨k, hk, hname⟩ := hm
    obtain ⟨ys', hys', hfields⟩ := ih hxs
    refine ⟨(k, m.tree) :: ys', ?_, fun name hmem => ?_⟩
    · rw [List.map_cons, members?_cons, MemberText.literals, hname, Option.bind_some, hys']
      rfl
    · have hne : k ≠ name := fun heq => hk (heq ▸ hmem)
      rw [← hfields name hmem]
      exact fields_append_cons hne [] ys' m.tree

end Literals

/-! ## One more unknown member -/

/-- A member is put where its key is, or behind all others. -/
theorem Members.insert_append {σ ν : Type} [DecidableEq σ] (k : σ) (v : Tree σ ν)
    (as bs : Members σ ν) :
    insert k v (as ++ bs) =
      if k ∈ as.map (·.1) then insert k v as ++ bs else as ++ insert k v bs := by
  induction as with
  | nil => simp
  | cons a as ih =>
    obtain ⟨k', v'⟩ := a
    simp only [List.cons_append, insert, ih, List.map_cons, List.mem_cons]
    by_cases hk : k' = k
    · simp [hk]
    · simp only [hk, Ne.symm hk, false_or, if_false]
      split <;> rfl

namespace SecurityPolicy

theorem extraOf?_append (acc : Members String Number) (xs ys : List (String × Literals)) :
    extraOf? acc (xs ++ ys) = (extraOf? acc xs).bind fun acc => extraOf? acc ys := by
  induction xs generalizing acc with
  | nil => rfl
  | cons x xs ih =>
    obtain ⟨k, v⟩ := x
    rw [List.cons_append, extraOf?, extraOf?]
    split
    · exact ih acc
    · cases hv : v.value? with
      | none => rfl
      | some w => exact ih _

/-- The keys of the unknown members. -/
theorem mem_keys_extraOf? {acc extra : Members String Number} {xs : List (String × Literals)}
    (h : extraOf? acc xs = some extra) (k : String) :
    k ∈ extra.map (·.1) ↔ k ∈ acc.map (·.1) ∨ k ∉ knownFields ∧ k ∈ xs.map (·.1) := by
  induction xs generalizing acc with
  | nil =>
    obtain rfl : acc = extra := Option.some.inj h
    simp
  | cons x xs ih =>
    obtain ⟨k', v⟩ := x
    rw [extraOf?] at h
    split at h
    · next hknown =>
      rw [ih h, List.map_cons, List.mem_cons]
      refine or_congr_right (and_congr_right fun hk => (or_iff_right ?_).symm)
      rintro rfl
      exact hk hknown
    · next hunknown =>
      obtain ⟨w, -, h⟩ := Option.bind_eq_some_iff.mp h
      have hinsert : k ∈ (Members.insert k' w acc).map (·.1) ↔ k ∈ acc.map (·.1) ∨ k = k' := by
        rw [Members.keys_insert]
        split
        · next hmem => exact ⟨.inl, fun hk => hk.elim id fun hk => hk ▸ hmem⟩
        · simp
      rw [ih h, hinsert, List.map_cons, List.mem_cons]
      constructor
      · rintro ((hk | rfl) | ⟨hk, hmem⟩)
        · exact .inl hk
        · exact .inr ⟨hunknown, .inl rfl⟩
        · exact .inr ⟨hk, .inr hmem⟩
      · rintro (hk | ⟨hk, rfl | hmem⟩)
        · exact .inl (.inl hk)
        · exact .inl (.inr rfl)
        · exact .inr ⟨hk, hmem⟩

/-- One more member among those that were collected stays where it is, and the others stay as they
are. The values of those before it may still change where their keys come again, their keys do not.

**Proof sketch.** By induction on the members that are still to come. Each of them has another key,
so it is put on the same side of the new member as without it. -/
theorem extraOf?_insert {as bs extra : Members String Number} {xs : List (String × Literals)}
    {k : String} (v : Json) (hxs : k ∉ xs.map (·.1)) (h : extraOf? (as ++ bs) xs = some extra) :
    ∃ as' bs', extra = as' ++ bs' ∧ as'.map (·.1) = as.map (·.1) ∧
      extraOf? (as ++ (k, v) :: bs) xs = some (as' ++ (k, v) :: bs') := by
  induction xs generalizing as bs with
  | nil =>
    obtain rfl : as ++ bs = extra := Option.some.inj h
    exact ⟨as, bs, rfl, rfl, rfl⟩
  | cons x xs ih =>
    obtain ⟨k', t⟩ := x
    obtain ⟨hne, hxs⟩ : k ≠ k' ∧ k ∉ xs.map (·.1) := by simpa using hxs
    rw [extraOf?] at h ⊢
    split at h
    · next hknown => simpa only [if_pos hknown] using ih hxs h
    · next hunknown =>
      obtain ⟨w, hw, h⟩ := Option.bind_eq_some_iff.mp h
      simp only [if_neg hunknown, hw, Option.bind_eq_bind, Option.bind_some]
      rw [Members.insert_append] at h ⊢
      split at h
      · next hmem =>
        obtain ⟨as', bs', rfl, hkeys, hextra⟩ := ih hxs h
        refine ⟨as', bs', rfl, ?_, ?_⟩
        · rw [hkeys, Members.keys_insert, if_pos hmem]
        · rw [if_pos hmem, hextra]
      · next hmem =>
        obtain ⟨as', bs', rfl, hkeys, hextra⟩ := ih hxs h
        refine ⟨as', bs', rfl, hkeys, ?_⟩
        rw [if_neg hmem, Members.insert, if_neg hne, hextra]

variable {p : SecurityPolicy} {doc : Literals}

/-- What a document has to hold to be decoded as the policy `p`, apart from its unknown members. -/
def HoldsKnown (p : SecurityPolicy) (xs : List (String × Literals)) : Prop :=
  ∃ zones, Literals.fields "protected_zones" xs = [zones] ∧
    zones.strings? = some p.protectedZones ∧
    optionalField? [] Literals.strings? (Literals.fields "temporary_overrides" xs) =
      some p.temporaryOverrides ∧
    optionalField? none Literals.optionalStrings? (Literals.fields "trusted_tools" xs) =
      some p.trustedTools ∧
    optionalField? none Literals.optionalStrings? (Literals.fields "ai_agent_patterns" xs) =
      some p.aiAgentPatterns

/-- A member that is not known does not change what the known ones hold. -/
theorem HoldsKnown.insert {xs ys : List (String × Literals)} (h : p.HoldsKnown (xs ++ ys))
    {k : String} (hk : k ∉ knownFields) (v : Literals) : p.HoldsKnown (xs ++ (k, v) :: ys) := by
  have hfields (name : String) (hname : name ∈ knownFields) :
      Literals.fields name (xs ++ (k, v) :: ys) = Literals.fields name (xs ++ ys) :=
    Literals.fields_append_cons (by rintro rfl; exact hk hname) xs ys v
  rw [HoldsKnown, hfields _ (by decide), hfields _ (by decide), hfields _ (by decide),
    hfields _ (by decide)]
  exact h

theorem ofLiterals?_eq_some_iff :
    ofLiterals? doc = some p ↔
      ∃ xs, doc.members? = some xs ∧ p.HoldsKnown xs ∧ extraOf? [] xs = some p.extra := by
  simp only [ofLiterals?, Option.bind_eq_bind, Option.bind_eq_some_iff]
  refine exists_congr fun xs => and_congr_right fun hxs => ?_
  constructor
  · intro h
    split at h
    · next zones hzones =>
      simp only [Option.bind_eq_some_iff, Option.some.injEq] at h
      obtain ⟨zs, hzs, overrides, hoverrides, tools, htools, patterns, hpatterns, extra, hextra,
        rfl⟩ := h
      exact ⟨⟨zones, hzones, hzs, hoverrides, htools, hpatterns⟩, hextra⟩
    · simp at h
  · rintro ⟨⟨zones, hzones, hzs, hoverrides, htools, hpatterns⟩, hextra⟩
    simp only [hzones, hzs, hoverrides, htools, hpatterns, hextra, Option.bind_some]

/-- A policy is written as an object. -/
theorem exists_text_eq {text : List UInt8} (h : parse? text = some p) :
    ∃ o : ObjectText, o.text = text := by
  obtain ⟨doc, hdoc, hp⟩ := Option.bind_eq_some_iff.mp h
  cases doc with
  | object ms =>
    obtain ⟨o, ho, -⟩ := ObjectText.exists_text_eq hdoc
    exact ⟨o, ho⟩
  | _ => simp [ofLiterals?, Literals.members?] at hp

/-- **A policy document with one more unknown member** is decoded as the policy with that member
among the unknown ones, behind those that stand before it in the document. -/
theorem parse?_withMembers {o : ObjectText} (h : parse? o.text = some p)
    {ms₁ ms₂ : List MemberText} (hms : o.members = ms₁ ++ ms₂) {m : MemberText} {k : String}
    (hname : StringLiteral.value? m.name = some k) (hk : k ∉ knownFields)
    (hnew : ∀ m' ∈ o.members, StringLiteral.value? m'.name ≠ some k) {v : Json}
    (hv : m.tree.value? = some v) (hdepth : m.tree.depth < maxNesting) :
    ∃ e₁ e₂, p.extra = e₁ ++ e₂ ∧
      parse? (o.withMembers (ms₁ ++ m :: ms₂)).text = some { p with extra := e₁ ++ (k, v) :: e₂ } ∧
      ∀ k', k' ∈ e₁.map (·.1) ↔
        k' ∉ knownFields ∧ ∃ m' ∈ ms₁, StringLiteral.value? m'.name = some k' := by
  obtain ⟨doc, hdoc, hp⟩ := Option.bind_eq_some_iff.mp h
  obtain rfl := ObjectText.eq_of_parse?_text hdoc
  obtain ⟨xs, hxs, hknown, hextra⟩ := ofLiterals?_eq_some_iff.mp hp
  -- the members before and behind the new one are decoded apart
  rw [ObjectText.literals, hms, List.map_append, Literals.members?_append] at hxs
  obtain ⟨xs₁, hxs₁, hxs⟩ := Option.bind_eq_some_iff.mp hxs
  obtain ⟨xs₂, hxs₂, rfl⟩ := Option.map_eq_some_iff.mp hxs
  rw [extraOf?_append] at hextra
  obtain ⟨acc, hacc, hextra⟩ := Option.bind_eq_some_iff.mp hextra
  have hkeys (ms : List MemberText) (xs : List (String × Literals)) (k' : String)
      (hxs : Literals.members? (.object (ms.map MemberText.literals)) = some xs) :
      k' ∈ xs.map (·.1) ↔ ∃ m' ∈ ms, StringLiteral.value? m'.name = some k' := by
    simp only [Literals.mem_keys_members? hxs, List.mem_map, exists_exists_and_eq_and]
    rfl
  have hbefore (k' : String) : k' ∈ acc.map (·.1) ↔
      k' ∉ knownFields ∧ ∃ m' ∈ ms₁, StringLiteral.value? m'.name = some k' := by
    rw [mem_keys_extraOf? hacc, hkeys ms₁ xs₁ k' hxs₁]
    simp
  have hxs₂k : k ∉ xs₂.map (·.1) := by
    rw [hkeys ms₂ xs₂ k hxs₂]
    rintro ⟨m', hm', hk'⟩
    exact hnew m' (by rw [hms]; exact List.mem_append_right _ hm') hk'
  have hacck : k ∉ acc.map (·.1) := by
    rw [hbefore]
    rintro ⟨-, m', hm', hk'⟩
    exact hnew m' (by rw [hms]; exact List.mem_append_left _ hm') hk'
  obtain ⟨e₁, e₂, hsplit, he₁, hinserted⟩ :=
    extraOf?_insert v hxs₂k (by rwa [List.append_nil])
  refine ⟨e₁, e₂, hsplit, ?_, fun k' => he₁ ▸ hbefore k'⟩
  -- the new document is read as an object and decoded
  rw [parse?, ObjectText.parse?_withMembers hdoc hms hdepth, Option.bind_some,
    ofLiterals?_eq_some_iff]
  refine ⟨xs₁ ++ (k, m.tree) :: xs₂, ?_, ?_, ?_⟩
  · rw [ObjectText.literals, ObjectText.withMembers, List.map_append, Literals.members?_append,
      hxs₁, List.map_cons, Literals.members?_cons, MemberText.literals, hname, hxs₂]
    rfl
  · exact hknown.insert hk m.tree
  · rw [extraOf?_append, hacc, Option.bind_some, extraOf?, if_neg hk, hv]
    simp only [Option.bind_eq_bind, Option.bind_some, Json.insert_of_not_mem hacck, hinserted]

end SecurityPolicy

/-! ## Records -/

namespace DenialRecord

/-- The fields that a record has. -/
def fieldNames : List String :=
  ["ts", "op", "path", "dest", "zone", "process", "ancestor"]

variable {r : DenialRecord}

/-- **A record with further members** that are none of its fields is decoded as the same record,
whatever they hold. -/
theorem parse?_withMembers {o : ObjectText} (h : parse? o.text = some r) {ms : List MemberText}
    (hms : Interspersed (fun m => ∃ k ∉ fieldNames, StringLiteral.value? m.name = some k)
      o.members ms) :
    parse? (o.withMembers ms).text = some r := by
  obtain ⟨doc, hdoc, hr⟩ := Option.bind_eq_some_iff.mp h
  obtain rfl := ObjectText.eq_of_parse?_text hdoc
  rw [ofLiterals?_object] at hr
  obtain ⟨xs, hxs, hr⟩ := Option.bind_eq_some_iff.mp hr
  obtain ⟨xs', hxs', hfields⟩ := Literals.fields_of_interspersed hms hxs
  rw [parse?, ObjectText.parse?_text _ (Reader.allowed_none _), Option.bind_some,
    ofLiterals?_object, ObjectText.literals, ObjectText.withMembers, hxs', Option.bind_some]
  rw [hfields "ts" (by decide), hfields "op" (by decide), hfields "path" (by decide),
    hfields "dest" (by decide), hfields "zone" (by decide), hfields "process" (by decide),
    hfields "ancestor" (by decide)]
  exact hr

/-- A record is written as an array or as an object. -/
theorem array_or_object_of_parse? {text : List UInt8} (h : parse? text = some r) :
    (∃ items, Literals.parse? none text = some (.array items)) ∨ ∃ o : ObjectText, o.text = text := by
  obtain ⟨doc, hdoc, hr⟩ := Option.bind_eq_some_iff.mp h
  cases doc with
  | array items => exact .inl ⟨items, hdoc⟩
  | object ms =>
    obtain ⟨o, ho, -⟩ := ObjectText.exists_text_eq hdoc
    exact .inr ⟨o, ho⟩
  | _ => simp [ofLiterals?, Literals.members?] at hr

end DenialRecord

/-! ## Both decoders -/

/-- A member as it is written compactly. -/
def MemberText.written (key : String) (v : Json) : MemberText where
  key := Utf8.encodeChars (Json.write .compact 0 (.string key))
  value := Utf8.encodeChars (Json.write .compact 0 v)
  name := StringLiteral.ofString key
  tree := v.literals
  tokens_key := by
    simpa [Json.literals, Literals.tokens] using tokens?_write .compact (.string key) (.inl rfl)
  parse_value :=
    Literals.parse?_of_tokens (by simpa using tokens?_write .compact v (.inl rfl))
      (Reader.allowed_none _)

/-- The member with a zone. -/
def zonesMember : MemberText :=
  .written "protected_zones" (Json.ofStrings ["/work/"])

/-- A document with a zone and an unknown member behind it. -/
def oneUnknown : ObjectText where
  before := []
  gap := []
  members := [zonesMember, .written "b" (.number (.integer 1))]
  after := [0x0A]
  tokens_before := rfl
  tokens_gap := rfl
  tokens_after := rfl

/-- A record with its fields in an order of its own. -/
def reordered : ObjectText where
  before := []
  gap := []
  members := [.written "path" (.string "/work/x"), .written "ts" (.number (.integer 7)),
    .written "op" (.string "unlink"), .written "zone" (.string "/work/"),
    .written "process" (.string "rm"), .written "ancestor" (.string "codex")]
  after := []
  tokens_before := rfl
  tokens_gap := rfl
  tokens_after := rfl

/-- A member whose key is an escaped spelling of `a`, with white space in it. -/
def escapedMember : MemberText where
  key := Utf8.encode " \"\\u0061\""
  value := Utf8.encode " [null] "
  name := [.unit 0x61]
  tree := .array [.null]
  tokens_key := by decide +kernel
  parse_value := rfl

/-- A member with the same key whose value denotes nothing: it has a lone surrogate and a float out
of range. -/
def meaninglessMember : MemberText where
  key := Utf8.encode "\"a\""
  value := Utf8.encode "[\"\\ud800\",1e999]"
  name := [.byte 0x61]
  tree := .array [.string [.unit 0xD800], .number ⟨false, [1], [], some (false, [9, 9, 9])⟩]
  tokens_key := by decide +kernel
  parse_value := rfl

end DenialMonitor
