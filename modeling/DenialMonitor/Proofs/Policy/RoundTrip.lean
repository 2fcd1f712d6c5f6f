import DenialMonitor.Policy.Codec
import DenialMonitor.Proofs.Json.Floats
import DenialMonitor.Proofs.Json.Values

set_option autoImplicit false

/-!
# Policies that are read back

What the policy file holds after it was written is read back as the policy that was written, with
each number as it is read back. This takes a policy whose unknown members repeat no key, have no
key that the monitor knows, and do not nest too deeply; every policy that was read is of this kind,
and so is every policy that it is edited to.

## Main definitions

* `SecurityPolicy.Tidy` — what is known of the unknown members of a policy that was read.

## Main results

* `SecurityPolicy.parse?_fileContent` — a policy file is read back.
* `SecurityPolicy.tidy_of_parse?`, `SecurityPolicy.tidy_ofFile` — policies that were read are tidy.
-/

namespace DenialMonitor

namespace SecurityPolicy

/-- What is known of the unknown members of a policy that was read. -/
structure Tidy (p : SecurityPolicy) : Prop where
  unknown : ∀ m ∈ p.extra, m.1 ∉ knownFields
  nodup : (p.extra.map (·.1)).Nodup
  uniqueKeys : Json.UniqueMemberKeys p.extra
  numbers : ∀ n ∈ Json.memberNumbers p.extra, ∃ l : NumberLiteral, l.value? = some n
  depth_lt : Tree.membersDepth p.extra < maxNesting

variable {p : SecurityPolicy}

/-- Only the unknown members matter. -/
theorem Tidy.of_extra (h : p.Tidy) {q : SecurityPolicy} (hq : q.extra = p.extra) : q.Tidy :=
  ⟨hq ▸ h.unknown, hq ▸ h.nodup, hq ▸ h.uniqueKeys, hq ▸ h.numbers, hq ▸ h.depth_lt⟩

theorem tidy_empty : empty.Tidy :=
  ⟨by simp [empty], by simp [empty], trivial, by simp [empty, Json.memberNumbers],
    by simp [empty, Tree.membersDepth, maxNesting]⟩

/-! ## Writing and reading back -/

/-- A written list of texts is read back. -/
theorem strings?_literals (ss : List String) :
    Literals.strings? (Json.literals (Json.ofStrings ss)) = some ss := by
  simp only [Json.ofStrings, Json.literals, Literals.strings?]
  induction ss with
  | nil => rfl
  | cons s ss ih =>
    simp [Json.literalItems, Json.literals, Literals.string?, StringLiteral.value?_ofString, ih]

theorem optionalStrings?_literals (ss : List String) :
    Literals.optionalStrings? (Json.literals (Json.ofStrings ss)) = some (some ss) := by
  have h := strings?_literals ss
  simp only [Json.ofStrings, Json.literals] at h ⊢
  simp [Literals.optionalStrings?, h]

/-- The members that the monitor knows, with their literals. -/
def knownMembers (p : SecurityPolicy) : Members String Number :=
  [("protected_zones", Json.ofStrings p.protectedZones),
      ("temporary_overrides", Json.ofStrings p.temporaryOverrides)] ++
    optionalMember "trusted_tools" p.trustedTools ++
    optionalMember "ai_agent_patterns" p.aiAgentPatterns

theorem toJson_eq (p : SecurityPolicy) : p.toJson = .object (p.knownMembers ++ p.extra) := by
  simp [toJson, knownMembers]

theorem mem_knownFields_of_mem_knownMembers {m : String × Json} (h : m ∈ p.knownMembers) :
    m.1 ∈ knownFields := by
  simp only [knownMembers, List.mem_append, List.mem_cons, List.not_mem_nil, or_false] at h
  rcases h with ((rfl | rfl) | h) | h
  · simp [knownFields]
  · simp [knownFields]
  · cases ht : p.trustedTools <;> simp [ht, optionalMember] at h
    simp [h, knownFields]
  · cases ha : p.aiAgentPatterns <;> simp [ha, optionalMember] at h
    simp [h, knownFields]

/-- The unknown members give nothing to a field that the monitor knows. -/
theorem fields_extra (hp : p.Tidy) {name : String} (hname : name ∈ knownFields) :
    Literals.fields name (p.extra.map fun m => (m.1, Json.literals m.2)) = [] := by
  simp only [Literals.fields, List.map_eq_nil_iff, List.filter_eq_nil_iff, List.mem_map]
  rintro _ ⟨m, hm, rfl⟩
  simp only [decide_eq_true_eq]
  rintro rfl
  exact hp.unknown m hm hname

/-- The members that the monitor knows are passed over when the unknown ones are collected. -/
theorem extraOf?_knownMembers (acc : Members String Number) (rest : List (String × Literals)) :
    extraOf? acc ((p.knownMembers.map fun m => (m.1, Json.literals m.2)) ++ rest) =
      extraOf? acc rest := by
  have hskip (ms : Members String Number) (hms : ∀ m ∈ ms, m.1 ∈ knownFields) :
      extraOf? acc ((ms.map fun m => (m.1, Json.literals m.2)) ++ rest) = extraOf? acc rest := by
    induction ms with
    | nil => rfl
    | cons m ms ih =>
      rw [List.map_cons, List.cons_append, extraOf?, if_pos (hms m (by simp))]
      exact ih fun m hm => hms m (List.mem_cons_of_mem _ hm)
  exact hskip p.knownMembers fun m hm => mem_knownFields_of_mem_knownMembers hm

/-- The unknown members are read back, with each number as it is read back. -/
theorem extraOf?_extra {f : Number → Number} (ms acc : Members String Number)
    (hunknown : ∀ m ∈ ms, m.1 ∉ knownFields) (hnodup : (acc.map (·.1) ++ ms.map (·.1)).Nodup)
    (hkeys : Json.UniqueMemberKeys ms)
    (hnumbers : ∀ n ∈ Json.memberNumbers ms, n.literal.value? = some (f n)) :
    extraOf? acc (ms.map fun m => (m.1, Json.literals m.2)) = some (acc ++ Json.mapMembers f ms) := by
  induction ms generalizing acc with
  | nil => simp [extraOf?, Json.mapMembers]
  | cons m ms ih =>
    obtain ⟨k, v⟩ := m
    have hv := Json.value?_literals v hkeys.1 fun n hn => hnumbers n (List.mem_append_left _ hn)
    have hk : k ∉ acc.map (·.1) := fun hmem =>
      (List.nodup_append.mp hnodup).2.2 k hmem k (by simp) rfl
    have hrest := ih (acc ++ [(k, Json.mapNumbers f v)])
      (fun m hm => hunknown m (List.mem_cons_of_mem _ hm)) (by simpa using hnodup) hkeys.2
      fun n hn => hnumbers n (List.mem_append_right _ hn)
    rw [List.map_cons, extraOf?, if_neg (hunknown (k, v) (by simp))]
    simp only [hv, Json.insert_of_not_mem hk, Option.bind_eq_bind, Option.bind_some, hrest]
    simp only [Json.mapMembers, List.append_assoc, List.singleton_append]

/-- A written policy is read back from its literals. -/
theorem ofLiterals?_literals {f : Number → Number} (hp : p.Tidy)
    (hnumbers : ∀ n ∈ Json.memberNumbers p.extra, n.literal.value? = some (f n)) :
    ofLiterals? (Json.literals p.toJson) = some { p with extra := Json.mapMembers f p.extra } := by
  have hextra := extraOf?_extra p.extra [] hp.unknown (by simpa using hp.nodup) hp.uniqueKeys hnumbers
  have hfield (name : String) (hname : name ∈ knownFields) :
      Literals.fields name ((p.knownMembers ++ p.extra).map fun m => (m.1, Json.literals m.2)) =
        (p.knownMembers.filter (·.1 = name)).map fun m => Json.literals m.2 := by
    have hnone := fields_extra hp hname
    simp only [Literals.fields] at hnone ⊢
    rw [List.map_append, List.filter_append, List.map_append, hnone, List.append_nil,
      List.filter_map, List.map_map]
    rfl
  have hzones : (p.knownMembers.filter (·.1 = "protected_zones")).map (fun m => Json.literals m.2) =
      [Json.literals (Json.ofStrings p.protectedZones)] := by
    cases ht : p.trustedTools <;> cases ha : p.aiAgentPatterns <;>
      simp [knownMembers, ht, ha, optionalMember]
  have hoverrides : optionalField? [] Literals.strings?
      ((p.knownMembers.filter (·.1 = "temporary_overrides")).map fun m => Json.literals m.2) =
        some p.temporaryOverrides := by
    cases ht : p.trustedTools <;> cases ha : p.aiAgentPatterns <;>
      simp [knownMembers, ht, ha, optionalMember, optionalField?, strings?_literals]
  have htools : optionalField? none Literals.optionalStrings?
      ((p.knownMembers.filter (·.1 = "trusted_tools")).map fun m => Json.literals m.2) =
        some p.trustedTools := by
    cases ht : p.trustedTools <;> cases ha : p.aiAgentPatterns <;>
      simp [knownMembers, ht, ha, optionalMember, optionalField?, optionalStrings?_literals]
  have hpatterns : optionalField? none Literals.optionalStrings?
      ((p.knownMembers.filter (·.1 = "ai_agent_patterns")).map fun m => Json.literals m.2) =
        some p.aiAgentPatterns := by
    cases ht : p.trustedTools <;> cases ha : p.aiAgentPatterns <;>
      simp [knownMembers, ht, ha, optionalMember, optionalField?, optionalStrings?_literals]
  have hall : extraOf? [] ((p.knownMembers ++ p.extra).map fun m => (m.1, Json.literals m.2)) =
      some (Json.mapMembers f p.extra) := by
    rw [List.map_append, extraOf?_knownMembers, hextra, List.nil_append]
  simp only [ofLiterals?, toJson_eq, Literals.members?_literals, Option.bind_eq_bind, Option.bind_some,
    hfield _ (show "protected_zones" ∈ knownFields by simp [knownFields]),
    hfield _ (show "temporary_overrides" ∈ knownFields by simp [knownFields]),
    hfield _ (show "trusted_tools" ∈ knownFields by simp [knownFields]),
    hfield _ (show "ai_agent_patterns" ∈ knownFields by simp [knownFields]), hzones, hoverrides,
    htools, hpatterns, strings?_literals, hall]

/-- A written policy nests no more deeply than a policy may. -/
theorem depth_toJson (hp : p.Tidy) : p.toJson.depth ≤ maxNesting := by
  have hstrings (ss : List String) : (Json.ofStrings ss).depth ≤ 1 := by
    refine Nat.add_le_add_right (Tree.itemsDepth_le.mpr fun v hv => ?_) 1
    obtain ⟨s, -, rfl⟩ := List.mem_map.mp hv
    simp [Tree.depth]
  have hknown : ∀ m ∈ p.knownMembers, m.2.depth ≤ 1 := by
    intro m hm
    simp only [knownMembers, List.mem_append, List.mem_cons, List.not_mem_nil, or_false] at hm
    rcases hm with ((rfl | rfl) | hm) | hm
    · exact hstrings _
    · exact hstrings _
    · cases ht : p.trustedTools <;> simp [ht, optionalMember] at hm
      rw [hm]
      exact hstrings _
    · cases ha : p.aiAgentPatterns <;> simp [ha, optionalMember] at hm
      rw [hm]
      exact hstrings _
  have hmembers : Tree.membersDepth (p.knownMembers ++ p.extra) < maxNesting := by
    refine Nat.lt_of_le_of_lt (Tree.membersDepth_le.mpr fun m hm => ?_)
      (Nat.max_lt.mpr ⟨(by decide : 1 < maxNesting), hp.depth_lt⟩)
    rcases List.mem_append.mp hm with hm | hm
    · exact Nat.le_trans (hknown m hm) (Nat.le_max_left _ _)
    · exact Nat.le_trans (Tree.membersDepth_le.mp (Nat.le_refl _) m hm) (Nat.le_max_right _ _)
  rw [toJson_eq]
  exact hmembers

end SecurityPolicy

namespace Json

mutual

/-- The literals of a document nest as deeply as the document. -/
theorem depth_literals (v : Json) : v.literals.depth = v.depth := by
  match v with
  | .null | .bool b | .number n | .string s => rfl
  | .array items => simp [literals, Tree.depth, itemsDepth_literalItems items]
  | .object members => simp [literals, Tree.depth, membersDepth_literalMembers members]

theorem itemsDepth_literalItems (vs : List Json) :
    Tree.itemsDepth (literalItems vs) = Tree.itemsDepth vs := by
  match vs with
  | [] => rfl
  | v :: vs =>
    simp [literalItems, Tree.itemsDepth, depth_literals v, itemsDepth_literalItems vs]

theorem membersDepth_literalMembers (ms : Members String Number) :
    Tree.membersDepth (literalMembers ms) = Tree.membersDepth ms := by
  match ms with
  | [] => rfl
  | (k, v) :: ms =>
    simp [literalMembers, Tree.membersDepth, depth_literals v, membersDepth_literalMembers ms]

end

end Json

namespace SecurityPolicy

variable {p : SecurityPolicy}

/-- What the policy file holds after a policy was written is read back as the policy, with each
number as it is read back. -/
theorem parse?_fileContent {f : Number → Number} (hp : p.Tidy)
    (hnumbers : ∀ n ∈ Json.memberNumbers p.extra, n.literal.value? = some (f n)) :
    parse? p.fileContent = some { p with extra := Json.mapMembers f p.extra } := by
  have hcontent : p.fileContent = Utf8.encodeChars (Json.write .pretty 0 p.toJson ++ ['\n']) := by
    simp [fileContent, text, Json.pretty, Utf8.encode, Utf8.encodeChars]
    rfl
  have htokens : tokens? p.fileContent = some (Literals.tokens (Json.literals p.toJson)) := by
    rw [hcontent]
    exact tokens?_write .pretty p.toJson (.inr rfl)
  have hdepth : Reader.Allowed (some maxNesting) (Json.literals p.toJson).depth := by
    rintro k hk
    obtain rfl : maxNesting = k := Option.some.inj hk
    rw [Json.depth_literals]
    exact depth_toJson hp
  rw [parse?, Literals.parse?_of_tokens htokens hdepth, Option.bind_some,
    ofLiterals?_literals hp hnumbers]

/-- What the policy file holds after a policy was written can be read back, and only its numbers may
differ. -/
theorem Tidy.exists_parse?_fileContent (hp : p.Tidy) :
    ∃ extra, parse? p.fileContent = some { p with extra } := by
  have hnumbers : ∀ n ∈ Json.memberNumbers p.extra,
      n.literal.value? = some (n.literal.value?.getD n) := by
    intro n hn
    obtain ⟨l, hl⟩ := hp.numbers n hn
    obtain ⟨n', hn'⟩ := Number.exists_value?_literal hl
    rw [hn', Option.getD_some]
  exact ⟨_, parse?_fileContent hp hnumbers⟩

/-! ## Policies that were read -/

/-- The unknown members of a policy that was read are members of its document. -/
theorem exists_of_mem_extraOf? {ms : List (String × Literals)} {acc extra : Members String Number}
    (h : extraOf? acc ms = some extra) :
    ∀ m ∈ extra, m ∈ acc ∨ m.1 ∉ knownFields ∧ ∃ t ∈ ms, t.2.value? = some m.2 := by
  induction ms generalizing acc with
  | nil =>
    obtain rfl : acc = extra := Option.some.inj h
    exact fun m hm => .inl hm
  | cons t ms ih =>
    obtain ⟨k, t⟩ := t
    have hlater {acc' : Members String Number} (h : extraOf? acc' ms = some extra) :
        ∀ m ∈ extra, m ∈ acc' ∨ m.1 ∉ knownFields ∧ ∃ t' ∈ (k, t) :: ms, t'.2.value? = some m.2 :=
      fun m hm => (ih h m hm).imp_right fun ⟨hk, t', ht', hv⟩ =>
        ⟨hk, t', List.mem_cons_of_mem _ ht', hv⟩
    rw [extraOf?] at h
    split at h
    · exact hlater h
    · next hk =>
      obtain ⟨v, hv, h⟩ := Option.bind_eq_some_iff.mp h
      intro m hm
      rcases hlater h m hm with hm | hm
      · rcases Members.eq_or_mem_of_mem_insert hm with rfl | hm
        · exact .inr ⟨hk, (k, t), by simp, hv⟩
        · exact .inl hm
      · exact .inr hm

theorem nodup_keys_of_extraOf? {ms : List (String × Literals)} {acc extra : Members String Number}
    (h : extraOf? acc ms = some extra) (hacc : (acc.map (·.1)).Nodup) :
    (extra.map (·.1)).Nodup := by
  induction ms generalizing acc with
  | nil =>
    obtain rfl : acc = extra := Option.some.inj h
    exact hacc
  | cons t ms ih =>
    obtain ⟨k, t⟩ := t
    rw [extraOf?] at h
    split at h
    · exact ih h hacc
    · obtain ⟨v, hv, h⟩ := Option.bind_eq_some_iff.mp h
      exact ih h (Members.nodup_keys_insert hacc)

/-- The decoded members of an object are its members. -/
theorem exists_of_mem_members? {members : Members StringLiteral NumberLiteral}
    {ms : List (String × Literals)} (h : Literals.members? (.object members) = some ms) :
    ∀ t ∈ ms, ∃ m ∈ members, m.2 = t.2 := by
  simp only [Literals.members?] at h
  induction members generalizing ms with
  | nil =>
    obtain rfl : [] = ms := by simpa using h
    simp
  | cons m members ih =>
    rw [List.mapM_cons] at h
    obtain ⟨t, ht, h⟩ := Option.bind_eq_some_iff.mp h
    obtain ⟨ms', hms', h⟩ := Option.bind_eq_some_iff.mp h
    obtain rfl : t :: ms' = ms := Option.some.inj h
    intro t' ht'
    rcases List.mem_cons.mp ht' with rfl | ht'
    · obtain ⟨k, -, rfl⟩ := Option.map_eq_some_iff.mp ht
      exact ⟨m, by simp, rfl⟩
    · obtain ⟨m', hm', heq⟩ := ih hms' t' ht'
      exact ⟨m', List.mem_cons_of_mem _ hm', heq⟩

/-- Every policy that was read is tidy. -/
theorem tidy_of_parse? {text : List UInt8} (h : parse? text = some p) : p.Tidy := by
  obtain ⟨doc, hdoc, h⟩ := Option.bind_eq_some_iff.mp h
  have hdepth := Literals.depth_of_parse? hdoc
  obtain ⟨ms, hms, hfields⟩ := Option.bind_eq_some_iff.mp h
  obtain ⟨members, rfl⟩ : ∃ members, doc = .object members := by
    cases doc with
    | object members => exact ⟨members, rfl⟩
    | _ => simp [Literals.members?] at hms
  obtain ⟨extra, hextra, hp⟩ : ∃ extra, extraOf? [] ms = some extra ∧ p.extra = extra := by
    dsimp only at hfields
    split at hfields
    · obtain ⟨zones, -, hfields⟩ := Option.bind_eq_some_iff.mp hfields
      obtain ⟨overrides, -, hfields⟩ := Option.bind_eq_some_iff.mp hfields
      obtain ⟨tools, -, hfields⟩ := Option.bind_eq_some_iff.mp hfields
      obtain ⟨patterns, -, hfields⟩ := Option.bind_eq_some_iff.mp hfields
      obtain ⟨extra, hextra, hfields⟩ := Option.bind_eq_some_iff.mp hfields
      exact ⟨extra, hextra, by rw [← Option.some.inj hfields]⟩
    · simp at hfields
  have hmember : ∀ m ∈ p.extra, m.1 ∉ knownFields ∧
      ∃ t ∈ members, Literals.Denotes t.2 m.2 := fun m hm => by
    rw [hp] at hm
    rcases exists_of_mem_extraOf? hextra m hm with hm | ⟨hk, t, ht, hv⟩
    · simp at hm
    · obtain ⟨t', ht', heq⟩ := exists_of_mem_members? hms t ht
      exact ⟨hk, t', ht', heq ▸ Literals.denotes_of_value? t.2 hv⟩
  refine ⟨fun m hm => (hmember m hm).1, hp ▸ nodup_keys_of_extraOf? hextra (by simp),
    Json.uniqueMemberKeys_iff.mpr fun m hm => ?_, fun n hn => ?_, ?_⟩
  · obtain ⟨-, t, -, hd⟩ := hmember m hm
    exact hd.uniqueKeys
  · obtain ⟨m, hm, hn⟩ := Json.mem_memberNumbers.mp hn
    obtain ⟨-, t, -, hd⟩ := hmember m hm
    exact hd.numbers n hn
  · refine Nat.lt_of_le_of_lt (Tree.membersDepth_le.mpr fun m hm => ?_) hdepth
    obtain ⟨-, t, ht, hd⟩ := hmember m hm
    exact Nat.le_trans hd.depth_le (Tree.membersDepth_le.mp (Nat.le_refl _) t ht)

/-- The policy of a file is tidy, also where the file cannot be read. -/
theorem tidy_ofFile (content : Option (List UInt8)) : (ofFile content).Tidy := by
  cases h : content.bind parse? with
  | none =>
    rw [ofFile, h]
    exact tidy_empty
  | some p =>
    obtain ⟨text, -, hp⟩ := Option.bind_eq_some_iff.mp h
    rw [ofFile, h]
    exact tidy_of_parse? hp

end SecurityPolicy

end DenialMonitor
