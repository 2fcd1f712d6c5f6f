import DenialMonitor.Proofs.Json.Punctuation
import DenialMonitor.Proofs.Json.Spelling

set_option autoImplicit false

/-!
# The text of an object

A text that is read as an object consists of the texts of its members, with commas between them and
braces around them. The key and the value of each member may be written in any way, and white space
may stand anywhere between them. Conversely, members that are put together in this way are read as
the object that has them, so a member may be put between any two others.

## Main definitions

* `MemberText` — the text of a member, with what its key and its value spell.
* `ObjectText` — the text of an object, cut at its members.

## Main results

* `ObjectText.parse?_text` — the text of an object is read as the object.
* `ObjectText.parse?_withMembers` — so is the text with one more member.
* `ObjectText.exists_text_eq` — every text that is read as an object is the text of one.
-/

namespace DenialMonitor

/-- The text of a member, with what its key and its value spell. White space around the key and
around the value belongs to them. -/
structure MemberText where
  key : List UInt8
  value : List UInt8
  name : StringLiteral
  tree : Literals
  tokens_key : tokens? key = some [.string name]
  parse_value : Literals.parse? none value = some tree

namespace MemberText

/-- The key and the value, with a colon between them. -/
def text (m : MemberText) : List UInt8 :=
  m.key ++ 0x3A :: m.value

/-- The member of the object. -/
def literals (m : MemberText) : StringLiteral × Literals :=
  (m.name, m.tree)

theorem tokens_value (m : MemberText) : tokens? m.value = some m.tree.tokens :=
  Literals.tokens?_of_parse? m.parse_value

/-- Further members, each of them behind a comma. -/
def further (ms : List MemberText) : List UInt8 :=
  ms.flatMap fun m => 0x2C :: m.text

/-- The members of an object, with commas between them. -/
def joined : List MemberText → List UInt8
  | [] => []
  | m :: ms => m.text ++ further ms

theorem further_cons (m : MemberText) (ms : List MemberText) :
    further (m :: ms) = 0x2C :: (m.key ++ 0x3A :: (m.value ++ further ms)) := by
  simp [further, text]

end MemberText

/-- The text of an object, cut at its members. What stands around the braces has no tokens, and
neither has what stands behind the first brace, so it is white space. -/
structure ObjectText where
  before : List UInt8
  gap : List UInt8
  members : List MemberText
  after : List UInt8
  tokens_before : tokens? before = some []
  tokens_gap : tokens? gap = some []
  tokens_after : tokens? after = some []

namespace ObjectText

/-- The whole text. -/
def text (o : ObjectText) : List UInt8 :=
  o.before ++ 0x7B :: (o.gap ++ (MemberText.joined o.members ++ 0x7D :: o.after))

/-- The members of the object. -/
def literals (o : ObjectText) : Members StringLiteral NumberLiteral :=
  o.members.map MemberText.literals

/-- The same text with other members. -/
def withMembers (o : ObjectText) (ms : List MemberText) : ObjectText :=
  { o with members := ms }

/-! ## An object is read -/

/-- The tokens of a value and of the further members behind it. -/
theorem tokens?_value_append (m : MemberText) (ms : List MemberText) (c : List UInt8) :
    tokens? (m.value ++ (MemberText.further ms ++ 0x7D :: c)) =
      (tokens? c).map fun ts => m.tree.tokens ++
        (Literals.memberTokens (ms.map MemberText.literals) ++ .closeObject :: ts) := by
  induction ms generalizing m with
  | nil =>
    rw [MemberText.further, List.flatMap_nil, List.nil_append,
      tokens?_append_punctuation m.tokens_value (t := .closeObject) rfl]
    rfl
  | cons m' ms ih =>
    simp only [MemberText.further_cons, List.cons_append, List.append_assoc]
    rw [tokens?_append_punctuation m.tokens_value (t := .comma) rfl,
      tokens?_append_punctuation m'.tokens_key (t := .colon) rfl, ih, Option.map_map,
      Option.map_map]
    simp [Function.comp_def, Literals.memberTokens, MemberText.literals]

/-- The tokens of the text of an object. -/
theorem tokens?_text (o : ObjectText) :
    tokens? o.text = some (Literals.tokens (.object o.literals)) := by
  rw [text, tokens?_append_punctuation o.tokens_before (t := .openObject) rfl,
    tokens?_append_of_eq_nil o.tokens_gap, literals]
  cases o.members with
  | nil =>
    have hclose := tokens?_append_punctuation (rfl : tokens? [] = some []) (t := .closeObject) rfl
      o.after
    rw [List.nil_append] at hclose
    rw [MemberText.joined, List.nil_append, hclose, o.tokens_after]
    rfl
  | cons m ms =>
    rw [MemberText.joined, MemberText.text, List.append_assoc, List.append_assoc, List.cons_append,
      tokens?_append_punctuation m.tokens_key (t := .colon) rfl, tokens?_value_append,
      o.tokens_after]
    simp [Literals.tokens, MemberText.literals]

/-- **The text of an object is read as the object**, as long as it does not nest too deeply. -/
theorem parse?_text {limit : Option Nat} (o : ObjectText)
    (h : Reader.Allowed limit (Tree.membersDepth o.literals + 1)) :
    Literals.parse? limit o.text = some (.object o.literals) :=
  Literals.parse?_of_tokens o.tokens?_text h

/-- What the text of an object is read as, if it is read. -/
theorem eq_of_parse?_text {limit : Option Nat} {o : ObjectText} {doc : Literals}
    (h : Literals.parse? limit o.text = some doc) : doc = .object o.literals := by
  have hdoc := Literals.parse?_of_tokens (Literals.tokens?_of_parse? h) (Reader.allowed_none _)
  rw [o.parse?_text (Reader.allowed_none _)] at hdoc
  exact (Option.some.inj hdoc).symm

/-- One more member does not make an object nest too deeply, unless it does so on its own. -/
theorem parse?_withMembers {n : Nat} {o : ObjectText} {doc : Literals}
    (h : Literals.parse? (some n) o.text = some doc) {ms₁ ms₂ : List MemberText}
    (hms : o.members = ms₁ ++ ms₂) {m : MemberText} (hdepth : m.tree.depth < n) :
    Literals.parse? (some n) (o.withMembers (ms₁ ++ m :: ms₂)).text =
      some (.object (o.withMembers (ms₁ ++ m :: ms₂)).literals) := by
  have hold := Literals.depth_of_parse? h
  rw [eq_of_parse?_text h, Tree.depth, literals, hms, List.map_append] at hold
  refine parse?_text _ fun k hk => ?_
  obtain rfl : n = k := Option.some.inj hk
  refine Nat.succ_le_of_lt (Nat.lt_of_le_of_lt (Tree.membersDepth_le.mpr fun m' hm' => ?_)
    (Nat.max_lt.mpr ⟨Nat.lt_of_succ_le hold, hdepth⟩))
  have hmem : m' ∈ ms₁.map MemberText.literals ++ ms₂.map MemberText.literals ∨
      m' = m.literals := by
    simp only [literals, withMembers, List.map_append, List.map_cons, List.mem_append,
      List.mem_cons] at hm' ⊢
    tauto
  rcases hmem with hmem | rfl
  · exact Nat.le_trans (Tree.membersDepth_le.mp (Nat.le_refl _) m' hmem) (Nat.le_max_left _ _)
  · exact Nat.le_max_right _ _

/-! ## Where an object was read -/

/-- A text with the tokens of a value and of further members is put together from theirs. -/
theorem exists_value_append {ms : Members StringLiteral NumberLiteral} {v : Literals}
    {text : List UInt8}
    (h : tokens? text = some (v.tokens ++ (Literals.memberTokens ms ++ [.closeObject]))) :
    ∃ (value : List UInt8) (further : List MemberText) (after : List UInt8),
      Literals.parse? none value = some v ∧ further.map MemberText.literals = ms ∧
      tokens? after = some [] ∧
      text = value ++ (MemberText.further further ++ 0x7D :: after) := by
  induction ms generalizing v text with
  | nil =>
    obtain ⟨value, after, rfl, hvalue, hafter⟩ :=
      exists_of_tokens?_eq_append _ (t := .closeObject) rfl h
    exact ⟨value, [], after, Literals.parse?_of_tokens hvalue (Reader.allowed_none _), rfl, hafter, rfl⟩
  | cons m ms ih =>
    obtain ⟨k, w⟩ := m
    simp only [Literals.memberTokens, List.cons_append, List.append_assoc] at h
    obtain ⟨value, rest, rfl, hvalue, hrest⟩ := exists_of_tokens?_eq_append _ (t := .comma) rfl h
    obtain ⟨key, rest, rfl, hkey, hrest⟩ :=
      exists_of_tokens?_eq_append [.string k] (t := .colon) rfl hrest
    obtain ⟨value', further, after, hvalue', rfl, hafter, rfl⟩ := ih hrest
    refine ⟨value, ⟨key, value', k, w, hkey, hvalue'⟩ :: further, after,
      Literals.parse?_of_tokens hvalue (Reader.allowed_none _), rfl, hafter, ?_⟩
    simp [MemberText.further_cons]

/-- **Every text that is read as an object is the text of one.** -/
theorem exists_text_eq {limit : Option Nat} {text : List UInt8}
    {ms : Members StringLiteral NumberLiteral}
    (h : Literals.parse? limit text = some (.object ms)) :
    ∃ o : ObjectText, o.text = text ∧ o.literals = ms := by
  have htokens := Literals.tokens?_of_parse? h
  cases ms with
  | nil =>
    obtain ⟨before, rest, rfl, hbefore, hrest⟩ :=
      exists_of_tokens?_eq_append [] (t := .openObject) rfl htokens
    obtain ⟨gap, after, rfl, hgap, hafter⟩ :=
      exists_of_tokens?_eq_append [] (t := .closeObject) rfl hrest
    exact ⟨⟨before, gap, [], after, hbefore, hgap, hafter⟩, rfl, rfl⟩
  | cons m ms =>
    obtain ⟨k, v⟩ := m
    obtain ⟨before, rest, rfl, hbefore, hrest⟩ :=
      exists_of_tokens?_eq_append [] (t := .openObject) rfl htokens
    obtain ⟨key, rest, rfl, hkey, hrest⟩ :=
      exists_of_tokens?_eq_append [.string k] (t := .colon) rfl hrest
    obtain ⟨value, further, after, hvalue, rfl, hafter, rfl⟩ := exists_value_append hrest
    refine ⟨⟨before, [], ⟨key, value, k, v, hkey, hvalue⟩ :: further, after, hbefore, rfl, hafter⟩,
      ?_, rfl⟩
    simp [ObjectText.text, MemberText.joined, MemberText.text]

end ObjectText

end DenialMonitor
