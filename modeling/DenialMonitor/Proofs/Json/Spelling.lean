import DenialMonitor.Proofs.Json.Reading

set_option autoImplicit false

/-!
# The tokens of a tree that was read

A list of tokens that is read as a tree is the list of the tree's tokens, so a text has no other
tokens than those of its tree. While tokens are read, those read so far can be told from the arrays
and objects that are open: each open bracket comes with the values that are complete, each of them
with the comma behind it, and with the key for which a value is to come.

## Main definitions

* `Reader.lead` — the tokens that lead into the arrays and objects that are open.
* `Reader.Consumed` — the tokens that have been read in a state of the machine.

## Main results

* `Reader.Consumed.step`, `Reader.Consumed.foldlM` — further tokens come behind those read so far.
* `Literals.tokens?_of_parse?` — the tokens of a text that was read are those of its tree.
-/

namespace DenialMonitor

/-! ## Values with the commas behind them -/

namespace Literals

/-- The tokens of the items of an array, each with the comma behind it. -/
def itemsLead (vs : List Literals) : List Token :=
  vs.flatMap fun v => tokens v ++ [.comma]

/-- The tokens of the members of an object, each with the comma behind it. -/
def membersLead (ms : Members StringLiteral NumberLiteral) : List Token :=
  ms.flatMap fun m => .string m.1 :: .colon :: (tokens m.2 ++ [.comma])

/-- The commas between items stand behind all of them but the last one. -/
theorem tokens_append_itemTokens (v : Literals) (vs : List Literals) (w : Literals) :
    tokens v ++ itemTokens (vs ++ [w]) = itemsLead (v :: vs) ++ tokens w := by
  induction vs generalizing v with
  | nil => simp [itemTokens, itemsLead]
  | cons u vs ih =>
    rw [List.cons_append, itemTokens, ih u, itemsLead, itemsLead, List.flatMap_cons]
    simp

theorem tokens_array_append (vs : List Literals) (w : Literals) :
    tokens (.array (vs ++ [w])) = .openArray :: (itemsLead vs ++ tokens w ++ [.closeArray]) := by
  cases vs with
  | nil => simp [tokens, itemTokens, itemsLead]
  | cons v vs =>
    rw [List.cons_append, tokens, ← List.append_assoc, tokens_append_itemTokens]

/-- The commas between members stand behind all of them but the last one. -/
theorem tokens_append_memberTokens (k : StringLiteral) (v : Literals)
    (ms : Members StringLiteral NumberLiteral) (k' : StringLiteral) (w : Literals) :
    .string k :: .colon :: (tokens v ++ memberTokens (ms ++ [(k', w)])) =
      membersLead ((k, v) :: ms) ++ .string k' :: .colon :: tokens w := by
  induction ms generalizing k v with
  | nil => simp [memberTokens, membersLead]
  | cons m ms ih =>
    obtain ⟨k₁, v₁⟩ := m
    rw [List.cons_append, memberTokens, ih k₁ v₁, membersLead, membersLead, List.flatMap_cons]
    simp

theorem tokens_object_append (ms : Members StringLiteral NumberLiteral) (k : StringLiteral)
    (w : Literals) :
    tokens (.object (ms ++ [(k, w)])) =
      .openObject :: (membersLead ms ++ .string k :: .colon :: (tokens w ++ [.closeObject])) := by
  cases ms with
  | nil => simp [tokens, memberTokens, membersLead]
  | cons m ms =>
    obtain ⟨k₁, v₁⟩ := m
    have h := congrArg (· ++ [Token.closeObject]) (tokens_append_memberTokens k₁ v₁ ms k w)
    simpa [tokens] using h

end Literals

namespace Reader

/-! ## The tokens that have been read -/

/-- The tokens that lead into the arrays and objects that are open. -/
def lead : List Frame → List Token
  | [] => []
  | .array items :: rest => lead rest ++ .openArray :: Literals.itemsLead items.reverse
  | .object members :: rest => lead rest ++ .openObject :: Literals.membersLead members.reverse
  | .member members key :: rest =>
    lead rest ++ .openObject :: (Literals.membersLead members.reverse ++ [.string key, .colon])

/-- In each array and object that is open a value may come. -/
def Awaits (stack : List Frame) : Prop :=
  ∀ members, .object members ∉ stack

/-- The tokens that have been read in a state of the machine. -/
inductive Consumed : State → List Token → Prop where
  | value {stack : List Frame} (h : Awaits stack) : Consumed ⟨stack, .value, none⟩ (lead stack)
  | itemOrEnd {rest : List Frame} (h : Awaits rest) :
    Consumed ⟨.array [] :: rest, .itemOrEnd, none⟩ (lead (.array [] :: rest))
  | keyOrEnd {rest : List Frame} (h : Awaits rest) :
    Consumed ⟨.object [] :: rest, .keyOrEnd, none⟩ (lead (.object [] :: rest))
  | key {members : Members StringLiteral NumberLiteral} {rest : List Frame} (h : Awaits rest) :
    Consumed ⟨.object members :: rest, .key, none⟩ (lead (.object members :: rest))
  | colon {members : Members StringLiteral NumberLiteral} {key : StringLiteral}
    {rest : List Frame} (h : Awaits rest) :
    Consumed ⟨.member members key :: rest, .colon, none⟩
      (lead (.object members :: rest) ++ [.string key])
  | item {items : List Literals} {v : Literals} {rest : List Frame} (h : Awaits rest) :
    Consumed ⟨.array (v :: items) :: rest, .commaOrEnd, none⟩
      (lead (.array items :: rest) ++ Literals.tokens v)
  | member {members : Members StringLiteral NumberLiteral} {key : StringLiteral} {v : Literals}
    {rest : List Frame} (h : Awaits rest) :
    Consumed ⟨.object ((key, v) :: members) :: rest, .commaOrEnd, none⟩
      (lead (.member members key :: rest) ++ Literals.tokens v)
  | nothing {v : Literals} : Consumed ⟨[], .nothing, some v⟩ (Literals.tokens v)

variable {limit : Option Nat} {stack rest : List Frame} {s s' : State} {ts us : List Token}
  {t : Token}

theorem awaits_nil : Awaits [] := by
  simp [Awaits]

theorem Awaits.array (h : Awaits rest) (items : List Literals) : Awaits (.array items :: rest) := by
  simpa [Awaits] using h

theorem Awaits.member (h : Awaits rest) (members : Members StringLiteral NumberLiteral)
    (key : StringLiteral) : Awaits (.member members key :: rest) := by
  simpa [Awaits] using h

/-- A complete value comes behind what leads to it. -/
theorem consumed_complete (h : Awaits stack) (v : Literals) :
    Consumed (complete stack v) (lead stack ++ Literals.tokens v) := by
  match stack with
  | [] => exact .nothing
  | .array items :: rest => exact .item fun members hm => h members (List.mem_cons_of_mem _ hm)
  | .member members key :: rest =>
    exact .member fun members hm => h members (List.mem_cons_of_mem _ hm)
  | .object members :: rest => exact absurd List.mem_cons_self (h members)

/-- The first token of a value comes behind what leads to the value. -/
theorem consumed_startValue (h : Awaits stack) (hs : startValue limit stack t = some s) :
    Consumed s (lead stack ++ [t]) := by
  have hopen (frame : Frame) (expect : Expect)
      (hs : enter limit stack frame expect = some s) : s = ⟨frame :: stack, expect, none⟩ := by
    simp only [enter] at hs
    split at hs
    · exact (Option.some.inj hs).symm
    · split at hs
      · exact (Option.some.inj hs).symm
      · simp at hs
  cases t <;> simp only [startValue, Option.some.injEq, reduceCtorEq] at hs
  case openArray =>
    rw [hopen _ _ hs]
    exact .itemOrEnd h
  case openObject =>
    rw [hopen _ _ hs]
    exact .keyOrEnd h
  all_goals
    subst hs
    exact consumed_complete h _

/-- A further token comes behind those that have been read. -/
theorem Consumed.step (h : Consumed s ts) (hs : Reader.step limit s t = some s') :
    Consumed s' (ts ++ [t]) := by
  cases h with
  | value h => exact consumed_startValue h hs
  | @itemOrEnd rest h =>
    by_cases ht : t = .closeArray
    · subst ht
      obtain rfl := Option.some.inj hs
      have := consumed_complete h (.array [])
      simpa [lead, Literals.itemsLead, Literals.tokens] using this
    · rw [step_eq_startValue _ (.inr rfl) none ht] at hs
      exact consumed_startValue (h.array []) hs
  | @keyOrEnd rest h =>
    cases t <;> simp only [Reader.step, reduceCtorEq, Option.some.injEq] at hs
    case closeObject =>
      subst hs
      have := consumed_complete h (.object [])
      simpa [lead, Literals.membersLead, Literals.tokens] using this
    case string key =>
      subst hs
      exact .colon h
  | key h =>
    cases t <;> simp only [Reader.step, reduceCtorEq, Option.some.injEq] at hs
    case string key =>
      subst hs
      exact .colon h
  | @colon members key rest h =>
    cases t <;> simp only [Reader.step, reduceCtorEq, Option.some.injEq] at hs
    case colon =>
      subst hs
      have := Consumed.value (h.member members key)
      simpa [lead] using this
  | @item items v rest h =>
    cases t <;> simp only [Reader.step, reduceCtorEq, Option.some.injEq] at hs
    case comma =>
      subst hs
      have := Consumed.value (h.array (v :: items))
      simpa [lead, Literals.itemsLead] using this
    case closeArray =>
      subst hs
      have := consumed_complete h (.array (v :: items).reverse)
      rw [List.reverse_cons, Literals.tokens_array_append] at this
      simpa [lead] using this
  | @member members key v rest h =>
    cases t <;> simp only [Reader.step, reduceCtorEq, Option.some.injEq] at hs
    case comma =>
      subst hs
      have : Consumed ⟨.object ((key, v) :: members) :: rest, .key, none⟩ _ := .key h
      simpa [lead, Literals.membersLead] using this
    case closeObject =>
      subst hs
      have := consumed_complete h (.object ((key, v) :: members).reverse)
      rw [List.reverse_cons, Literals.tokens_object_append] at this
      simpa [lead] using this
  | nothing => simp [Reader.step] at hs

/-- Further tokens come behind those that have been read. -/
theorem Consumed.foldlM (h : Consumed s ts) (hs : us.foldlM (Reader.step limit) s = some s') :
    Consumed s' (ts ++ us) := by
  induction us generalizing s ts with
  | nil =>
    obtain rfl := Option.some.inj hs
    simpa using h
  | cons u us ih =>
    rw [List.foldlM_cons] at hs
    obtain ⟨s₁, hstep, hrest⟩ := Option.bind_eq_some_iff.mp hs
    simpa using ih (h.step hstep) hrest

/-- Where a document is complete, its tokens have been read. -/
theorem Consumed.eq_tokens (h : Consumed s ts) {v : Literals} (hv : s.result = some v) :
    ts = v.tokens := by
  cases h <;> simp_all

end Reader

/-- The tokens of a text that was read are those of its tree. -/
theorem Literals.tokens?_of_parse? {limit : Option Nat} {text : List UInt8} {v : Literals}
    (h : parse? limit text = some v) : tokens? text = some v.tokens := by
  obtain ⟨ts, hts, h⟩ := Option.bind_eq_some_iff.mp h
  obtain ⟨s, hs, hv⟩ := Option.bind_eq_some_iff.mp h
  have hread := (Reader.Consumed.value Reader.awaits_nil).foldlM hs
  rw [hts, ← hread.eq_tokens hv]
  rfl

end DenialMonitor
