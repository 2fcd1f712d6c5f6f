import DenialMonitor.Proofs.Json.Lexing

set_option autoImplicit false

/-!
# The tree of a list of tokens

The tokens of a tree are read as that tree, as long as it does not nest more deeply than the
caller allows. Conversely, a tree that was read nests no more deeply than that.

## Main definitions

* `Tree.depth` — how deeply a tree nests.
* `Reader.Shallow` — the arrays and objects that are open hold nothing that nests too deeply.

## Main results

* `Reader.foldlM_step_tokens` — the tokens of a tree are read as the tree.
* `Literals.parse?_of_tokens` — a text with the tokens of a tree is read as the tree.
* `Literals.depth_of_parse?` — a tree that was read nests no more deeply than allowed.
-/

namespace DenialMonitor

/-! ## Nesting -/

namespace Tree

variable {σ ν : Type}

mutual

/-- How many arrays and objects are inside each other. -/
def depth : Tree σ ν → Nat
  | .array items => itemsDepth items + 1
  | .object members => membersDepth members + 1
  | _ => 0

/-- How deeply the items of an array nest. -/
def itemsDepth : List (Tree σ ν) → Nat
  | [] => 0
  | v :: vs => max (depth v) (itemsDepth vs)

/-- How deeply the members of an object nest. -/
def membersDepth : Members σ ν → Nat
  | [] => 0
  | (_, v) :: ms => max (depth v) (membersDepth ms)

end

theorem itemsDepth_le {n : Nat} {vs : List (Tree σ ν)} :
    itemsDepth vs ≤ n ↔ ∀ v ∈ vs, v.depth ≤ n := by
  induction vs with
  | nil => simp [itemsDepth]
  | cons v vs ih => rw [itemsDepth, Nat.max_le, ih, List.forall_mem_cons]

theorem membersDepth_le {n : Nat} {ms : Members σ ν} :
    membersDepth ms ≤ n ↔ ∀ m ∈ ms, m.2.depth ≤ n := by
  induction ms with
  | nil => simp [membersDepth]
  | cons m ms ih =>
    obtain ⟨k, v⟩ := m
    rw [membersDepth, Nat.max_le, ih, List.forall_mem_cons]

end Tree

namespace Reader

/-- Whether `n` arrays and objects may be inside each other. -/
def Allowed (limit : Option Nat) (n : Nat) : Prop :=
  ∀ k ∈ limit, n ≤ k

theorem Allowed.mono {limit : Option Nat} {m n : Nat} (h : Allowed limit n) (hle : m ≤ n) :
    Allowed limit m :=
  fun k hk => Nat.le_trans hle (h k hk)

theorem allowed_none (n : Nat) : Allowed none n := by
  rintro k hk
  cases hk

variable {limit : Option Nat} {stack : List Frame}

/-- An array or object may be opened if one more is allowed. -/
theorem enter_of_allowed (h : Allowed limit (stack.length + 1)) (frame : Frame) (expect : Expect) :
    enter limit stack frame expect = some ⟨frame :: stack, expect, none⟩ := by
  cases limit with
  | none => rfl
  | some n => exact if_pos (h n rfl)

/-! ## Reading the tokens of a tree -/

/-- Where a value may come, a token that ends no array begins one. -/
theorem step_eq_startValue (stack : List Frame) {expect : Expect}
    (hexpect : expect = .value ∨ expect = .itemOrEnd) (result : Option Literals) {t : Token}
    (ht : t ≠ .closeArray) : step limit ⟨stack, expect, result⟩ t = startValue limit stack t := by
  rcases hexpect with rfl | rfl
  · rfl
  · unfold step
    split <;> simp_all

section

variable {rest : List Frame} {items : List Literals} {result : Option Literals}
  {members : Members StringLiteral NumberLiteral} {key : StringLiteral} {v : Literals}

theorem complete_array :
    complete (.array items :: rest) v = ⟨.array (v :: items) :: rest, .commaOrEnd, none⟩ :=
  rfl

theorem complete_member :
    complete (.member members key :: rest) v =
      ⟨.object ((key, v) :: members) :: rest, .commaOrEnd, none⟩ :=
  rfl

theorem step_itemComma :
    step limit ⟨.array items :: rest, .commaOrEnd, result⟩ .comma =
      some ⟨.array items :: rest, .value, none⟩ :=
  rfl

theorem step_closeArray :
    step limit ⟨.array items :: rest, .commaOrEnd, result⟩ .closeArray =
      some (complete rest (.array items.reverse)) :=
  rfl

theorem step_memberComma :
    step limit ⟨.object members :: rest, .commaOrEnd, result⟩ .comma =
      some ⟨.object members :: rest, .key, none⟩ :=
  rfl

theorem step_closeObject :
    step limit ⟨.object members :: rest, .commaOrEnd, result⟩ .closeObject =
      some (complete rest (.object members.reverse)) :=
  rfl

theorem step_firstKey :
    step limit ⟨.object members :: rest, .keyOrEnd, result⟩ (.string key) =
      some ⟨.member members key :: rest, .colon, none⟩ :=
  rfl

theorem step_key :
    step limit ⟨.object members :: rest, .key, result⟩ (.string key) =
      some ⟨.member members key :: rest, .colon, none⟩ :=
  rfl

theorem step_colon (stack : List Frame) :
    step limit ⟨stack, .colon, result⟩ .colon = some ⟨stack, .value, none⟩ :=
  rfl

end

mutual

/-- The tokens of a tree are read as the tree, where a value may come. -/
theorem foldlM_step_tokens (t : Literals) (stack : List Frame) {expect : Expect}
    (hexpect : expect = .value ∨ expect = .itemOrEnd) (result : Option Literals)
    (h : Allowed limit (stack.length + t.depth)) :
    (Literals.tokens t).foldlM (step limit) ⟨stack, expect, result⟩ = some (complete stack t) := by
  match t with
  | .null =>
    rw [Literals.tokens, List.foldlM_cons, step_eq_startValue stack hexpect result (by simp)]
    rfl
  | .bool b =>
    rw [Literals.tokens, List.foldlM_cons, step_eq_startValue stack hexpect result (by simp)]
    rfl
  | .number n =>
    rw [Literals.tokens, List.foldlM_cons, step_eq_startValue stack hexpect result (by simp)]
    rfl
  | .string s =>
    rw [Literals.tokens, List.foldlM_cons, step_eq_startValue stack hexpect result (by simp)]
    rfl
  | .array items =>
    have hopen : step limit ⟨stack, expect, result⟩ .openArray =
        some ⟨.array [] :: stack, .itemOrEnd, none⟩ := by
      rw [step_eq_startValue stack hexpect result (by simp)]
      exact enter_of_allowed (h.mono (by simp [Tree.depth])) (.array []) .itemOrEnd
    match items with
    | [] => simp only [Literals.tokens, List.foldlM_cons, hopen]; rfl
    | v :: vs =>
      have hv : Allowed limit ((Frame.array [] :: stack).length + v.depth) :=
        h.mono (by simp [Tree.depth, Tree.itemsDepth]; omega)
      have hvs : Allowed limit (stack.length + 1 + Tree.itemsDepth vs) :=
        h.mono (by simp [Tree.depth, Tree.itemsDepth]; omega)
      simp only [Literals.tokens, List.foldlM_cons, hopen, List.foldlM_append, List.foldlM_nil,
        Option.bind_eq_bind, Option.bind_some,
        foldlM_step_tokens v (.array [] :: stack) (.inr rfl) none hv, complete_array,
        foldlM_step_itemTokens vs stack [v] hvs, step_closeArray]
      simp
  | .object members =>
    have hopen : step limit ⟨stack, expect, result⟩ .openObject =
        some ⟨.object [] :: stack, .keyOrEnd, none⟩ := by
      rw [step_eq_startValue stack hexpect result (by simp)]
      exact enter_of_allowed (h.mono (by simp [Tree.depth])) (.object []) .keyOrEnd
    match members with
    | [] => simp only [Literals.tokens, List.foldlM_cons, hopen]; rfl
    | (k, v) :: ms =>
      have hv : Allowed limit ((Frame.member [] k :: stack).length + v.depth) :=
        h.mono (by simp [Tree.depth, Tree.membersDepth]; omega)
      have hms : Allowed limit (stack.length + 1 + Tree.membersDepth ms) :=
        h.mono (by simp [Tree.depth, Tree.membersDepth]; omega)
      simp only [Literals.tokens, List.foldlM_cons, hopen, List.foldlM_append, List.foldlM_nil,
        Option.bind_eq_bind, Option.bind_some, step_firstKey, step_colon,
        foldlM_step_tokens v (.member [] k :: stack) (.inl rfl) none hv, complete_member,
        foldlM_step_memberTokens ms stack [(k, v)] hms, step_closeObject]
      simp

/-- The tokens of further items go into the open array. -/
theorem foldlM_step_itemTokens (vs : List Literals) (stack : List Frame) (items : List Literals)
    (h : Allowed limit (stack.length + 1 + Tree.itemsDepth vs)) :
    (Literals.itemTokens vs).foldlM (step limit) ⟨.array items :: stack, .commaOrEnd, none⟩ =
      some ⟨.array (vs.reverse ++ items) :: stack, .commaOrEnd, none⟩ := by
  match vs with
  | [] => rfl
  | v :: vs =>
    have hv : Allowed limit ((Frame.array items :: stack).length + v.depth) :=
      h.mono (by simp only [Tree.itemsDepth, List.length_cons]; omega)
    have hvs : Allowed limit (stack.length + 1 + Tree.itemsDepth vs) :=
      h.mono (by simp only [Tree.itemsDepth]; omega)
    simp only [Literals.itemTokens, List.foldlM_cons, List.foldlM_append, Option.bind_eq_bind,
      Option.bind_some, step_itemComma,
      foldlM_step_tokens v (.array items :: stack) (.inl rfl) none hv, complete_array,
      foldlM_step_itemTokens vs stack (v :: items) hvs]
    simp

/-- The tokens of further members go into the open object. -/
theorem foldlM_step_memberTokens (ms : Members StringLiteral NumberLiteral) (stack : List Frame)
    (members : Members StringLiteral NumberLiteral)
    (h : Allowed limit (stack.length + 1 + Tree.membersDepth ms)) :
    (Literals.memberTokens ms).foldlM (step limit) ⟨.object members :: stack, .commaOrEnd, none⟩ =
      some ⟨.object (ms.reverse ++ members) :: stack, .commaOrEnd, none⟩ := by
  match ms with
  | [] => rfl
  | (k, v) :: ms =>
    have hv : Allowed limit ((Frame.member members k :: stack).length + v.depth) :=
      h.mono (by simp only [Tree.membersDepth, List.length_cons]; omega)
    have hms : Allowed limit (stack.length + 1 + Tree.membersDepth ms) :=
      h.mono (by simp only [Tree.membersDepth]; omega)
    simp only [Literals.memberTokens, List.foldlM_cons, List.foldlM_append, Option.bind_eq_bind,
      Option.bind_some, step_memberComma, step_key, step_colon,
      foldlM_step_tokens v (.member members k :: stack) (.inl rfl) none hv, complete_member,
      foldlM_step_memberTokens ms stack ((k, v) :: members) hms]
    simp

end

/-! ## The nesting of a tree that was read -/

/-- The trees that an open array or object holds so far. -/
def Frame.trees : Frame → List Literals
  | .array items => items
  | .object members => members.map (·.2)
  | .member members _ => members.map (·.2)

/-- The arrays and objects that are open are at most `n`, and hold no tree with which there would
be more than `n` inside each other. -/
def Shallow (n : Nat) : List Frame → Prop
  | [] => True
  | frame :: rest =>
    rest.length + 1 ≤ n ∧ (∀ v ∈ frame.trees, rest.length + 1 + v.depth ≤ n) ∧ Shallow n rest

/-- What the machine has read so far nests at most `n` deep. -/
def State.Shallow (n : Nat) (s : State) : Prop :=
  Reader.Shallow n s.stack ∧ ∀ v ∈ s.result, v.depth ≤ n

variable {n : Nat}

/-- A complete value that fits in its place leaves everything shallow. -/
theorem shallow_complete {stack : List Frame} (h : Shallow n stack) {v : Literals}
    (hv : stack.length + v.depth ≤ n) : (complete stack v).Shallow n := by
  have hresult : v.depth ≤ n := by omega
  match stack, h with
  | [], h => exact ⟨h, by simpa [complete] using hresult⟩
  | .array items :: rest, ⟨hlength, htrees, hrest⟩ =>
    refine ⟨⟨hlength, ?_, hrest⟩, by simp [complete]⟩
    exact List.forall_mem_cons.mpr ⟨hv, htrees⟩
  | .member members key :: rest, ⟨hlength, htrees, hrest⟩ =>
    refine ⟨⟨hlength, ?_, hrest⟩, by simp [complete]⟩
    exact List.forall_mem_cons.mpr ⟨hv, htrees⟩
  | .object members :: rest, h => exact ⟨h, by simpa [complete] using hresult⟩

/-- A closed array or object fits where it was opened. -/
theorem depth_closeArray {rest : List Frame} {items : List Literals}
    (h : Shallow n (.array items :: rest)) :
    rest.length + (Tree.array items.reverse : Literals).depth ≤ n := by
  obtain ⟨hlength, htrees, -⟩ := h
  have hitems : Tree.itemsDepth items.reverse ≤ n - (rest.length + 1) :=
    Tree.itemsDepth_le.mpr fun v hv => by
      have := htrees v (List.mem_reverse.mp hv)
      omega
  simp only [Tree.depth]
  omega

theorem depth_closeObject {rest : List Frame} {members : Members StringLiteral NumberLiteral}
    (h : Shallow n (.object members :: rest)) :
    rest.length + (Tree.object members.reverse : Literals).depth ≤ n := by
  obtain ⟨hlength, htrees, -⟩ := h
  have hmembers : Tree.membersDepth members.reverse ≤ n - (rest.length + 1) :=
    Tree.membersDepth_le.mpr fun m hm => by
      have := htrees m.2 (List.mem_map_of_mem (List.mem_reverse.mp hm))
      omega
  simp only [Tree.depth]
  omega

theorem shallow_startValue {stack : List Frame} (h : Shallow n stack) (hlength : stack.length ≤ n)
    {t : Token} {s : State} (hs : startValue (some n) stack t = some s) : s.Shallow n := by
  have hopen (frame : Frame) (expect : Expect) (hframe : frame.trees = [])
      (hs : enter (some n) stack frame expect = some s) : s.Shallow n := by
    simp only [enter] at hs
    split at hs
    · next hlt =>
      obtain rfl := Option.some.inj hs
      exact ⟨⟨hlt, by simp [hframe], h⟩, by simp⟩
    · exact absurd hs (by simp)
  cases t <;> simp only [startValue, Option.some.injEq, reduceCtorEq] at hs
  case openArray => exact hopen _ _ rfl hs
  case openObject => exact hopen _ _ rfl hs
  all_goals
    subst hs
    exact shallow_complete h (by simpa [Tree.depth] using hlength)

theorem length_le_of_shallow {stack : List Frame} (h : Shallow n stack) : stack.length ≤ n := by
  cases stack with
  | nil => simp
  | cons frame rest => exact h.1

/-- Every token leaves everything shallow. -/
theorem shallow_step {s s' : State} {t : Token} (h : s.Shallow n)
    (hs : step (some n) s t = some s') : s'.Shallow n := by
  obtain ⟨stack, expect, result⟩ := s
  have hstack : Shallow n stack := h.1
  have hlength := length_le_of_shallow hstack
  unfold step at hs
  split at hs <;> dsimp only at * <;> subst_vars
  · exact shallow_startValue hstack hlength hs
  · obtain rfl := Option.some.inj hs
    exact shallow_complete hstack.2.2 (depth_closeArray hstack)
  · exact shallow_startValue hstack hlength hs
  · obtain rfl := Option.some.inj hs
    exact shallow_complete hstack.2.2 (depth_closeObject hstack)
  all_goals
    first
    | obtain rfl := Option.some.inj hs
    | exact absurd hs (by simp)
  · exact ⟨hstack, by simp⟩
  · exact ⟨hstack, by simp⟩
  · exact ⟨hstack, by simp⟩
  · exact ⟨hstack, by simp⟩
  · exact shallow_complete hstack.2.2 (depth_closeArray hstack)
  · exact ⟨hstack, by simp⟩
  · exact shallow_complete hstack.2.2 (depth_closeObject hstack)

/-- A list of tokens leaves everything shallow. -/
theorem shallow_foldlM_step {ts : List Token} {s s' : State} (h : s.Shallow n)
    (hs : ts.foldlM (step (some n)) s = some s') : s'.Shallow n := by
  induction ts generalizing s with
  | nil =>
    obtain rfl := Option.some.inj hs
    exact h
  | cons t ts ih =>
    rw [List.foldlM_cons] at hs
    obtain ⟨s₁, hstep, hrest⟩ := Option.bind_eq_some_iff.mp hs
    exact ih (shallow_step h hstep) hrest

end Reader

namespace Literals

/-- A tree that was read nests no more deeply than allowed. -/
theorem depth_of_parse? {n : Nat} {text : List UInt8} {t : Literals}
    (h : parse? (some n) text = some t) : t.depth ≤ n := by
  obtain ⟨ts, -, h⟩ := Option.bind_eq_some_iff.mp h
  obtain ⟨s, hs, ht⟩ := Option.bind_eq_some_iff.mp h
  have hinit : Reader.State.init.Shallow n := ⟨trivial, by simp [Reader.State.init]⟩
  exact (Reader.shallow_foldlM_step hinit hs).2 t ht

/-- A text with the tokens of a tree is read as the tree. -/
theorem parse?_of_tokens {limit : Option Nat} {text : List UInt8} {t : Literals}
    (htokens : tokens? text = some t.tokens) (hdepth : Reader.Allowed limit t.depth) :
    parse? limit text = some t := by
  have hread : t.tokens.foldlM (Reader.step limit) ⟨[], .value, none⟩ = some (Reader.complete [] t) :=
    Reader.foldlM_step_tokens t [] (.inl rfl) none (by simpa using hdepth)
  simp only [parse?, htokens, Reader.State.init, Option.bind_eq_bind, Option.bind_some, hread]
  rfl

end Literals

end DenialMonitor
