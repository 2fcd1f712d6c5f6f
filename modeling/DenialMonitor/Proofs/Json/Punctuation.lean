import DenialMonitor.Json.Lexer
import Mathlib.Data.List.Basic

set_option autoImplicit false

/-!
# Texts cut at their punctuation

Brackets, braces, colons and commas are tokens of one byte, and each of them ends whatever was read
before it, so a text can be cut at them: what stands before such a byte and what stands behind it
are cut into tokens apart. Conversely, where one of these tokens stands among the tokens of a text,
the text has its byte with the tokens before it on one side and the tokens behind it on the other.
Nothing of this holds of the same byte within a string, where it is no token.

## Main definitions

* `Token.byte?` — the byte that a punctuation token consists of.
* `Lexer.tokensFrom` — the tokens of a text that goes on with a lexeme.
* `Lexer.Reads` — what the machine may come to with one byte.

## Main results

* `Lexer.reads_of_step` — what the machine may read with one byte.
* `tokens?_append_punctuation` — the tokens of a text that has punctuation between two parts.
* `exists_of_tokens?_eq_append` — where a punctuation token comes from.
-/

namespace DenialMonitor

/-- The byte that a punctuation token consists of. -/
def Token.byte? : Token → Option UInt8
  | .openArray => some 0x5B
  | .closeArray => some 0x5D
  | .openObject => some 0x7B
  | .closeObject => some 0x7D
  | .colon => some 0x3A
  | .comma => some 0x2C
  | _ => none

namespace Lexer

variable {b : UInt8} {l : Lexeme} {t : Token} {s : State} {ts ts' : List Token}
  {text a c : List UInt8}

/-! ## The first byte of a token -/

/-- A lexeme in which a word may be open only for a token that is no punctuation. -/
def Lexeme.Regular : Lexeme → Prop
  | .word _ _ token => token.byte? = none
  | _ => True

theorem startToken_of_byte? (h : t.byte? = some b) (read : List Token) :
    startToken read b = some ⟨t :: read, .gap⟩ := by
  cases t <;> cases h <;> rfl

/-- A byte that is no punctuation leaves the tokens alone, and may leave a lexeme open. -/
theorem exists_startToken_eq (h : ∀ t : Token, t.byte? ≠ some b) :
    ∃ l : Option Lexeme, (∀ x ∈ l, x.Regular) ∧
      ∀ read, startToken read b = l.map fun x => ⟨read, x⟩ := by
  have hne : b ≠ 0x5B ∧ b ≠ 0x5D ∧ b ≠ 0x7B ∧ b ≠ 0x7D ∧ b ≠ 0x3A ∧ b ≠ 0x2C := by
    refine ⟨?_, ?_, ?_, ?_, ?_, ?_⟩ <;> rintro rfl
    exacts [h .openArray rfl, h .closeArray rfl, h .openObject rfl, h .closeObject rfl,
      h .colon rfl, h .comma rfl]
  simp only [startToken, hne, if_false]
  by_cases hspace : isSpace b
  · exact ⟨some .gap, by simp [Lexeme.Regular], fun read => by simp [hspace]⟩
  by_cases hquote : b = 0x22
  · subst hquote
    exact ⟨some (.string []), by simp [Lexeme.Regular], fun read => rfl⟩
  by_cases hnull : b = 0x6E
  · subst hnull
    exact ⟨some (.word 0x75 [0x6C, 0x6C] .null), by simp [Lexeme.Regular, Token.byte?],
      fun read => rfl⟩
  by_cases htrue : b = 0x74
  · subst htrue
    exact ⟨some (.word 0x72 [0x75, 0x65] (.bool true)), by simp [Lexeme.Regular, Token.byte?],
      fun read => rfl⟩
  by_cases hfalse : b = 0x66
  · subst hfalse
    exact ⟨some (.word 0x61 [0x6C, 0x73, 0x65] (.bool false)),
      by simp [Lexeme.Regular, Token.byte?], fun read => rfl⟩
  by_cases hminus : b = 0x2D
  · subst hminus
    exact ⟨some (.number .sign ⟨true, [], [], none⟩), by simp [Lexeme.Regular], fun read => rfl⟩
  · refine ⟨(digit? b).map (startNumber false), ?_, fun read => ?_⟩
    · intro x hx
      obtain ⟨d, -, rfl⟩ := Option.map_eq_some_iff.mp hx
      exact trivial
    · simp [hspace, hquote, hnull, htrue, hfalse, hminus, Function.comp_def]

/-! ## The tokens read before -/

/-- The state after the tokens `read` had been read first, latest first. -/
def State.behind (s : State) (read : List Token) : State :=
  ⟨s.read ++ read, s.lexeme⟩

/-- The tokens read before do not matter to what is read next. -/
theorem startToken_eq (read : List Token) (b : UInt8) :
    startToken read b = (startToken [] b).map (·.behind read) := by
  by_cases h : ∃ t : Token, t.byte? = some b
  · obtain ⟨t, ht⟩ := h
    rw [startToken_of_byte? ht, startToken_of_byte? ht]
    rfl
  · obtain ⟨l, -, hl⟩ := exists_startToken_eq (not_exists.mp h)
    rw [hl, hl, Option.map_map]
    rfl

theorem step_eq (read : List Token) (l : Lexeme) (b : UInt8) :
    step ⟨read, l⟩ b = (step ⟨[], l⟩ b).map (·.behind read) := by
  cases l with
  | gap => exact startToken_eq read b
  | word next rest token =>
    simp only [step]
    split_ifs
    · rfl
    · cases rest <;> simp [State.behind]
  | string pieces =>
    simp only [step]
    split_ifs <;> simp [State.behind]
  | escape pieces =>
    simp only [step]
    split_ifs
    · simp [State.behind]
    · simp [State.behind, Function.comp_def]
  | unit pieces value missing =>
    simp only [step, Option.map_map]
    cases missing <;> simp [Function.comp_def, State.behind]
  | number stage literal =>
    simp only [step]
    cases continueNumber stage literal b with
    | some lexeme => simp [State.behind]
    | none =>
      dsimp only
      split_ifs
      · rw [startToken_eq (finishNumber literal :: read), startToken_eq [finishNumber literal],
          Option.map_map]
        simp [Function.comp_def, State.behind]
      · rfl

theorem finish_behind (s : State) (read : List Token) :
    (s.behind read).finish = s.finish.map (read.reverse ++ ·) := by
  obtain ⟨ts, l⟩ := s
  cases l <;> simp [State.finish, State.behind]

theorem foldlM_step_behind (s : State) (read : List Token) (text : List UInt8) :
    text.foldlM step (s.behind read) = (text.foldlM step s).map (·.behind read) := by
  induction text generalizing s with
  | nil => rfl
  | cons b text ih =>
    have hstep : step (s.behind read) b = (step s b).map (·.behind read) := by
      rw [State.behind, step_eq, step_eq s.read, Option.map_map]
      simp [Function.comp_def, State.behind]
    rw [List.foldlM_cons, List.foldlM_cons, hstep]
    cases step s b with
    | none => rfl
    | some s' => exact ih s'

/-! ## The tokens of a text that goes on with a lexeme -/

/-- The tokens of a text that goes on with the lexeme `l`. -/
def tokensFrom (l : Lexeme) (text : List UInt8) : Option (List Token) :=
  (text.foldlM step ⟨[], l⟩).bind State.finish

theorem tokensFrom_gap (text : List UInt8) : tokensFrom .gap text = tokens? text :=
  rfl

/-- A byte comes to the tokens that are read with it, and to the lexeme that it leaves open. -/
theorem tokensFrom_cons (l : Lexeme) (b : UInt8) (text : List UInt8) :
    tokensFrom l (b :: text) = (step ⟨[], l⟩ b).bind fun s =>
      (tokensFrom s.lexeme text).map (s.read.reverse ++ ·) := by
  rw [tokensFrom, List.foldlM_cons]
  cases step ⟨[], l⟩ b with
  | none => rfl
  | some s =>
    have hs : s = State.behind ⟨[], s.lexeme⟩ s.read := rfl
    simp only [Option.bind_eq_bind, Option.bind_some]
    rw [hs, foldlM_step_behind, tokensFrom, Option.bind_map, Option.map_bind]
    simp only [Function.comp_def, finish_behind]
    rfl

/-- What ends with a lexeme is at most one token, and it is no punctuation. -/
theorem byte?_of_finish (h : State.finish ⟨[], l⟩ = some ts) : ∀ t ∈ ts, t.byte? = none := by
  cases l <;> simp [State.finish] at h
  case gap => simp [h]
  case number stage literal => simp [← h.2, finishNumber, Token.byte?]

/-- A number that goes on is a number. -/
theorem exists_of_continueNumber {stage : NumberStage} {literal : NumberLiteral}
    (h : continueNumber stage literal b = some l) :
    ∃ stage' literal', l = .number stage' literal' := by
  cases stage <;> cases hd : digit? b <;>
    simp only [continueNumber, startNumber, hd, Option.map_none, Option.map_some] at h <;> grind

/-- What the machine may come to with byte `b` from the lexeme `l`. -/
inductive Reads (l : Lexeme) (b : UInt8) : State → Prop where
  /-- Nothing, or a token that is no punctuation. -/
  | plain {s : State} (hlexeme : s.lexeme.Regular) (hread : ∀ t ∈ s.read, t.byte? = none) :
    Reads l b s
  /-- A punctuation token, behind what ends with it. -/
  | punctuation {ts : List Token} {t : Token} (hfinish : State.finish ⟨[], l⟩ = some ts)
    (hb : t.byte? = some b) : Reads l b ⟨t :: ts.reverse, .gap⟩

/-- A byte that starts a token behind what ends with it. -/
theorem reads_of_startToken {read : List Token} (hread : ∀ t ∈ read, t.byte? = none)
    (hfinish : State.finish ⟨[], l⟩ = some read.reverse) (h : startToken read b = some s) :
    Reads l b s := by
  by_cases hb : ∃ t : Token, t.byte? = some b
  · obtain ⟨t, ht⟩ := hb
    rw [startToken_of_byte? ht] at h
    obtain rfl := Option.some.inj h
    rw [← List.reverse_reverse read]
    exact .punctuation hfinish ht
  · obtain ⟨x, hx, heq⟩ := exists_startToken_eq (not_exists.mp hb)
    rw [heq] at h
    obtain ⟨l', hl', rfl⟩ := Option.map_eq_some_iff.mp h
    exact .plain (hx l' hl') hread

/-- What the machine may come to with one byte. -/
theorem reads_of_step (hl : l.Regular) (h : step ⟨[], l⟩ b = some s) : Reads l b s := by
  cases l with
  | gap => exact reads_of_startToken (by simp) rfl h
  | word next rest token =>
    have htoken : token.byte? = none := hl
    simp only [step] at h
    split_ifs at h
    cases rest with
    | nil =>
      obtain rfl := Option.some.inj h
      exact .plain trivial (by simpa using htoken)
    | cons c rest =>
      obtain rfl := Option.some.inj h
      exact .plain hl (by simp)
  | string pieces =>
    simp only [step] at h
    split_ifs at h <;> obtain rfl := Option.some.inj h
    · exact .plain trivial (by simp [Token.byte?])
    · exact .plain trivial (by simp)
    · exact .plain trivial (by simp)
  | escape pieces =>
    simp only [step] at h
    split_ifs at h
    · obtain rfl := Option.some.inj h
      exact .plain trivial (by simp)
    · obtain ⟨c, -, rfl⟩ := Option.map_eq_some_iff.mp h
      exact .plain trivial (by simp)
  | unit pieces value missing =>
    obtain ⟨d, -, rfl⟩ := Option.map_eq_some_iff.mp h
    cases missing with
    | zero => exact .plain trivial (by simp)
    | succ n => exact .plain trivial (by simp)
  | number stage literal =>
    simp only [step] at h
    cases hgo : continueNumber stage literal b with
    | some lexeme =>
      rw [hgo] at h
      obtain rfl := Option.some.inj h
      obtain ⟨stage', literal', rfl⟩ := exists_of_continueNumber hgo
      exact .plain trivial (by simp)
    | none =>
      rw [hgo] at h
      dsimp only at h
      split_ifs at h with hend
      refine reads_of_startToken (by simp [finishNumber, Token.byte?]) ?_ h
      simp [State.finish, hend.1]

/-! ## Cutting a text -/

/-- A punctuation byte ends what was read before it. -/
theorem step_of_byte? (hfinish : State.finish ⟨[], l⟩ = some ts) (hb : t.byte? = some b) :
    step ⟨[], l⟩ b = some ⟨t :: ts.reverse, .gap⟩ := by
  cases l <;> simp only [State.finish, reduceCtorEq] at hfinish
  case gap =>
    obtain rfl := Option.some.inj hfinish
    exact startToken_of_byte? hb []
  case number stage literal =>
    split_ifs at hfinish with hstage
    obtain rfl := Option.some.inj hfinish
    have hend : continueNumber stage literal b = none ∧ (digit? b).isNone := by
      cases t <;> cases hb <;> cases stage <;> exact ⟨rfl, rfl⟩
    simp only [step, hend, hstage, and_self, if_true, startToken_of_byte? hb]
    simp

/-- The tokens of a text that has punctuation between two parts are those of the parts, with the
punctuation between them. -/
theorem tokensFrom_append (ha : tokensFrom l a = some ts) (hb : t.byte? = some b)
    (c : List UInt8) : tokensFrom l (a ++ b :: c) = (tokens? c).map (ts ++ t :: ·) := by
  induction a generalizing l ts with
  | nil =>
    rw [List.nil_append, tokensFrom_cons, step_of_byte? ha hb]
    simp [tokensFrom_gap]
  | cons b' a ih =>
    rw [tokensFrom_cons] at ha
    obtain ⟨s, hs, ha⟩ := Option.bind_eq_some_iff.mp ha
    obtain ⟨ts', hts', rfl⟩ := Option.map_eq_some_iff.mp ha
    rw [List.cons_append, tokensFrom_cons, hs, Option.bind_some, ih hts', Option.map_map]
    simp [Function.comp_def]

/-- Punctuation is not found among tokens of which none is punctuation. -/
theorem exists_rest_of_byte? {us vs : List Token} (hus : ∀ t ∈ us, t.byte? = none)
    (ht : t.byte? = some b) (h : us ++ vs = ts ++ t :: ts') :
    ∃ rest, ts = us ++ rest ∧ vs = rest ++ t :: ts' := by
  have hnot : t ∉ us := fun hmem => by
    rw [hus t hmem] at ht
    exact absurd ht (by simp)
  rcases List.append_eq_append_iff.mp h with hrest | ⟨rest, rfl, hrest⟩
  · exact hrest
  cases rest with
  | nil => exact ⟨[], by simp, hrest.symm⟩
  | cons x rest => exact absurd (by simp [(List.cons.inj hrest).1]) hnot

/-- A punctuation token among the tokens of a text is a byte of the text, which has the tokens
before it on one side and the tokens behind it on the other.

**Proof sketch.** By induction on the text. What a byte reads is no punctuation, and then it belongs
to the tokens before; or it reads a punctuation token behind what ends with it, and that is the one
that is looked for or belongs to the tokens before as well. -/
theorem exists_of_tokensFrom_eq_append (hl : l.Regular) (ht : t.byte? = some b)
    (h : tokensFrom l text = some (ts ++ t :: ts')) :
    ∃ a c, text = a ++ b :: c ∧ tokensFrom l a = some ts ∧ tokens? c = some ts' := by
  induction text generalizing l ts with
  | nil =>
    have hnone := byte?_of_finish h t (by simp)
    rw [ht] at hnone
    exact absurd hnone (by simp)
  | cons b' text ih =>
    have hcons := tokensFrom_cons l b'
    rw [hcons] at h
    obtain ⟨s, hs, h⟩ := Option.bind_eq_some_iff.mp h
    obtain ⟨us, hus, heq⟩ := Option.map_eq_some_iff.mp h
    have hfirst (c : List UInt8) (us : List Token) (hus : tokensFrom s.lexeme c = some us) :
        tokensFrom l (b' :: c) = some (s.read.reverse ++ us) := by
      rw [hcons, hs, Option.bind_some, hus]
      rfl
    -- where the token was not read with this byte, it is among those of the rest
    have hlater (rest : List Token) (hts : ts = s.read.reverse ++ rest)
        (hrest : us = rest ++ t :: ts') (hregular : s.lexeme.Regular) :
        ∃ a c, b' :: text = a ++ b :: c ∧ tokensFrom l a = some ts ∧ tokens? c = some ts' := by
      obtain ⟨a, c, rfl, ha, hc⟩ := ih hregular (hus.trans (congrArg some hrest))
      exact ⟨b' :: a, c, rfl, hts ▸ hfirst a rest ha, hc⟩
    cases reads_of_step hl hs with
    | plain hregular hread =>
      obtain ⟨rest, hts, hrest⟩ := exists_rest_of_byte? (by simpa using hread) ht heq
      exact hlater rest hts hrest hregular
    | @punctuation us' t' hfinish ht' =>
      obtain ⟨rest, hts, hrest⟩ : ∃ rest, ts = us' ++ rest ∧ t' :: us = rest ++ t :: ts' :=
        exists_rest_of_byte? (byte?_of_finish hfinish) ht (by simpa using heq)
      cases rest with
      | nil =>
        obtain ⟨rfl, rfl⟩ : t' = t ∧ us = ts' := by simpa using hrest
        obtain rfl : b' = b := Option.some.inj (ht'.symm.trans ht)
        rw [List.append_nil] at hts
        exact ⟨[], text, rfl, hts ▸ hfinish, hus⟩
      | cons x rest =>
        obtain ⟨rfl, hus'⟩ := List.cons.inj hrest
        exact hlater rest (by simpa using hts) hus' trivial

/-- A text without tokens leaves the machine as it was. -/
theorem foldlM_step_of_tokens?_eq_nil (h : tokens? text = some []) :
    text.foldlM step ⟨[], .gap⟩ = some ⟨[], .gap⟩ := by
  obtain ⟨⟨read, l⟩, hs, hfinish⟩ := Option.bind_eq_some_iff.mp h
  cases l <;> simp [State.finish] at hfinish
  rw [hs, hfinish]

end Lexer

/-- The tokens of a text that begins without tokens are those of the rest. -/
theorem tokens?_append_of_eq_nil {gap : List UInt8} (h : tokens? gap = some [])
    (text : List UInt8) : tokens? (gap ++ text) = tokens? text := by
  rw [tokens?, List.foldlM_append, Lexer.foldlM_step_of_tokens?_eq_nil h]
  rfl

/-- The tokens of a text that has punctuation between two parts are those of the parts, with the
punctuation between them. -/
theorem tokens?_append_punctuation {a : List UInt8} {b : UInt8} {t : Token} {ts : List Token}
    (ha : tokens? a = some ts) (hb : t.byte? = some b) (c : List UInt8) :
    tokens? (a ++ b :: c) = (tokens? c).map (ts ++ t :: ·) :=
  Lexer.tokensFrom_append ha hb c

/-- A punctuation token among the tokens of a text is a byte of the text, which has the tokens
before it on one side and the tokens behind it on the other. -/
theorem exists_of_tokens?_eq_append {text : List UInt8} {b : UInt8} {t : Token}
    (ts : List Token) {ts' : List Token} (ht : t.byte? = some b)
    (h : tokens? text = some (ts ++ t :: ts')) :
    ∃ a c, text = a ++ b :: c ∧ tokens? a = some ts ∧ tokens? c = some ts' :=
  Lexer.exists_of_tokensFrom_eq_append trivial ht h

end DenialMonitor
