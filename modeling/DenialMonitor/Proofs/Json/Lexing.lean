import DenialMonitor.Json.Reader
import DenialMonitor.Json.Writer
import DenialMonitor.Proofs.Json.Numerals

set_option autoImplicit false

/-!
# The tokens of a written document

A written document is cut into the tokens of its literals, in either layout. Every part of it
leaves the machine between two tokens, except that a number ends only with what comes after it; so
the text after a number has to begin with a delimiter, which it always does.

## Main definitions

* `StringLiteral.ofString` — the literal that a written string spells.
* `Json.literals` — the tree of literals that a written document spells.
* `Literals.tokens` — the tokens of a tree.
* `Lexer.run` — the tokens of a text, from a state of the machine.

## Main results

* `Lexer.run_writeString`, `Lexer.run_chars` — the token of a string and of a number.
* `Lexer.run_write`, `tokens?_write` — the tokens of a document.
-/

namespace DenialMonitor

/-! ## Literals of documents -/

namespace StringLiteral

/-- Whether a control character is written with its code. -/
def isCoded (c : Char) : Bool :=
  c.toNat < 32 && !(c = '\n' || c = '\r' || c = '\t' || c.toNat = 8 || c.toNat = 12)

/-- The pieces that a written character spells. -/
def ofChar (c : Char) : StringLiteral :=
  if isCoded c then [.unit c.toNat] else (String.utf8EncodeChar c).map .byte

/-- The literal that a written string spells. -/
def ofString (s : String) : StringLiteral :=
  s.toList.flatMap ofChar

end StringLiteral

namespace Json

mutual

/-- The tree of literals that a written document spells. -/
def literals : Json → Literals
  | .null => .null
  | .bool b => .bool b
  | .number n => .number n.literal
  | .string s => .string (StringLiteral.ofString s)
  | .array items => .array (literalItems items)
  | .object members => .object (literalMembers members)

/-- The literals of the items of an array. -/
def literalItems : List Json → List Literals
  | [] => []
  | v :: vs => literals v :: literalItems vs

/-- The literals of the members of an object. -/
def literalMembers : Members String Number → Members StringLiteral NumberLiteral
  | [] => []
  | (k, v) :: ms => (StringLiteral.ofString k, literals v) :: literalMembers ms

end

end Json

namespace Literals

mutual

/-- The tokens of a tree. -/
def tokens : Literals → List Token
  | .null => [.null]
  | .bool b => [.bool b]
  | .number n => [.number n]
  | .string s => [.string s]
  | .array [] => [.openArray, .closeArray]
  | .array (v :: vs) => .openArray :: (tokens v ++ (itemTokens vs ++ [.closeArray]))
  | .object [] => [.openObject, .closeObject]
  | .object ((k, v) :: ms) =>
    .openObject :: .string k :: .colon :: (tokens v ++ (memberTokens ms ++ [.closeObject]))

/-- The tokens of the further items of an array. -/
def itemTokens : List Literals → List Token
  | [] => []
  | v :: vs => .comma :: (tokens v ++ itemTokens vs)

/-- The tokens of the further members of an object. -/
def memberTokens : Members StringLiteral NumberLiteral → List Token
  | [] => []
  | (k, v) :: ms => .comma :: .string k :: .colon :: (tokens v ++ memberTokens ms)

end

end Literals

namespace Lexer

/-! ## Characters -/

/-- The tokens of a text, from a state of the machine. -/
def run (s : State) (cs : List Char) : Option (List Token) :=
  ((Utf8.encodeChars cs).foldlM step s).bind State.finish

variable {ts : List Token} {cs : List Char}

/-- A text runs through its characters one after the other. -/
theorem run_cons (s : State) (c : Char) :
    run s (c :: cs) = ((String.utf8EncodeChar c).foldlM step s).bind (run · cs) := by
  simp only [run, Utf8.encodeChars, List.flatMap_cons, List.foldlM_append, Option.bind_eq_bind,
    Option.bind_assoc]

/-- What stands before an item is skipped. -/
theorem run_gap (layout : Json.Layout) (level : Nat) :
    run ⟨ts, .gap⟩ (layout.gap level ++ cs) = run ⟨ts, .gap⟩ cs := by
  have hspaces (n : Nat) : run ⟨ts, .gap⟩ (List.replicate n ' ' ++ cs) = run ⟨ts, .gap⟩ cs := by
    induction n with
    | zero => rfl
    | succ n ih => exact ih
  cases layout with
  | compact => rfl
  | pretty => exact hspaces (2 * level)

/-- A colon is one token in either layout. -/
theorem run_colon (layout : Json.Layout) :
    run ⟨ts, .gap⟩ (layout.colon ++ cs) = run ⟨.colon :: ts, .gap⟩ cs := by
  cases layout <;> rfl

/-! ## Strings -/

/-- A byte that stands for itself is a piece of a string. -/
theorem step_string {pieces : List Piece} {b : UInt8} (hquote : b ≠ 0x22) (hslash : b ≠ 0x5C)
    (hcontrol : ¬ b < 0x20) :
    step ⟨ts, .string pieces⟩ b = some ⟨ts, .string (.byte b :: pieces)⟩ := by
  simp [step, hquote, hslash, hcontrol]

/-- Bytes that stand for themselves are pieces of a string. -/
theorem foldlM_step_string {bs : List UInt8}
    (h : ∀ b ∈ bs, b ≠ 0x22 ∧ b ≠ 0x5C ∧ ¬ b < 0x20) (pieces : List Piece) :
    bs.foldlM step ⟨ts, .string pieces⟩ =
      some ⟨ts, .string ((bs.map .byte).reverse ++ pieces)⟩ := by
  induction bs generalizing pieces with
  | nil => rfl
  | cons b bs ih =>
    obtain ⟨hquote, hslash, hcontrol⟩ := h b (by simp)
    rw [List.foldlM_cons, step_string hquote hslash hcontrol]
    simp [ih fun b hb => h b (List.mem_cons_of_mem _ hb)]

/-- The bytes of a character are that character or lie above the ASCII characters. -/
theorem toNat_of_mem_encodeChar {c : Char} {b : UInt8} (h : b ∈ String.utf8EncodeChar c) :
    b.toNat = c.toNat ∨ 0x80 ≤ b.toNat := by
  have hc : c.val.toNat = c.toNat := rfl
  simp only [String.utf8EncodeChar, hc] at h
  split at h
  · simp only [List.mem_singleton] at h
    left
    rw [h, UInt8.toNat_ofNat_of_lt' (by simp [UInt8.size]; omega)]
  · right
    split at h
    · simp only [List.mem_cons, List.not_mem_nil, or_false] at h
      rcases h with h | h <;> rw [h, UInt8.toNat_ofNat_of_lt' (by simp [UInt8.size]; omega)] <;> omega
    · split at h
      · simp only [List.mem_cons, List.not_mem_nil, or_false] at h
        rcases h with h | h | h <;>
          rw [h, UInt8.toNat_ofNat_of_lt' (by simp [UInt8.size]; omega)] <;> omega
      · simp only [List.mem_cons, List.not_mem_nil, or_false] at h
        rcases h with h | h | h | h <;>
          rw [h, UInt8.toNat_ofNat_of_lt' (by simp [UInt8.size]; omega)] <;> omega

/-- The bytes of a character that needs no escape stand for themselves. -/
theorem plain_of_mem_encodeChar {c : Char} {b : UInt8} (h : b ∈ String.utf8EncodeChar c)
    (hquote : c ≠ '"') (hslash : c ≠ '\\') (hcontrol : ¬ c.toNat < 32) :
    b ≠ 0x22 ∧ b ≠ 0x5C ∧ ¬ b < 0x20 := by
  have hquote' : c.toNat ≠ 0x22 := fun h => hquote (Char.toNat_inj.mp h)
  have hslash' : c.toNat ≠ 0x5C := fun h => hslash (Char.toNat_inj.mp h)
  rw [UInt8.lt_iff_toNat_lt, ne_eq, ne_eq, ← UInt8.toNat_inj, ← UInt8.toNat_inj]
  simp only [UInt8.reduceToNat]
  rcases toNat_of_mem_encodeChar h with h | h <;> omega

/-- A hexadecimal digit is one byte, which has its value. -/
theorem hexDigit?_hexDigit : ∀ n < 16,
    String.utf8EncodeChar (Json.hexDigit n) = [UInt8.ofNat (Json.hexDigit n).toNat] ∧
      hexDigit? (UInt8.ofNat (Json.hexDigit n).toNat) = some n := by
  decide

/-- A written character is read as its pieces. -/
theorem run_escapeChar (c : Char) (pieces : List Piece) :
    run ⟨ts, .string pieces⟩ (Json.escapeChar c ++ cs) =
      run ⟨ts, .string ((StringLiteral.ofChar c).reverse ++ pieces)⟩ cs := by
  unfold Json.escapeChar StringLiteral.ofChar StringLiteral.isCoded
  by_cases hquote : c = '"'
  · subst hquote
    rfl
  by_cases hslash : c = '\\'
  · subst hslash
    rfl
  by_cases hnewline : c = '\n'
  · subst hnewline
    rfl
  by_cases hreturn : c = '\r'
  · subst hreturn
    rfl
  by_cases htab : c = '\t'
  · subst htab
    rfl
  by_cases hback : c.toNat = 8
  · have hc : c = Char.ofNat 8 := by rw [← hback, Char.ofNat_toNat]
    subst hc
    rfl
  by_cases hfeed : c.toNat = 12
  · have hc : c = Char.ofNat 12 := by rw [← hfeed, Char.ofNat_toNat]
    subst hc
    rfl
  by_cases hcontrol : c.toNat < 32
  · obtain ⟨hhigh, hhigh'⟩ := hexDigit?_hexDigit (c.toNat / 16) (by omega)
    obtain ⟨hlow, hlow'⟩ := hexDigit?_hexDigit (c.toNat % 16) (by omega)
    have hvalue : 16 * (c.toNat / 16) + c.toNat % 16 = c.toNat := by omega
    have hzeros (rest : List Char) :
        run ⟨ts, .string pieces⟩ ('\\' :: 'u' :: '0' :: '0' :: rest) =
          run ⟨ts, .unit pieces 0 1⟩ rest := rfl
    simp only [hquote, hslash, hnewline, hreturn, htab, hback, hfeed, hcontrol, if_false, if_true,
      List.cons_append, List.nil_append, hzeros, run_cons, hhigh, hlow, List.foldlM_cons,
      List.foldlM_nil, step, hhigh', hlow', Option.map_some, Option.bind_eq_bind, Option.bind_some,
      Option.pure_def, decide_true, decide_false, Bool.or_self, Bool.not_false, Bool.and_self,
      List.reverse_cons, List.reverse_nil, Nat.mul_zero, Nat.zero_add, hvalue]
  · simp only [hquote, hslash, hnewline, hreturn, htab, hback, hfeed, hcontrol, if_false,
      decide_false, Bool.false_and, Bool.false_eq_true, List.cons_append, List.nil_append, run_cons]
    rw [foldlM_step_string fun b hb => plain_of_mem_encodeChar hb hquote hslash hcontrol]
    rfl

/-- A written string is read as the token of its literal. -/
theorem run_writeString (s : String) :
    run ⟨ts, .gap⟩ (Json.writeString s ++ cs) =
      run ⟨.string (StringLiteral.ofString s) :: ts, .gap⟩ cs := by
  have hpieces (chars : List Char) (pieces : List Piece) :
      run ⟨ts, .string pieces⟩ (chars.flatMap Json.escapeChar ++ '"' :: cs) =
        run ⟨.string (pieces.reverse ++ chars.flatMap StringLiteral.ofChar) :: ts, .gap⟩ cs := by
    induction chars generalizing pieces with
    | nil => simp only [List.flatMap_nil, List.append_nil]; rfl
    | cons c chars ih =>
      rw [List.flatMap_cons, List.append_assoc, run_escapeChar, ih]
      simp
  have hopen := hpieces s.toList []
  rw [List.reverse_nil, List.nil_append] at hopen
  rw [StringLiteral.ofString, ← hopen, Json.writeString, List.cons_append, List.append_assoc]
  rfl

/-! ## Numbers -/

/-- A text with which a number ends: there is nothing more, or a delimiter comes next. -/
def Delimited (cs : List Char) : Prop :=
  ∀ c ∈ cs.head?, c = ',' ∨ c = ']' ∨ c = Char.ofNat 0x7D ∨ c = '\n'

/-- A number that may end where a delimiter comes is a token then. -/
theorem run_delimited {stage : NumberStage} {l : NumberLiteral} (hstage : stage.complete)
    (h : Delimited cs) :
    run ⟨ts, .number stage l⟩ cs = run ⟨finishNumber l :: ts, .gap⟩ cs := by
  have hcases : stage = .zero ∨ stage = .whole ∨ stage = .fraction ∨ stage = .exponent := by
    cases stage <;> simp_all [NumberStage.complete]
  cases cs with
  | nil => rcases hcases with rfl | rfl | rfl | rfl <;> rfl
  | cons c cs =>
    rcases h c rfl with rfl | rfl | rfl | rfl <;>
      rcases hcases with rfl | rfl | rfl | rfl <;> rfl

/-- The byte of a decimal digit. -/
def digitByte (d : Nat) : UInt8 :=
  UInt8.ofNat (48 + d)

/-- A decimal digit is one byte, which has its value and does nothing else. -/
theorem digit?_digitChar : ∀ d < 10,
    String.utf8EncodeChar (Nat.digitChar d) = [digitByte d] ∧
      digit? (digitByte d) = some d ∧ digitByte d ≠ 0x2E ∧
      digitByte d ≠ 0x65 ∧ digitByte d ≠ 0x45 ∧ digitByte d ≠ 0x2B ∧
      digitByte d ≠ 0x2D := by
  decide

/-- A digit that goes on with a number. -/
theorem run_digit {stage : NumberStage} {l : NumberLiteral} {lexeme : Lexeme} {d : Nat}
    (hd : d < 10) (h : continueNumber stage l (digitByte d) = some lexeme) :
    run ⟨ts, .number stage l⟩ (Nat.digitChar d :: cs) = run ⟨ts, lexeme⟩ cs := by
  rw [run_cons, (digit?_digitChar d hd).1]
  simp only [List.foldlM_cons, List.foldlM_nil, step, h]
  rfl

/-- Digits that go on with a number within one of its stages. -/
theorem run_digits {stage : NumberStage} {push : NumberLiteral → Nat → NumberLiteral}
    (hpush : ∀ l, ∀ d < 10, continueNumber stage l (digitByte d) =
      some (.number stage (push l d)))
    {ds : List Nat} (hds : ∀ d ∈ ds, d < 10) (l : NumberLiteral) :
    run ⟨ts, .number stage l⟩ (ds.map Nat.digitChar ++ cs) =
      run ⟨ts, .number stage (ds.foldl push l)⟩ cs := by
  induction ds generalizing l with
  | nil => rfl
  | cons d ds ih =>
    have hd : d < 10 := hds d (by simp)
    rw [List.map_cons, List.cons_append, run_digit hd (hpush l d hd)]
    exact ih (fun d hd => hds d (List.mem_cons_of_mem _ hd)) (push l d)

/-- The sign and the whole digits of a number, up to a stage in which the number may end. -/
theorem run_whole (ts : List Token) (cs : List Char) (negative : Bool) {whole : List Nat}
    (hlt : ∀ d ∈ whole, d < 10)
    (hhead : whole = [0] ∨ ∃ d, whole.head? = some d ∧ d ≠ 0) :
    ∃ stage, (stage = .zero ∨ stage = .whole) ∧
      run ⟨ts, .gap⟩ ((if negative then ['-'] else []) ++ whole.map Nat.digitChar ++ cs) =
        run ⟨ts, .number stage ⟨negative, whole.reverse, [], none⟩⟩ cs := by
  -- the first digit, after a minus sign or at the start of the token
  have hfirst (d : Nat) (hd : d < 10) (rest : List Char) :
      run ⟨ts, .gap⟩ ((if negative then ['-'] else []) ++ Nat.digitChar d :: rest) =
        run ⟨ts, startNumber negative d⟩ rest := by
    cases negative with
    | true => exact run_digit hd (by simp [continueNumber, (digit?_digitChar d hd).2.1])
    | false =>
      match d, hd with
      | 0, _ | 1, _ | 2, _ | 3, _ | 4, _ | 5, _ | 6, _ | 7, _ | 8, _ | 9, _ => rfl
  rcases hhead with rfl | ⟨d, hd, hpos⟩
  · refine ⟨.zero, .inl rfl, ?_⟩
    rw [List.map_cons, List.map_nil, List.append_assoc, List.singleton_append,
      hfirst 0 (by decide)]
    rfl
  · cases whole with
    | nil => simp at hd
    | cons a ds =>
      obtain rfl : a = d := by simpa using hd
      have hpush (l : NumberLiteral) (d : Nat) (hd : d < 10) :
          continueNumber .whole l (digitByte d) =
            some (.number .whole { l with whole := d :: l.whole }) := by
        obtain ⟨-, hvalue, hpoint, he, hE, -, -⟩ := digit?_digitChar d hd
        simp [continueNumber, hvalue, hpoint, he, hE]
      have hfold (ds w : List Nat) :
          ds.foldl (fun (l : NumberLiteral) d => { l with whole := d :: l.whole })
            ⟨negative, w, [], none⟩ = ⟨negative, ds.reverse ++ w, [], none⟩ := by
        induction ds generalizing w with
        | nil => rfl
        | cons d ds ih => simp [ih]
      refine ⟨.whole, .inr rfl, ?_⟩
      rw [List.map_cons, List.append_assoc, List.cons_append, hfirst a (hlt a (by simp)),
        startNumber, if_neg hpos, run_digits hpush fun d hd => hlt d (List.mem_cons_of_mem _ hd),
        hfold, List.reverse_cons]

/-- The fraction of a number, up to a stage in which the number may end. -/
theorem run_fraction (ts : List Token) (cs : List Char) (negative : Bool) (whole : List Nat)
    {stage : NumberStage} (hstage : stage = .zero ∨ stage = .whole) {fraction : List Nat}
    (hlt : ∀ d ∈ fraction, d < 10) :
    ∃ stage', (stage' = .zero ∨ stage' = .whole ∨ stage' = .fraction) ∧
      run ⟨ts, .number stage ⟨negative, whole, [], none⟩⟩
          ((if fraction = [] then [] else '.' :: fraction.map Nat.digitChar) ++ cs) =
        run ⟨ts, .number stage' ⟨negative, whole, fraction.reverse, none⟩⟩ cs := by
  cases fraction with
  | nil =>
    refine ⟨stage, ?_, rfl⟩
    rcases hstage with h | h <;> simp [h]
  | cons d ds =>
    have hd : d < 10 := hlt d (by simp)
    have hpoint (rest : List Char) :
        run ⟨ts, .number stage ⟨negative, whole, [], none⟩⟩ ('.' :: rest) =
          run ⟨ts, .number .point ⟨negative, whole, [], none⟩⟩ rest := by
      rcases hstage with rfl | rfl <;> rfl
    have hfirst : continueNumber .point ⟨negative, whole, [], none⟩ (digitByte d) =
        some (.number .fraction ⟨negative, whole, [d], none⟩) := by
      simp [continueNumber, (digit?_digitChar d hd).2.1]
    have hpush (l : NumberLiteral) (d : Nat) (hd : d < 10) :
        continueNumber .fraction l (digitByte d) =
          some (.number .fraction { l with fraction := d :: l.fraction }) := by
      obtain ⟨-, hvalue, -, he, hE, -, -⟩ := digit?_digitChar d hd
      simp [continueNumber, hvalue, he, hE]
    have hfold (ds f : List Nat) :
        ds.foldl (fun (l : NumberLiteral) d => { l with fraction := d :: l.fraction })
          ⟨negative, whole, f, none⟩ = ⟨negative, whole, ds.reverse ++ f, none⟩ := by
      induction ds generalizing f with
      | nil => rfl
      | cons d ds ih => simp [ih]
    refine ⟨.fraction, .inr (.inr rfl), ?_⟩
    rw [if_neg (by simp), List.map_cons, List.cons_append, List.cons_append, hpoint,
      run_digit hd hfirst, run_digits hpush fun d hd => hlt d (List.mem_cons_of_mem _ hd), hfold,
      List.reverse_cons]

/-- The exponent of a number, up to a stage in which the number may end. -/
theorem run_exponent (ts : List Token) (cs : List Char) (negative : Bool)
    (whole fraction : List Nat) {stage : NumberStage}
    (hstage : stage = .zero ∨ stage = .whole ∨ stage = .fraction) {exponent : Option (Bool × List Nat)}
    (hlt : ∀ e ∈ exponent, ∀ d ∈ e.2, d < 10) (hne : ∀ e ∈ exponent, e.2 ≠ []) :
    ∃ stage', stage'.complete = true ∧
      run ⟨ts, .number stage ⟨negative, whole, fraction, none⟩⟩
          (exponent.elim [] NumberLiteral.exponentChars ++ cs) =
        run ⟨ts, .number stage' ⟨negative, whole, fraction,
          exponent.map fun e => (e.1, e.2.reverse)⟩⟩ cs := by
  cases exponent with
  | none =>
    refine ⟨stage, ?_, rfl⟩
    rcases hstage with rfl | rfl | rfl <;> rfl
  | some e =>
    obtain ⟨sign, digits⟩ := e
    cases digits with
    | nil => exact absurd rfl (hne _ rfl)
    | cons d ds =>
      have hlt' : ∀ a ∈ d :: ds, a < 10 := fun a ha => hlt (sign, d :: ds) rfl a ha
      have hd : d < 10 := hlt' d (by simp)
      have hmark (rest : List Char) :
          run ⟨ts, .number stage ⟨negative, whole, fraction, none⟩⟩
              ('e' :: (if sign then '-' else '+') :: rest) =
            run ⟨ts, .number .exponentSign ⟨negative, whole, fraction, some (sign, [])⟩⟩ rest := by
        rcases hstage with rfl | rfl | rfl <;> cases sign <;> rfl
      have hfirst : continueNumber .exponentSign ⟨negative, whole, fraction, some (sign, [])⟩
          (digitByte d) = some (.number .exponent ⟨negative, whole, fraction, some (sign, [d])⟩) := by
        simp [continueNumber, pushExponent, (digit?_digitChar d hd).2.1]
      have hpush (l : NumberLiteral) (d : Nat) (hd : d < 10) :
          continueNumber .exponent l (digitByte d) = some (.number .exponent (pushExponent l d)) := by
        simp [continueNumber, (digit?_digitChar d hd).2.1]
      have hfold (ds f : List Nat) :
          ds.foldl pushExponent ⟨negative, whole, fraction, some (sign, f)⟩ =
            ⟨negative, whole, fraction, some (sign, ds.reverse ++ f)⟩ := by
        induction ds generalizing f with
        | nil => rfl
        | cons d ds ih => simp [pushExponent, ih]
      refine ⟨.exponent, rfl, ?_⟩
      rw [Option.elim_some, NumberLiteral.exponentChars, List.map_cons, List.cons_append,
        List.cons_append, List.cons_append, hmark, run_digit hd hfirst,
        run_digits hpush fun d hd => hlt' d (List.mem_cons_of_mem _ hd), hfold, Option.map_some,
        List.reverse_cons]

/-- The text of a literal is read as the token of the literal, where a delimiter comes next. -/
theorem run_chars {l : NumberLiteral} (hl : l.Spelled) (h : Delimited cs) :
    run ⟨ts, .gap⟩ (l.chars ++ cs) = run ⟨.number l :: ts, .gap⟩ cs := by
  obtain ⟨stage, hstage, hwhole⟩ := run_whole ts
    ((if l.fraction = [] then [] else '.' :: l.fraction.map Nat.digitChar) ++
      (l.exponent.elim [] NumberLiteral.exponentChars ++ cs)) l.negative hl.whole_lt hl.whole_head
  obtain ⟨stage', hstage', hfraction⟩ := run_fraction ts
    (l.exponent.elim [] NumberLiteral.exponentChars ++ cs) l.negative l.whole.reverse hstage
    hl.fraction_lt
  obtain ⟨stage'', hstage'', hexponent⟩ := run_exponent ts cs l.negative l.whole.reverse
    l.fraction.reverse hstage' hl.exponent_lt hl.exponent_ne_nil
  have hparts : l.chars ++ cs = (if l.negative then ['-'] else []) ++ l.whole.map Nat.digitChar ++
      ((if l.fraction = [] then [] else '.' :: l.fraction.map Nat.digitChar) ++
        (l.exponent.elim [] NumberLiteral.exponentChars ++ cs)) := by
    simp [NumberLiteral.chars]
  have htoken : finishNumber ⟨l.negative, l.whole.reverse, l.fraction.reverse,
      l.exponent.map fun e => (e.1, e.2.reverse)⟩ = .number l := by
    simp [finishNumber, Function.comp_def]
  rw [hparts, hwhole, hfraction, hexponent, run_delimited hstage'' h, htoken]

/-! ## Documents -/

/-- What stands before a closing bracket, and the bracket, is a delimiter. -/
theorem delimited_gap (layout : Json.Layout) (level : Nat) {c : Char}
    (hc : c = ',' ∨ c = ']' ∨ c = Char.ofNat 0x7D ∨ c = '\n') :
    Delimited (layout.gap level ++ c :: cs) := by
  intro a ha
  cases layout with
  | compact =>
    obtain rfl : c = a := by simpa [Json.Layout.gap] using ha
    exact hc
  | pretty =>
    obtain rfl : '\n' = a := by simpa [Json.Layout.gap] using ha
    exact .inr (.inr (.inr rfl))

/-- What comes after an item of an array is a delimiter. -/
theorem delimited_writeItems (layout : Json.Layout) (level level' : Nat) (vs : List Json) :
    Delimited (Json.writeItems layout level vs ++ (layout.gap level' ++ ']' :: cs)) := by
  cases vs with
  | nil => exact delimited_gap layout level' (by simp)
  | cons v vs =>
    intro c hc
    left
    simpa [Json.writeItems, eq_comm] using hc

/-- What comes after a member of an object is a delimiter. -/
theorem delimited_writeMembers (layout : Json.Layout) (level level' : Nat)
    (ms : Members String Number) :
    Delimited (Json.writeMembers layout level ms ++
      (layout.gap level' ++ Char.ofNat 0x7D :: cs)) := by
  cases ms with
  | nil => exact delimited_gap layout level' (by simp)
  | cons m ms =>
    intro c hc
    left
    simpa [Json.writeMembers, eq_comm] using hc

mutual

/-- A written document is read as the tokens of its literals, where a delimiter comes next. -/
theorem run_write (layout : Json.Layout) (level : Nat) (v : Json) (ts : List Token)
    (cs : List Char) (h : Delimited cs) :
    run ⟨ts, .gap⟩ (Json.write layout level v ++ cs) =
      run ⟨(Literals.tokens (Json.literals v)).reverse ++ ts, .gap⟩ cs := by
  match v with
  | .null => rfl
  | .bool true => rfl
  | .bool false => rfl
  | .number n =>
    rw [Json.write, ← Number.chars_literal]
    exact run_chars (Number.spelled_literal n) h
  | .string s => exact run_writeString s
  | .array [] => rfl
  | .array (v :: vs) =>
    have hopen (rest : List Char) :
        run ⟨ts, .gap⟩ ('[' :: rest) = run ⟨.openArray :: ts, .gap⟩ rest := rfl
    simp only [Json.write, List.cons_append, List.append_assoc, List.nil_append]
    rw [hopen, run_gap, run_write layout _ v _ _ (delimited_writeItems layout _ level vs),
      run_writeItems layout _ level vs]
    simp [Json.literals, Json.literalItems, Literals.tokens]
  | .object [] => rfl
  | .object ((k, v) :: ms) =>
    have hopen (rest : List Char) :
        run ⟨ts, .gap⟩ (Char.ofNat 0x7B :: rest) = run ⟨.openObject :: ts, .gap⟩ rest := rfl
    simp only [Json.write, List.cons_append, List.append_assoc, List.nil_append]
    rw [hopen, run_gap, run_writeString, run_colon,
      run_write layout _ v _ _ (delimited_writeMembers layout _ level ms),
      run_writeMembers layout _ level ms]
    simp [Json.literals, Json.literalMembers, Literals.tokens]

theorem run_writeItems (layout : Json.Layout) (level level' : Nat) (vs : List Json)
    (ts : List Token) (cs : List Char) :
    run ⟨ts, .gap⟩ (Json.writeItems layout level vs ++ (layout.gap level' ++ ']' :: cs)) =
      run ⟨.closeArray :: (Literals.itemTokens (Json.literalItems vs)).reverse ++ ts, .gap⟩ cs := by
  match vs with
  | [] => exact run_gap layout level'
  | v :: vs =>
    have hcomma (rest : List Char) :
        run ⟨ts, .gap⟩ (',' :: rest) = run ⟨.comma :: ts, .gap⟩ rest := rfl
    simp only [Json.writeItems, List.cons_append, List.append_assoc]
    rw [hcomma, run_gap, run_write layout _ v _ _ (delimited_writeItems layout _ level' vs),
      run_writeItems layout _ level' vs]
    simp [Json.literalItems, Literals.itemTokens]

theorem run_writeMembers (layout : Json.Layout) (level level' : Nat) (ms : Members String Number)
    (ts : List Token) (cs : List Char) :
    run ⟨ts, .gap⟩ (Json.writeMembers layout level ms ++
        (layout.gap level' ++ Char.ofNat 0x7D :: cs)) =
      run ⟨.closeObject :: (Literals.memberTokens (Json.literalMembers ms)).reverse ++ ts, .gap⟩
        cs := by
  match ms with
  | [] => exact run_gap layout level'
  | (k, v) :: ms =>
    have hcomma (rest : List Char) :
        run ⟨ts, .gap⟩ (',' :: rest) = run ⟨.comma :: ts, .gap⟩ rest := rfl
    simp only [Json.writeMembers, List.cons_append, List.append_assoc]
    rw [hcomma, run_gap, run_writeString, run_colon,
      run_write layout _ v _ _ (delimited_writeMembers layout _ level' ms),
      run_writeMembers layout _ level' ms]
    simp [Json.literalMembers, Literals.memberTokens]

end

end Lexer

/-- The tokens of a written document are those of its literals, also where a line end follows. -/
theorem tokens?_write (layout : Json.Layout) (v : Json) {cs : List Char}
    (hcs : cs = [] ∨ cs = ['\n']) :
    tokens? (Utf8.encodeChars (Json.write layout 0 v ++ cs)) =
      some (Literals.tokens (Json.literals v)) := by
  have hdelimited : Lexer.Delimited cs := by
    rcases hcs with rfl | rfl <;> simp [Lexer.Delimited]
  have hend (ts : List Token) : Lexer.run ⟨ts, .gap⟩ cs = some ts.reverse := by
    rcases hcs with rfl | rfl <;> rfl
  have hrun := Lexer.run_write layout 0 v [] cs hdelimited
  rw [hend, List.append_nil, List.reverse_reverse] at hrun
  exact hrun

end DenialMonitor
