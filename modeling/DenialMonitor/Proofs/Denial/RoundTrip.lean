import DenialMonitor.Denial.Log
import DenialMonitor.Proofs.Json.Compact
import DenialMonitor.Proofs.Json.Values
import DenialMonitor.Proofs.Text.Lines

set_option autoImplicit false

/-!
# Records that are read back

A record that is written as a line of the denial log is read back as the record. Its line has no
line feed inside, begins with a brace and ends with one, so it is cut out of the file as it was
written: neither in parts, nor together with another one, nor without its last character, and it is
not taken for a blank line. So a file of written records is read as its last records, newest first.

## Main definitions

* `DenialLog.written` — the file of a list of records.

## Main results

* `DenialRecord.parse?_text` — a record is read back from its line.
* `DenialLog.lines_written` — the lines of a file of records are those of the records.
* `DenialLog.written_records_are_read_back` — what is read of a file of records.
-/

namespace DenialMonitor

/-! ## Fields -/

namespace Literals

theorem string?_literals (s : String) : (Json.literals (.string s)).string? = some s :=
  StringLiteral.value?_ofString s

theorem optionalString?_literals (s : Option String) :
    (Json.literals (Json.ofString? s)).optionalString? = some s := by
  cases s with
  | none => rfl
  | some s => simp [Json.ofString?, Json.literals, optionalString?, string?,
      StringLiteral.value?_ofString]

/-- An integer of 64 bits is read back. -/
theorem int64?_literals (n : Int64) : (Json.literals (Json.ofInt n.toInt)).int64? = some n := by
  have hlow : Int64.minValue.toInt ≤ n.toInt := Int64.le_iff_toInt_le.mp (Int64.minValue_le n)
  have hhigh : n.toInt ≤ Int64.maxValue.toInt := Int64.le_iff_toInt_le.mp (Int64.le_maxValue n)
  have hfits : (Number.integer n.toInt).Fits := by
    have hmin : Int64.minValue.toInt = -0x8000000000000000 := by decide
    have hmax : Int64.maxValue.toInt = 0x7FFFFFFFFFFFFFFF := by decide
    simp only [Number.Fits, UInt64.size]
    omega
  simp only [Json.ofInt, Json.literals, int64?, Number.value?_literal_integer hfits]
  rw [if_pos ⟨hlow, hhigh⟩, Int64.ofInt_toInt]

end Literals

/-- The name of an operation is read back. -/
theorem OperationKind.ofLiterals?_literals (op : OperationKind) :
    ofLiterals? (Json.literals (.string op.name)) = some op := by
  have hname : ofName op.name = op := by
    cases op <;> decide
  simp [Json.literals, ofLiterals?, StringLiteral.value?_ofString, hname]

namespace DenialRecord

/-! ## Records -/

/-- A record of an object is the one of the fields that its members name. -/
theorem ofLiterals?_object (ms : Members StringLiteral NumberLiteral) :
    ofLiterals? (.object ms) = (Literals.members? (.object ms)).bind fun ms =>
      ofFields? (Literals.fields "ts" ms) (Literals.fields "op" ms) (Literals.fields "path" ms)
        (Literals.fields "dest" ms) (Literals.fields "zone" ms) (Literals.fields "process" ms)
        (Literals.fields "ancestor" ms) :=
  rfl

/-- A written record is read back from its literals. -/
theorem ofLiterals?_literals (r : DenialRecord) :
    ofLiterals? (Json.literals r.toJson) = some r := by
  have hmembers := Literals.members?_literals [("ts", Json.ofInt r.ts.toInt),
    ("op", .string r.op.name), ("path", .string r.path), ("dest", Json.ofString? r.dest),
    ("zone", .string r.zone), ("process", .string r.process), ("ancestor", .string r.ancestor)]
  rw [Json.literals] at hmembers
  rw [toJson, Json.literals, ofLiterals?_object, hmembers]
  simp [Literals.fields, ofFields?, Literals.int64?_literals, OperationKind.ofLiterals?_literals,
    Literals.string?_literals, Literals.optionalString?_literals]

/-- The bytes of the line of a record. -/
theorem encode_text (r : DenialRecord) :
    Utf8.encode r.text = Utf8.encodeChars (Json.write .compact 0 r.toJson) := by
  rw [Utf8.encode, text, Json.compact, String.toList_ofList]

/-- **A record is read back from its line.** -/
theorem parse?_text (r : DenialRecord) : parse? (Utf8.encode r.text) = some r := by
  have htokens :
      tokens? (Utf8.encode r.text) = some (Literals.tokens (Json.literals r.toJson)) := by
    have hwrite := tokens?_write .compact r.toJson (.inl rfl)
    rw [List.append_nil] at hwrite
    rw [encode_text, hwrite]
  have hunbounded : Reader.Allowed none (Json.literals r.toJson).depth := by
    rintro k hk
    cases hk
  rw [parse?, Literals.parse?_of_tokens htokens hunbounded, Option.bind_some,
    ofLiterals?_literals]

/-- The line of a record begins and ends with a brace. -/
theorem exists_text_eq (r : DenialRecord) :
    ∃ inner, r.text.toList = Char.ofNat 0x7B :: (inner ++ [Char.ofNat 0x7D]) := by
  rw [text, Json.compact, String.toList_ofList, toJson]
  exact Json.exists_write_object_eq ..

/-- The line of a record is not blank. -/
theorem not_allBlank_text (r : DenialRecord) : Text.allBlank r.text.toList = false := by
  obtain ⟨inner, heq⟩ := r.exists_text_eq
  rw [heq, Text.allBlank, List.all_cons]
  simp [show Text.isBlank (Char.ofNat 0x7B) = false by decide]

/-- The line of a record has no carriage return at its end. -/
theorem dropCarriageReturn_text (r : DenialRecord) :
    Split.dropCarriageReturn r.text.toList = r.text.toList := by
  obtain ⟨inner, heq⟩ := r.exists_text_eq
  rw [Split.dropCarriageReturn, if_neg]
  rw [heq, ← List.cons_append, List.getLast?_concat]
  decide

end DenialRecord

namespace DenialLog

/-! ## Files -/

/-- The file that holds the given records, each on a line of its own. -/
def written (rs : List DenialRecord) : List UInt8 :=
  rs.flatMap fun r => Utf8.encode r.text ++ [0x0A]

/-- The characters of a file of records are those of the lines. -/
theorem decodeLossyChars_written (rs : List DenialRecord) :
    Utf8.decodeLossyChars (written rs) = rs.flatMap fun r => r.text.toList ++ ['\n'] := by
  have hbytes : written rs = Utf8.encodeChars (rs.flatMap fun r => r.text.toList ++ ['\n']) := by
    simp [written, Utf8.encodeChars, Utf8.encode, List.flatMap_assoc]
    rfl
  rw [hbytes, Utf8.decodeLossyChars, Utf8.scan_encodeChars, List.map_map]
  exact List.map_id _

/-- The lines of a file of records are those of the records. -/
theorem lines_written (rs : List DenialRecord) :
    Split.lines (Utf8.decodeLossyChars (written rs)) = rs.map fun r => r.text.toList := by
  have hcut : Split.IsCut '\n' (Utf8.decodeLossyChars (written rs))
      (rs.map fun r => r.text.toList) [] := by
    refine ⟨?_, ?_, List.not_mem_nil⟩
    · rw [decodeLossyChars_written, List.flatMap_map, List.append_nil]
    · intro line hline
      obtain ⟨r, -, rfl⟩ := List.mem_map.mp hline
      exact Json.lineFeed_not_mem_compact r.toJson
  rw [Split.lines, hcut.cut_eq]
  simp [DenialRecord.dropCarriageReturn_text]

/-- **Written records are read back.** The lines of a file of records are those of the records, none
of which is blank, and each of them is read as its record. So a reload finds the last records of the
file, as many as the window covers, newest first. -/
theorem written_records_are_read_back (log : DenialLog) (rs : List DenialRecord) :
    Split.lines (Utf8.decodeLossyChars (written rs)) = rs.map (fun r => r.text.toList) ∧
    (∀ r : DenialRecord, Text.allBlank r.text.toList = false ∧
      DenialRecord.parse? (Utf8.encode r.text) = some r) ∧
    (log.reload (some (written rs))).2.records = (rs.drop (rs.length - maxRecords)).reverse := by
  refine ⟨lines_written rs, fun r => ⟨r.not_allBlank_text, r.parse?_text⟩, ?_⟩
  have hentries : entries (Utf8.decodeLossyChars (written rs)) =
      (rs.map fun r => r.text.toList).reverse := by
    rw [entries, lines_written, List.filter_eq_self.mpr]
    intro line hline
    obtain ⟨r, -, rfl⟩ := List.mem_map.mp hline
    simp [r.not_allBlank_text]
  have hparse (r : DenialRecord) :
      DenialRecord.parse? (Utf8.encodeChars r.text.toList) = some r := r.parse?_text
  show windowOfChars (Utf8.decodeLossyChars (written rs)) = _
  rw [windowOfChars, hentries, ← List.map_reverse, ← List.map_take, List.filterMap_map]
  simp only [Function.comp_def, hparse, List.filterMap_some, List.take_reverse]

end DenialLog

end DenialMonitor
