import DenialMonitor.Proofs.Settings.Entries
import DenialMonitor.Proofs.Settings.Home
import DenialMonitor.Proofs.Text.Utf8
import Mathlib.Data.List.TakeWhile

set_option autoImplicit false

/-!
# The layers of the settings

A setting has the value of its variable if the environment sets that to a text, else the value of its
key if the file has that, else its default, and nothing else is asked. What a value says depends on
the kind of the setting, and for paths on the layer: only the file has paths in the home directory.

Loading fails where the file does, and where it does not for a text in the environment that is no
number of minutes. A variable that is set to bytes that are no text is passed over, whatever it is
for.

## Main definitions

* `SettingKind.ofFile`, `SettingKind.ofVariable` — what the value of a key says, and the text of a
  variable.
* `Setting.layered` — the value of a setting, from its variable and its key.
* `SettingsSource.bytesOf?`, `SettingsSource.textOf?` — what the environment sets the variable of a
  setting to.
* `SettingsSource.FileSays`, `SettingsSource.FileFails` — what a settings file says, and why it says
  nothing.
* `SettingsSource.MinutesFail` — the minutes of the environment are none.

## Main results

* `SettingsSource.integer?_eq_some_iff` — the texts of integers of 64 bits.
* `Setting.get_apply`, `Setting.get_applyEnvironment` — what each layer does to a setting.
* `SettingsSource.settings_are_layered` — all layers together.
* `SettingsSource.illegible_variables_and_ends_of_paths_are_dropped` — what is passed over.
-/

namespace DenialMonitor

/-- A text is blank if nothing is left without its blank ends. -/
theorem Text.trim_eq_empty_iff (s : String) : trim s = "" ↔ allBlank s.toList = true := by
  have hempty : trim s = "" ↔ trimChars s.toList = [] := by
    rw [trim, ← String.ofList_nil, String.ofList_inj]
  rw [hempty, trimChars, trimEnd, List.reverse_eq_nil_iff, List.dropWhile_eq_nil_iff, allBlank,
    List.all_eq_true]
  constructor
  · intro h c hc
    rw [← List.takeWhile_append_dropWhile (p := isBlank) (l := s.toList), List.mem_append] at hc
    rcases hc with hc | hc
    · exact List.mem_takeWhile_imp hc
    · exact h c (List.mem_reverse.mpr hc)
  · intro h c hc
    exact h c (List.dropWhile_subset _ (List.mem_reverse.mp hc))

/-- A variable has a text exactly if it is set to the bytes of the text. -/
theorem Environment.text?_eq_some_iff {e : Environment} {name text : String} :
    e.text? name = some text ↔ e.bytes? name = some (Utf8.encode text) := by
  simp [text?, Option.bind_eq_some_iff, Utf8.decode?_eq_some_iff]

/-- Texts are read back from the environment that is set to them. -/
theorem Environment.text?_ofTexts (texts : List (String × String)) (name : String) :
    (ofTexts texts).text? name = (texts.find? (·.1 = name)).map (·.2) := by
  rw [text?, bytes?, ofTexts, List.find?_map]
  simp only [Function.comp_def]
  cases texts.find? (·.1 = name) with
  | none => rfl
  | some v => exact Utf8.decode?_encode v.2

/-! ## Values -/

namespace SettingKind

/-- The values that a setting may have. -/
def Value : SettingKind → Type
  | .path | .name => String
  | .lifetime => Option Nat
  | .delay => Nat
  | .command => List String
  | .helper => Option String

/-- How long overrides stay, in milliseconds: for so many minutes, if it is a positive number, and
for no more seconds than 64 bits can count. -/
def lifetimeOf (minutes : Int) : Option Nat :=
  if minutes ≤ 0 then none else some (1000 * min (60 * minutes.toNat) (UInt64.size - 1))

theorem lifetimeOf_eq (minutes : Int) : lifetimeOf minutes = autoRevokeOfMinutes minutes := by
  unfold lifetimeOf autoRevokeOfMinutes autoRevokeSeconds maxWord
  by_cases hpos : 0 < minutes
  · rw [if_neg (by omega), if_pos hpos, Option.map_some, Nat.mul_comm]
  · rw [if_pos (by omega), if_neg hpos]
    rfl

/-- What the value of a key says. -/
def ofFile (home : String) : (k : SettingKind) → Toml.Value → Option k.Value
  | .path, .text p => some (Path.expandHome home p)
  | .lifetime, .integer n => some (lifetimeOf n)
  | .delay, .integer n => some n.toNat
  | .name, .text s => some s
  | .command, .texts ss => some ss
  | .helper, .text p => some (some (Path.expandHome home p))
  | _, _ => none

/-- What the value of a variable says. -/
def ofVariable : (k : SettingKind) → String → Option k.Value
  | .path, value => some value
  | .lifetime, value => (SettingsSource.integer? (Text.trimChars value.toList)).map lifetimeOf
  | .helper, value => some (if Text.allBlank value.toList then none else some value)
  | .delay, _ | .name, _ | .command, _ => none

end SettingKind

namespace Setting

/-- What the variable of a setting is called behind the beginning that all names share. -/
def environmentKey : Setting → Option String
  | .policyPath => some "POLICY_PATH"
  | .denialsPath => some "DENIALS_PATH"
  | .lastDenialPath => some "LAST_DENIAL_PATH"
  | .logPath => some "LOG_PATH"
  | .statePath => some "STATE_PATH"
  | .autoRevoke => some "AUTO_REVOKE_MINUTES"
  | .overrideHelper => some "OVERRIDE_HELPER"
  | _ => none

/-- The value of a setting. -/
def get (settings : Settings) : (x : Setting) → x.kind.Value
  | .policyPath => settings.paths.policy
  | .denialsPath => settings.paths.denials
  | .lastDenialPath => settings.paths.lastDenial
  | .logPath => settings.paths.log
  | .statePath => settings.paths.state
  | .autoRevoke => settings.autoRevoke
  | .rearmDelay => settings.rearmDelay
  | .rearmMaxDelay => settings.rearmMaxDelay
  | .tailPollInterval => settings.tailPollInterval
  | .outcomeTtl => settings.outcomeTtl
  | .restartSettle => settings.restartSettle
  | .processName => settings.daemon.processName
  | .restartCommand => settings.daemon.restartCommand
  | .overrideHelper => settings.daemon.overrideHelper

/-- The value of a setting from the text of its variable and the value of its key, where there are
such, and from the home directory. -/
def layered (x : Setting) (home : String) (variableText : Option String)
    (fileValue : Option Toml.Value) : Option x.kind.Value :=
  match variableText, fileValue with
  | some text, _ => x.kind.ofVariable text
  | none, some value => x.kind.ofFile home value
  | none, none => some (x.get (.ofPaths (.forHome home)))

end Setting

/-! ## The file -/

namespace SettingsSource

variable {s : SettingsSource} {d : Disk} {entries : List (String × Toml.Value)} {e : SettingsError}
  {f : SettingsFile}

/-- What the settings file says: the entries of the document that it holds, if they are well typed,
and nothing if it is missing and was not asked for. -/
inductive FileSays (s : SettingsSource) (d : Disk) : List (String × Toml.Value) → Prop where
  | missing (hfile : s.file = none) (hread : d.read s.filePath = .error .notFound) :
    FileSays s d []
  | document {bytes : List UInt8} {text : String} {entries : List (String × Toml.Value)}
    (hread : d.read s.filePath = .ok bytes) (htext : Utf8.decode? bytes = some text)
    (hentries : Toml.parse? text.toList = some entries) (htyped : WellTyped entries) :
    FileSays s d entries

/-- Why the settings file says nothing although it is there, or was asked for. -/
inductive FileFails (s : SettingsSource) (d : Disk) : SettingsError → Prop where
  | unreadable {cause : OsError} (hread : d.read s.filePath = .error cause)
    (hcause : cause ≠ .notFound ∨ s.file ≠ none) :
    FileFails s d (.unreadable s.filePath cause)
  | notUtf8 {bytes : List UInt8} (hread : d.read s.filePath = .ok bytes)
    (htext : Utf8.decode? bytes = none) :
    FileFails s d (.notUtf8 s.filePath)
  | malformed {bytes : List UInt8} {text : String} (hread : d.read s.filePath = .ok bytes)
    (htext : Utf8.decode? bytes = some text)
    (htyped : ∀ entries, Toml.parse? text.toList = some entries → ¬ WellTyped entries) :
    FileFails s d (.malformed s.filePath)

theorem says_of_readFile (h : s.readFile d = .ok f) :
    ∃ entries, s.FileSays d entries ∧ ∀ x, f.told? x = entries.lookup x.key := by
  unfold readFile at h
  split at h
  · next cause hread =>
    split at h
    · next hmissing =>
      cases h
      exact ⟨[], .missing hmissing.2 (hmissing.1 ▸ hread), SettingsFile.told?_empty⟩
    · cases h
  · next bytes hread =>
    split at h
    · cases h
    · next text htext =>
      split at h
      · cases h
      · next f' hparse =>
        cases h
        obtain ⟨entries, hentries, htyped, htold⟩ := SettingsFile.exists_entries_of_parse? hparse
        exact ⟨entries, .document hread htext hentries htyped, htold⟩

theorem fails_of_readFile (h : s.readFile d = .error e) : s.FileFails d e := by
  unfold readFile at h
  split at h
  · next cause hread =>
    split at h
    · cases h
    · next hfound =>
      cases h
      exact .unreadable hread (not_and_or.mp hfound)
  · next bytes hread =>
    split at h
    · next htext =>
      cases h
      exact .notUtf8 hread htext
    · next text htext =>
      split at h
      · next hparse =>
        cases h
        refine .malformed hread htext fun entries hentries htyped => ?_
        obtain ⟨f, hf⟩ := SettingsFile.exists_parse? hentries htyped
        rw [hparse] at hf
        cases hf
      · cases h

theorem exists_readFile_of_says (h : s.FileSays d entries) : ∃ f, s.readFile d = .ok f := by
  cases h with
  | missing hfile hread => exact ⟨.empty, by simp [readFile, hread, hfile]⟩
  | document hread htext hentries htyped =>
    obtain ⟨f, hf⟩ := SettingsFile.exists_parse? hentries htyped
    exact ⟨f, by simp [readFile, hread, htext, hf]⟩

theorem readFile_of_fails (h : s.FileFails d e) : s.readFile d = .error e := by
  cases h with
  | unreadable hread hcause => simp only [readFile, hread, if_neg (not_and_or.mpr hcause)]
  | notUtf8 hread htext => simp only [readFile, hread, htext]
  | @malformed bytes text hread htext htyped =>
    have hnone : SettingsFile.parse? text = none := by
      rw [Option.eq_none_iff_forall_ne_some]
      intro f hf
      obtain ⟨entries, hentries, hwell, -⟩ := SettingsFile.exists_entries_of_parse? hf
      exact htyped entries hentries hwell
    simp only [readFile, hread, htext, hnone]

theorem readFile_eq_error_iff : s.readFile d = .error e ↔ s.FileFails d e :=
  ⟨fails_of_readFile, readFile_of_fails⟩

/-! ## The environment -/

/-- A text of digits, at least one, with a sign or without, and the integer that it denotes. -/
inductive IsDecimal : List Char → Int → Prop where
  | plain {ds : List Char} (hne : ds ≠ []) (hds : ∀ c ∈ ds, c.isDigit = true) :
    IsDecimal ds (Nat.ofDigitChars 10 ds 0)
  | plus {ds : List Char} (hne : ds ≠ []) (hds : ∀ c ∈ ds, c.isDigit = true) :
    IsDecimal ('+' :: ds) (Nat.ofDigitChars 10 ds 0)
  | minus {ds : List Char} (hne : ds ≠ []) (hds : ∀ c ∈ ds, c.isDigit = true) :
    IsDecimal ('-' :: ds) (-Nat.ofDigitChars 10 ds 0)

/-- The texts of integers of 64 bits. -/
theorem integer?_eq_some_iff {cs : List Char} {n : Int} :
    integer? cs = some n ↔
      IsDecimal cs n ∧ Int64.minValue.toInt ≤ n ∧ n ≤ Int64.maxValue.toInt := by
  have natural (cs : List Char) (f : Nat → Int) :
      (if cs = [] ∨ (!cs.all (fun c => 0x30 ≤ c.toNat && c.toNat ≤ 0x39)) = true then none
        else some (cs.foldl (fun n c => 10 * n + (c.toNat - 0x30)) 0)).map f = some n ↔
      (cs ≠ [] ∧ ∀ c ∈ cs, c.isDigit = true) ∧ f (Nat.ofDigitChars 10 cs 0) = n := by
    have hall : cs.all (fun c => 0x30 ≤ c.toNat && c.toNat ≤ 0x39) = cs.all Char.isDigit := rfl
    have hvalue : cs.foldl (fun n c => 10 * n + (c.toNat - 0x30)) 0 = Nat.ofDigitChars 10 cs 0 := rfl
    rw [hall, hvalue]
    by_cases hcs : cs ≠ [] ∧ ∀ c ∈ cs, c.isDigit = true
    · rw [if_neg (by simpa using hcs), Option.map_some, Option.some_inj, and_iff_right hcs]
    · rw [if_pos (by simpa [-not_and, Classical.not_and_iff_not_or_not] using hcs)]
      simp [hcs]
  unfold integer?
  rw [Option.filter_eq_some_iff, Bool.and_eq_true, decide_eq_true_eq, decide_eq_true_eq]
  refine and_congr_left' ?_
  dsimp only
  split
  · next ds =>
    rw [natural]
    constructor
    · rintro ⟨⟨hne, hds⟩, rfl⟩
      exact .plus hne hds
    · intro h
      cases h with
      | plain hne hds => exact absurd (hds '+' List.mem_cons_self) (by decide)
      | plus hne hds => exact ⟨⟨hne, hds⟩, rfl⟩
  · next ds =>
    rw [natural]
    constructor
    · rintro ⟨⟨hne, hds⟩, rfl⟩
      exact .minus hne hds
    · intro h
      cases h with
      | plain hne hds => exact absurd (hds '-' List.mem_cons_self) (by decide)
      | minus hne hds => exact ⟨⟨hne, hds⟩, rfl⟩
  · next hplus hminus =>
    rw [natural]
    constructor
    · rintro ⟨⟨hne, hds⟩, rfl⟩
      exact .plain hne hds
    · intro h
      cases h with
      | plain hne hds => exact ⟨⟨hne, hds⟩, rfl⟩
      | plus hne hds => exact absurd rfl (hplus _)
      | minus hne hds => exact absurd rfl (hminus _)

/-- The variable for the lifetime of overrides holds no number. -/
inductive MinutesFail (s : SettingsSource) : SettingsError → Prop where
  | intro {value : String} (hvalue : s.valueOf? "AUTO_REVOKE_MINUTES" = some value)
    (hminutes : ∀ m, IsDecimal (Text.trimChars value.toList) m →
      ¬(Int64.minValue.toInt ≤ m ∧ m ≤ Int64.maxValue.toInt)) :
    MinutesFail s (.invalidMinutes (s.variableName "AUTO_REVOKE_MINUTES") value)

theorem autoRevoke_eq_error_iff (old : Option Nat) :
    s.autoRevoke old = .error e ↔ s.MinutesFail e := by
  constructor
  · intro h
    unfold autoRevoke at h
    split at h
    · cases h
    · next value hvalue =>
      split at h
      · cases h
      · next hnone =>
        cases h
        refine .intro hvalue fun m hm hword => ?_
        cases hnone.symm.trans (integer?_eq_some_iff.mpr ⟨hm, hword⟩)
  · rintro ⟨hvalue, hminutes⟩
    have hnone : integer? (Text.trimChars _) = none :=
      Option.eq_none_iff_forall_ne_some.mpr fun m hm =>
        hminutes m (integer?_eq_some_iff.mp hm).1 (integer?_eq_some_iff.mp hm).2
    simp only [autoRevoke, hvalue, hnone]

/-- The environment fails where it has no number of minutes, and nowhere else. -/
theorem applyEnvironment_eq_error_iff {old : Settings} :
    s.applyEnvironment old = .error e ↔ s.MinutesFail e := by
  rw [← autoRevoke_eq_error_iff old.autoRevoke, applyEnvironment]
  cases s.autoRevoke old.autoRevoke <;> simp [bind, Except.bind]

/-- The bytes that the variable of a setting is set to, if it has one and that is set. -/
def bytesOf? (s : SettingsSource) (x : Setting) : Option (List UInt8) :=
  x.environmentKey.bind fun key => s.environment.bytes? (s.variableName key)

/-- The text that the variable of a setting is set to, if it has one and that is set to a text. -/
def textOf? (s : SettingsSource) (x : Setting) : Option String :=
  x.environmentKey.bind s.valueOf?

/-- A variable has a text exactly if it is set to the bytes of the text. -/
theorem textOf?_eq_some_iff {x : Setting} {text : String} :
    s.textOf? x = some text ↔ s.bytesOf? x = some (Utf8.encode text) := by
  simp only [textOf?, bytesOf?, Option.bind_eq_some_iff, valueOf?, Environment.text?_eq_some_iff]

/-! What each of the variables says, by the kind of its setting. -/

theorem some_getD_valueOf? (s : SettingsSource) (key old : String) :
    some ((s.valueOf? key).getD old) =
      match s.valueOf? key with
      | some text => SettingKind.path.ofVariable text
      | none => some old := by
  cases s.valueOf? key <;> rfl

theorem some_overrideHelper (s : SettingsSource) (old : Option String) :
    some (s.overrideHelper old) =
      match s.valueOf? "OVERRIDE_HELPER" with
      | some text => SettingKind.helper.ofVariable text
      | none => some old := by
  unfold overrideHelper
  cases s.valueOf? "OVERRIDE_HELPER" with
  | none => rfl
  | some text =>
    simp only [Text.trim_eq_empty_iff]
    rfl

theorem some_eq_of_autoRevoke {old lifetime : Option Nat} (h : s.autoRevoke old = .ok lifetime) :
    some lifetime =
      match s.valueOf? "AUTO_REVOKE_MINUTES" with
      | some text => SettingKind.lifetime.ofVariable text
      | none => some old := by
  unfold autoRevoke at h
  cases hvalue : s.valueOf? "AUTO_REVOKE_MINUTES" with
  | none =>
    rw [hvalue] at h
    cases h
    rfl
  | some text =>
    rw [hvalue] at h
    cases hminutes : integer? (Text.trimChars text.toList) with
    | none => simp [hminutes] at h
    | some minutes =>
      simp only [hminutes, Except.ok.injEq] at h
      rw [← h, ← SettingKind.lifetimeOf_eq]
      simp only [SettingKind.ofVariable, hminutes]
      rfl

end SettingsSource

namespace Setting

variable {s : SettingsSource} {old settings : Settings}

/-- The file gives a setting the value of its key, and leaves the others as they are. -/
theorem get_apply (f : SettingsFile) (home : String) (old : Settings) (x : Setting) :
    some (x.get (f.apply home old)) =
      match f.told? x with
      | some value => x.kind.ofFile home value
      | none => some (x.get old) := by
  cases x <;> simp only [get, SettingsFile.apply, SettingsFile.told?]
  case policyPath => cases f.policyPath <;> rfl
  case denialsPath => cases f.denialsPath <;> rfl
  case lastDenialPath => cases f.lastDenialPath <;> rfl
  case logPath => cases f.logPath <;> rfl
  case statePath => cases f.statePath <;> rfl
  case autoRevoke =>
    cases f.autoRevokeMinutes with
    | none => rfl
    | some minutes => exact congrArg some (SettingKind.lifetimeOf_eq minutes).symm
  case rearmDelay => cases f.rearmDelayMs <;> rfl
  case rearmMaxDelay => cases f.rearmMaxDelayMs <;> rfl
  case tailPollInterval => cases f.tailPollIntervalMs <;> rfl
  case outcomeTtl => cases f.outcomeTtlMs <;> rfl
  case restartSettle => cases f.restartSettleMs <;> rfl
  case processName => cases f.daemonProcessName <;> rfl
  case restartCommand => cases f.restartCommand <;> rfl
  case overrideHelper => cases f.overrideHelper <;> rfl

/-- The environment gives a setting the value of its variable, and leaves the others as they are. -/
theorem get_applyEnvironment (h : s.applyEnvironment old = .ok settings) (x : Setting) :
    some (x.get settings) =
      match s.textOf? x with
      | some text => x.kind.ofVariable text
      | none => some (x.get old) := by
  unfold SettingsSource.applyEnvironment at h
  cases hlifetime : s.autoRevoke old.autoRevoke with
  | error e =>
    rw [hlifetime] at h
    cases h
  | ok lifetime =>
    rw [hlifetime] at h
    cases h
    cases x
    case autoRevoke => exact SettingsSource.some_eq_of_autoRevoke hlifetime
    case overrideHelper => exact s.some_overrideHelper old.daemon.overrideHelper
    case policyPath => exact s.some_getD_valueOf? "POLICY_PATH" old.paths.policy
    case denialsPath => exact s.some_getD_valueOf? "DENIALS_PATH" old.paths.denials
    case lastDenialPath => exact s.some_getD_valueOf? "LAST_DENIAL_PATH" old.paths.lastDenial
    case logPath => exact s.some_getD_valueOf? "LOG_PATH" old.paths.log
    case statePath => exact s.some_getD_valueOf? "STATE_PATH" old.paths.state
    all_goals rfl

end Setting

/-! ## All layers -/

namespace SettingsSource

variable {s : SettingsSource} {d : Disk} {entries entries' : List (String × Toml.Value)}
  {settings : Settings}

/-- A settings file says one thing only. -/
theorem FileSays.unique (h : s.FileSays d entries) (h' : s.FileSays d entries') :
    entries = entries' := by
  cases h with
  | missing hfile hread =>
    cases h' with
    | missing => rfl
    | document hread' => cases hread.symm.trans hread'
  | document hread htext hentries =>
    cases h' with
    | missing hfile hread' => cases hread.symm.trans hread'
    | document hread' htext' hentries' =>
      cases hread.symm.trans hread'
      cases htext.symm.trans htext'
      exact Option.some_inj.mp (hentries.symm.trans hentries')

/-- Loaded settings have the values that the variables, the file and the defaults give them. -/
theorem exists_layered_of_load (h : s.load d = .ok settings) :
    ∃ entries, s.FileSays d entries ∧ ∀ x : Setting,
      some (x.get settings) = x.layered s.home (s.textOf? x) (entries.lookup x.key) := by
  unfold load at h
  cases hfile : s.readFile d with
  | error e =>
    rw [hfile] at h
    cases h
  | ok f =>
    rw [hfile] at h
    obtain ⟨entries, hsays, htold⟩ := says_of_readFile hfile
    refine ⟨entries, hsays, fun x => ?_⟩
    rw [Setting.get_applyEnvironment h x]
    cases s.textOf? x with
    | some text => rfl
    | none =>
      dsimp only
      rw [Setting.get_apply, htold]
      cases entries.lookup x.key <;> rfl

/-- Loading fails as the file does, and where it does not, as the environment does. -/
theorem load_eq_error_iff {e : SettingsError} :
    s.load d = .error e ↔
      s.FileFails d e ∨ (∃ entries, s.FileSays d entries) ∧ s.MinutesFail e := by
  unfold load
  cases hfile : s.readFile d with
  | error e' =>
    have hnot : ¬ ∃ entries, s.FileSays d entries := by
      rintro ⟨entries, hsays⟩
      obtain ⟨f, hf⟩ := exists_readFile_of_says hsays
      rw [hfile] at hf
      cases hf
    rw [← readFile_eq_error_iff, hfile, or_iff_left (fun h => hnot h.1)]
    constructor <;> (intro h; cases h; rfl)
  | ok f =>
    obtain ⟨entries, hsays, -⟩ := says_of_readFile hfile
    have hnot : ¬ s.FileFails d e := by
      rw [← readFile_eq_error_iff, hfile]
      exact fun h => nomatch h
    rw [or_iff_right hnot, and_iff_right ⟨entries, hsays⟩]
    exact applyEnvironment_eq_error_iff

/-- Settings are loaded where neither the file nor the environment fails. -/
theorem exists_load_of_says (hfile : s.FileSays d entries) (hminutes : ∀ e, ¬ s.MinutesFail e) :
    ∃ settings, s.load d = .ok settings := by
  cases hload : s.load d with
  | ok settings => exact ⟨settings, rfl⟩
  | error e =>
    rcases load_eq_error_iff.mp hload with hfails | ⟨-, hfails⟩
    · obtain ⟨f, hf⟩ := exists_readFile_of_says hfile
      rw [readFile_of_fails hfails] at hf
      cases hf
    · exact absurd hfails (hminutes e)

/-- Where settings are loaded, each of them has the value of its variable if that is set to a text,
else the value of its key if the file has it, else its default. A variable that is set to other bytes
than those of a text says nothing. In a path of the file a first component `~` is replaced by the
home directory, and no other component is. Settings cannot be loaded exactly where there is a file
that cannot be read or is malformed, or the file is missing that was asked for, and else where the
minutes of the environment are a text that is no number. -/
theorem settings_are_layered (s : SettingsSource) (d : Disk) :
    (∀ settings, s.load d = .ok settings → ∃ entries, s.FileSays d entries ∧ ∀ x : Setting,
      some (x.get settings) = x.layered s.home (s.textOf? x) (entries.lookup x.key)) ∧
    (∀ x text, s.textOf? x = some text ↔ s.bytesOf? x = some (Utf8.encode text)) ∧
    (∀ p, if (Path.components p).head? = some "~" then
        Path.components (Path.expandHome s.home p) =
          Path.components s.home ++ (Path.components p).tail
      else Path.expandHome s.home p = p) ∧
    ∀ e, s.load d = .error e ↔
      s.FileFails d e ∨ (∃ entries, s.FileSays d entries) ∧ s.MinutesFail e := by
  refine ⟨fun settings => exists_layered_of_load, fun x text => textOf?_eq_some_iff, fun p => ?_,
    fun e => load_eq_error_iff⟩
  split
  · next htilde => exact Path.components_expandHome htilde
  · next hother => exact Path.expandHome_of_head?_ne hother

/-- Settings from the home directory `/home/u` and from an environment. -/
def ofHome (environment : Environment) : SettingsSource :=
  { home := "/home/u", file := none, variablePrefix := defaultPrefix, environment }

/-- Variables that override some of what a settings file says, and take its helper away. -/
def overridingTexts : List (String × String) :=
  [("ESGUARD_LOG_PATH", "~/guard.log"), ("ESGUARD_OVERRIDE_HELPER", " "),
    ("ESGUARD_AUTO_REVOKE_MINUTES", " +1 ")]

/-- Settings from an environment with these variables. -/
def overriding : SettingsSource :=
  ofHome overridingTexts

/-- The entries of the file that they override. -/
def overriddenEntries : List (String × Toml.Value) :=
  [("policy_path", .text "~//a/./p"), ("auto_revoke_minutes", .integer 9),
    ("rearm_delay_ms", .integer 250), ("override_helper", .text "~/h")]

/-- The text of that file. -/
def overriddenText : String :=
  "policy_path=\"~//a/./p\"\nauto_revoke_minutes=9\nrearm_delay_ms=250\noverride_helper=\"~/h\"\n"

/-- A disk with the file in the home directory. -/
def configured : Disk :=
  let directory := (Disk.empty.apply (.makeDirs "/home/u/.codex/es-guard")).1
  (directory.apply
    (.write "/home/u/.codex/es-guard/monitor.toml" (Utf8.encode overriddenText))).1

/-- The file is read, whatever the environment. -/
theorem says_overriddenEntries (e : Environment) :
    (ofHome e).FileSays configured overriddenEntries := by
  have hread : configured.read (ofHome e).filePath = .ok (Utf8.encode overriddenText) := by
    have hpath : (ofHome e).filePath = defaultFile "/home/u" := by
      simp only [filePath, ofHome, Option.getD_none]
    rw [hpath]
    decide +kernel
  refine .document hread (Utf8.decode?_encode overriddenText) (by decide +kernel) ?_
  refine ⟨by decide +kernel, ?_⟩
  simp only [overriddenEntries, List.forall_mem_cons]
  exact ⟨⟨.policyPath, rfl, rfl⟩, ⟨.autoRevoke, rfl, rfl⟩, ⟨.rearmDelay, rfl, rfl⟩,
    ⟨.overrideHelper, rfl, rfl⟩, by simp⟩

/-- The environment wins over the file and the file over the defaults, and only the file has paths
in the home directory. -/
theorem environment_overrides_file :
    ∃ settings, overriding.load configured = .ok settings ∧
      settings.paths.log = "~/guard.log" ∧ settings.daemon.overrideHelper = none ∧
      settings.autoRevoke = some 60000 ∧ settings.rearmDelay = 250 ∧
      settings.rearmMaxDelay = 8000 ∧
      Path.components settings.paths.policy = ["/", "home", "u", "a", "p"] := by
  have hvalue (key : String) : overriding.valueOf? key =
      (overridingTexts.find? (·.1 = overriding.variableName key)).map (·.2) :=
    Environment.text?_ofTexts overridingTexts _
  have hminutes : overriding.valueOf? "AUTO_REVOKE_MINUTES" = some " +1 " := by
    rw [hvalue]
    decide +kernel
  obtain ⟨settings, hload⟩ : ∃ settings, overriding.load configured = .ok settings := by
    refine exists_load_of_says (says_overriddenEntries _) fun e hfails => ?_
    have hone : integer? (Text.trimChars " +1 ".toList) = some 1 := by decide +kernel
    rw [← autoRevoke_eq_error_iff none, autoRevoke, hminutes] at hfails
    simp only [hone] at hfails
    cases hfails
  obtain ⟨hlayered, -, hhome, -⟩ := settings_are_layered overriding configured
  obtain ⟨entries, hsays, hget⟩ := hlayered settings hload
  cases hsays.unique (says_overriddenEntries _)
  have htext {x : Setting} {key : String} (hkey : x.environmentKey = some key) :
      overriding.textOf? x =
        (overridingTexts.find? (·.1 = overriding.variableName key)).map (·.2) := by
    rw [textOf?, hkey, Option.bind_some, hvalue]
  have hlog := hget .logPath
  have hhelper := hget .overrideHelper
  have hlifetime := hget .autoRevoke
  have hpolicy := hget .policyPath
  rw [htext rfl] at hlog hhelper hlifetime hpolicy
  have hcomponents := hhome "~//a/./p"
  rw [if_pos (by decide +kernel)] at hcomponents
  refine ⟨settings, hload, Option.some_inj.mp hlog, Option.some_inj.mp hhelper,
    Option.some_inj.mp hlifetime, Option.some_inj.mp (hget .rearmDelay),
    Option.some_inj.mp (hget .rearmMaxDelay), ?_⟩
  rw [show settings.paths.policy = Path.expandHome "/home/u" "~//a/./p" from
    Option.some_inj.mp hpolicy]
  exact hcomponents.trans (by decide +kernel)

/-- A path, and minutes, that are no texts. -/
def illegible : Environment :=
  ⟨[("ESGUARD_POLICY_PATH", [0x2F, 0xFF]), ("ESGUARD_AUTO_REVOKE_MINUTES", [0xFF])]⟩

/-- A variable that is set to bytes that are no text neither wins over the file nor makes loading
fail. And where a path of the file starts with `~`, slashes at its end are dropped. -/
theorem illegible_variables_and_ends_of_paths_are_dropped :
    (¬ ∀ (s : SettingsSource) (d : Disk) (settings : Settings) (bytes : List UInt8),
      s.load d = .ok settings → s.bytesOf? .policyPath = some bytes →
        bytes = Utf8.encode settings.paths.policy) ∧
    (¬ ∀ (s : SettingsSource) (d : Disk) (settings : Settings) (bytes : List UInt8),
      s.load d = .ok settings → s.bytesOf? .autoRevoke = some bytes →
        ∃ text minutes, bytes = Utf8.encode text ∧
          integer? (Text.trimChars text.toList) = some minutes) ∧
    ¬ ∀ home rest : String, Path.expandHome home ("~/" ++ rest) = home ++ "/" ++ rest := by
  obtain ⟨settings, hload⟩ : ∃ settings, (ofHome illegible).load configured = .ok settings := by
    refine exists_load_of_says (says_overriddenEntries _) fun e ⟨hvalue, _⟩ => ?_
    have hnone : (ofHome illegible).valueOf? "AUTO_REVOKE_MINUTES" = none := by decide +kernel
    rw [hnone] at hvalue
    cases hvalue
  refine ⟨fun h => ?_, fun h => ?_, fun h => ?_⟩
  · have hbytes := h _ _ settings [0x2F, 0xFF] hload rfl
    have hnone : Utf8.decode? [0x2F, 0xFF] = none := by decide +kernel
    rw [hbytes, Utf8.decode?_encode] at hnone
    cases hnone
  · obtain ⟨text, -, hbytes, -⟩ := h _ _ settings [0xFF] hload rfl
    have hnone : Utf8.decode? [0xFF] = none := by decide +kernel
    rw [hbytes, Utf8.decode?_encode] at hnone
    cases hnone
  · have hslash := h "/home/u" "h/"
    revert hslash
    decide +kernel

end SettingsSource

end DenialMonitor
