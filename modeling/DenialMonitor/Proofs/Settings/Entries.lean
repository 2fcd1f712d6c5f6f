import DenialMonitor.Settings.Load
import Mathlib.Logic.Function.Basic

set_option autoImplicit false

/-!
# The entries of a settings file

A settings file is a document in which each entry has the key of a setting and a value of the right
type, and no key occurs twice. The entries are taken up one by one; where one cannot be, the whole
file is malformed.

## Main definitions

* `SettingKind`, `Setting` — the settings with their keys.
* `WellTyped` — the entries that a settings file may have.
* `SettingsFile.told?` — what a file says of a setting.

## Main results

* `SettingsFile.exists_set?`, `SettingsFile.admits_of_set?` — when a key takes a value, and what is
  said then.
* `SettingsFile.exists_foldlM_set?`, `SettingsFile.wellTyped_of_foldlM_set?` — entries are taken up
  exactly if they are well typed.
* `SettingsFile.exists_entries_of_parse?`, `SettingsFile.exists_parse?` — the text of a file.
-/

namespace DenialMonitor

/-! ## Keys and types -/

/-- What a setting is. -/
inductive SettingKind where
  | path
  /-- How long overrides stay, in minutes. -/
  | lifetime
  /-- A time in milliseconds. -/
  | delay
  | name
  | command
  /-- The path of a program, if there is one. -/
  | helper
  deriving DecidableEq, Repr

namespace SettingKind

/-- Whether a key may have a value. The integers of a document are those of 64 bits, with a sign or
without; minutes have one, and times have none. -/
def admits : SettingKind → Toml.Value → Bool
  | .path, .text _ | .name, .text _ | .helper, .text _ => true
  | .command, .texts _ => true
  | .lifetime, .integer n => n ≤ Int64.maxValue.toInt
  | .delay, .integer n => 0 ≤ n
  | _, _ => false

end SettingKind

/-- The settings. -/
inductive Setting where
  | policyPath
  | denialsPath
  | lastDenialPath
  | logPath
  | statePath
  | autoRevoke
  | rearmDelay
  | rearmMaxDelay
  | tailPollInterval
  | outcomeTtl
  | restartSettle
  | processName
  | restartCommand
  | overrideHelper
  deriving DecidableEq, Repr

namespace Setting

/-- What a setting is. -/
def kind : Setting → SettingKind
  | .policyPath | .denialsPath | .lastDenialPath | .logPath | .statePath => .path
  | .autoRevoke => .lifetime
  | .rearmDelay | .rearmMaxDelay | .tailPollInterval | .outcomeTtl | .restartSettle => .delay
  | .processName => .name
  | .restartCommand => .command
  | .overrideHelper => .helper

/-- The key of a setting in the file. -/
def key : Setting → String
  | .policyPath => "policy_path"
  | .denialsPath => "denials_path"
  | .lastDenialPath => "last_denial_path"
  | .logPath => "log_path"
  | .statePath => "state_path"
  | .autoRevoke => "auto_revoke_minutes"
  | .rearmDelay => "rearm_delay_ms"
  | .rearmMaxDelay => "rearm_max_delay_ms"
  | .tailPollInterval => "tail_poll_interval_ms"
  | .outcomeTtl => "outcome_ttl_ms"
  | .restartSettle => "restart_settle_ms"
  | .processName => "daemon_process_name"
  | .restartCommand => "restart_command"
  | .overrideHelper => "override_helper"

theorem key_injective : Function.Injective key := by
  intro x y h
  cases x <;> cases y <;> first | rfl | exact absurd h (by decide)

end Setting

/-- The entries of a settings file: no key occurs twice, and each is that of a setting and has a
value for it. -/
structure WellTyped (entries : List (String × Toml.Value)) : Prop where
  nodup : (entries.map (·.1)).Nodup
  known : ∀ e ∈ entries, ∃ x : Setting, x.key = e.1 ∧ x.kind.admits e.2 = true

/-! ## Taking up entries -/

namespace SettingsFile

variable {f f' : SettingsFile} {key : String} {value : Toml.Value}
  {entries : List (String × Toml.Value)}

/-- What a file says of a setting. -/
def told? (f : SettingsFile) : Setting → Option Toml.Value
  | .policyPath => f.policyPath.map .text
  | .denialsPath => f.denialsPath.map .text
  | .lastDenialPath => f.lastDenialPath.map .text
  | .logPath => f.logPath.map .text
  | .statePath => f.statePath.map .text
  | .autoRevoke => f.autoRevokeMinutes.map .integer
  | .rearmDelay => f.rearmDelayMs.map fun n => .integer (.ofNat n)
  | .rearmMaxDelay => f.rearmMaxDelayMs.map fun n => .integer (.ofNat n)
  | .tailPollInterval => f.tailPollIntervalMs.map fun n => .integer (.ofNat n)
  | .outcomeTtl => f.outcomeTtlMs.map fun n => .integer (.ofNat n)
  | .restartSettle => f.restartSettleMs.map fun n => .integer (.ofNat n)
  | .processName => f.daemonProcessName.map .text
  | .restartCommand => f.restartCommand.map .texts
  | .overrideHelper => f.overrideHelper.map .text

theorem told?_empty (x : Setting) : empty.told? x = none := by
  cases x <;> rfl

/-- A key that has no value yet takes one, and no other key is touched. -/
theorem exists_set? (x : Setting) (hvalue : x.kind.admits value = true) (hnone : f.told? x = none) :
    ∃ f', f.set? x.key value = some f' ∧ f'.told? = Function.update f.told? x (some value) := by
  suffices h : ∃ f', f.set? x.key value = some f' ∧
      ∀ y, f'.told? y = Function.update f.told? x (some value) y by
    obtain ⟨f', hset, htold⟩ := h
    exact ⟨f', hset, funext htold⟩
  -- a value of another type is not admitted
  cases x <;> cases value <;> (try cases hvalue) <;>
    simp only [told?, Option.map_eq_none_iff] at hnone
  case autoRevoke.integer n =>
    have hn : n ≤ Int64.maxValue.toInt := of_decide_eq_true hvalue
    refine ⟨_, by simp only [set?, Setting.key, hnone, if_pos hn]; rfl, fun y => ?_⟩
    cases y <;> rfl
  case rearmDelay.integer n | rearmMaxDelay.integer n | tailPollInterval.integer n |
      outcomeTtl.integer n | restartSettle.integer n =>
    cases n with
    | ofNat n =>
      refine ⟨_, by simp only [set?, Setting.key, hnone]; rfl, fun y => ?_⟩
      cases y <;> rfl
    | negSucc n => cases hvalue
  all_goals
    refine ⟨_, by simp only [set?, Setting.key, hnone]; rfl, fun y => ?_⟩
    cases y <;> rfl

/-- A key takes a value only if it is that of a setting, the value is one for it, and it has none
yet. -/
theorem admits_of_set? (h : f.set? key value = some f') :
    ∃ x : Setting, x.key = key ∧ x.kind.admits value = true ∧ f.told? x = none := by
  have once {α : Type} {old : Option α} {next : SettingsFile}
      (h : (if old.isNone then some next else none) = some f') : old = none := by
    cases old with
    | none => rfl
    | some a => cases h
  unfold set? at h
  split at h
  case h_1 => exact ⟨.policyPath, rfl, rfl, by simp [told?, once h]⟩
  case h_2 => exact ⟨.denialsPath, rfl, rfl, by simp [told?, once h]⟩
  case h_3 => exact ⟨.lastDenialPath, rfl, rfl, by simp [told?, once h]⟩
  case h_4 => exact ⟨.logPath, rfl, rfl, by simp [told?, once h]⟩
  case h_5 => exact ⟨.statePath, rfl, rfl, by simp [told?, once h]⟩
  case h_6 n =>
    split at h
    · next hn => exact ⟨.autoRevoke, rfl, decide_eq_true hn, by simp [told?, once h]⟩
    · cases h
  case h_7 => exact ⟨.rearmDelay, rfl, rfl, by simp [told?, once h]⟩
  case h_8 => exact ⟨.rearmMaxDelay, rfl, rfl, by simp [told?, once h]⟩
  case h_9 => exact ⟨.tailPollInterval, rfl, rfl, by simp [told?, once h]⟩
  case h_10 => exact ⟨.outcomeTtl, rfl, rfl, by simp [told?, once h]⟩
  case h_11 => exact ⟨.restartSettle, rfl, rfl, by simp [told?, once h]⟩
  case h_12 => exact ⟨.processName, rfl, rfl, by simp [told?, once h]⟩
  case h_13 => exact ⟨.restartCommand, rfl, rfl, by simp [told?, once h]⟩
  case h_14 => exact ⟨.overrideHelper, rfl, rfl, by simp [told?, once h]⟩
  case h_15 => cases h

/-- Well-typed entries for keys that have no values yet are all taken up. -/
theorem exists_foldlM_set? (h : WellTyped entries)
    (hnone : ∀ e ∈ entries, ∀ x : Setting, x.key = e.1 → f.told? x = none) :
    ∃ f', entries.foldlM (fun f e => f.set? e.1 e.2) f = some f' ∧
      ∀ x, f'.told? x = (entries.lookup x.key).or (f.told? x) := by
  induction entries generalizing f with
  | nil => exact ⟨f, rfl, fun x => rfl⟩
  | cons e es ih =>
    obtain ⟨hfresh, hnodup⟩ := List.nodup_cons.mp h.nodup
    obtain ⟨x₀, hx₀, hvalue⟩ := h.known e List.mem_cons_self
    obtain ⟨f₁, hset, htold⟩ := exists_set? x₀ hvalue (hnone e List.mem_cons_self x₀ hx₀)
    have hother {e' : String × Toml.Value} (he' : e' ∈ es) {x : Setting} (hx : x.key = e'.1) :
        x ≠ x₀ := by
      rintro rfl
      exact hfresh (List.mem_map.mpr ⟨e', he', hx.symm.trans hx₀⟩)
    obtain ⟨f', hfold, hf'⟩ := ih ⟨hnodup, fun e' he' => h.known e' (List.mem_cons_of_mem _ he')⟩
      fun e' he' x hx => by
        rw [htold, Function.update_of_ne (hother he' hx)]
        exact hnone e' (List.mem_cons_of_mem _ he') x hx
    refine ⟨f', ?_, fun x => ?_⟩
    · rw [List.foldlM_cons, ← hx₀, hset]
      exact hfold
    · rw [hf', htold, List.lookup_cons]
      by_cases hx : x = x₀
      · have hlookup : es.lookup x₀.key = none := by
          rw [List.lookup_eq_none_iff]
          intro e' he'
          simpa using fun heq => hother he' heq rfl
        rw [hx, Function.update_self, hlookup, hx₀, beq_self_eq_true]
        rfl
      · have hkey : (x.key == e.1) = false := by
          rw [← hx₀]
          simpa using fun heq => hx (Setting.key_injective heq)
        rw [Function.update_of_ne hx, hkey]

/-- Only well-typed entries are all taken up, and only for keys that had no values. -/
theorem wellTyped_of_foldlM_set?
    (h : entries.foldlM (fun f e => f.set? e.1 e.2) f = some f') :
    WellTyped entries ∧ ∀ e ∈ entries, ∀ x : Setting, x.key = e.1 → f.told? x = none := by
  induction entries generalizing f with
  | nil => exact ⟨⟨List.nodup_nil, by simp⟩, by simp⟩
  | cons e es ih =>
    rw [List.foldlM_cons] at h
    obtain ⟨f₁, hset, hfold⟩ := Option.bind_eq_some_iff.mp h
    obtain ⟨x₀, hx₀, hvalue, hnone⟩ := admits_of_set? hset
    obtain ⟨f₂, hset₂, htold⟩ := exists_set? x₀ hvalue hnone
    rw [hx₀, hset] at hset₂
    cases hset₂
    obtain ⟨hes, hesNone⟩ := ih hfold
    refine ⟨⟨List.nodup_cons.mpr ⟨fun hmem => ?_, hes.nodup⟩, ?_⟩, ?_⟩
    · -- the key has a value by now
      obtain ⟨e', he', heq⟩ := List.mem_map.mp hmem
      have hnone' := hesNone e' he' x₀ (hx₀.trans heq.symm)
      rw [htold, Function.update_self] at hnone'
      cases hnone'
    · exact List.forall_mem_cons.mpr ⟨⟨x₀, hx₀, hvalue⟩, hes.known⟩
    · refine List.forall_mem_cons.mpr ⟨fun x hx => ?_, fun e' he' x hx => ?_⟩
      · rw [Setting.key_injective (hx.trans hx₀.symm)]
        exact hnone
      · have hnone' := hesNone e' he' x hx
        by_cases heq : x = x₀
        · rw [heq]
          exact hnone
        · rwa [htold, Function.update_of_ne heq] at hnone'

/-- A file whose text can be taken up says what the entries of the document say. -/
theorem exists_entries_of_parse? {text : String} (h : parse? text = some f) :
    ∃ entries, Toml.parse? text.toList = some entries ∧ WellTyped entries ∧
      ∀ x, f.told? x = entries.lookup x.key := by
  obtain ⟨entries, hentries, hfold⟩ := Option.bind_eq_some_iff.mp h
  have htyped := (wellTyped_of_foldlM_set? hfold).1
  obtain ⟨f', hfold', htold⟩ := exists_foldlM_set? htyped fun e he x hx => told?_empty x
  rw [hfold] at hfold'
  cases hfold'
  exact ⟨entries, hentries, htyped, fun x => by rw [htold, told?_empty, Option.or_none]⟩

/-- A document with well-typed entries can be taken up. -/
theorem exists_parse? {text : String} (hentries : Toml.parse? text.toList = some entries)
    (h : WellTyped entries) : ∃ f, parse? text = some f := by
  obtain ⟨f, hfold, -⟩ := exists_foldlM_set? (f := empty) h fun e he x hx => told?_empty x
  exact ⟨f, by rw [parse?, hentries]; exact hfold⟩

end SettingsFile

end DenialMonitor
