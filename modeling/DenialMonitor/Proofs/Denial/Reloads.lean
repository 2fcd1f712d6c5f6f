import DenialMonitor.Denial.Log
import Mathlib.Data.List.Induction

set_option autoImplicit false

/-!
# Histories of reloads

The denial log is read again and again while its producer works on it, and what a reload remembers
of the ones before is a single number: how many records the last window had. A record is announced
when the window has more records than that. So an announcement is about a new record as long as the
producer puts new records in front of those that it keeps. A producer that takes records out of the
file and puts them back makes them look new.

## Main definitions

* `DenialLog.reloadAll` — what a list of reloads leaves.
* `DenialLog.lastRead?` — what the last reload that could read the file has read.
* `DenialLog.shownIds` — the identities of all records that have been in a window.
* `DenialLog.BuildsOn` — new records stand in front of records of the last window.

## Main results

* `DenialLog.reload_eq_some_iff` — when a record is announced.
* `DenialLog.announced_iff_newest_of_grown` — when the record is one that was in a window before.
* `DenialLog.restored_record_is_announced` — a record that was taken out and put back is.
-/

namespace DenialMonitor.DenialLog

/-- What the reloads leave that find the given contents, `none` where the file cannot be read. -/
def reloadAll (log : DenialLog) (contents : List (Option (List UInt8))) : DenialLog :=
  contents.foldl (fun log content => (log.reload content).2) log

/-- What the last reload that could read the file has read. -/
def lastRead? (contents : List (Option (List UInt8))) : Option (List UInt8) :=
  (contents.filterMap id).getLast?

/-- The identities of all records that have been in a window. -/
def shownIds (contents : List (Option (List UInt8))) : List RecordId :=
  (contents.filterMap id).flatMap fun content => (window content).map (·.id)

/-- A window consists of records with identities that are not `shown`, in front of records of the
last window, of which some may be gone. -/
def BuildsOn (shown : List RecordId) (last now : List DenialRecord) : Prop :=
  ∃ new kept, now = new ++ kept ∧ kept.Sublist last ∧ ∀ r ∈ new, r.id ∉ shown

variable {before contents : List (Option (List UInt8))} {content : Option (List UInt8)}
  {now last : List UInt8} {r : DenialRecord}

theorem reloadAll_append (log : DenialLog) (before after : List (Option (List UInt8))) :
    log.reloadAll (before ++ after) = (log.reloadAll before).reloadAll after :=
  List.foldl_append

/-! ## What a reload remembers -/

theorem known_reload (log : DenialLog) (content : Option (List UInt8)) :
    (log.reload content).2.known =
      (content.map fun bytes => (window bytes).length).or log.known := by
  cases content <;> rfl

/-- All that is remembered of a list of reloads is the number of records that the last one has found
which could read the file. -/
theorem known_reloadAll (contents : List (Option (List UInt8))) :
    (empty.reloadAll contents).known =
      (lastRead? contents).map fun bytes => (window bytes).length := by
  induction contents using List.reverseRecOn with
  | nil => rfl
  | append_singleton before content ih =>
    rw [reloadAll_append]
    show ((empty.reloadAll before).reload content).2.known = _
    rw [known_reload, ih]
    cases content <;> simp [lastRead?, List.filterMap_append]

/-- A reload announces a record if and only if an earlier one could read the file and found fewer
records, and then it is the newest record. -/
theorem reload_eq_some_iff :
    ((empty.reloadAll before).reload content).1 = some r ↔
      ∃ now last, content = some now ∧ lastRead? before = some last ∧
        (window last).length < (window now).length ∧ (window now).head? = some r := by
  cases content with
  | none => simp [reload]
  | some now =>
    simp only [reload, known_reloadAll, Option.some.injEq, exists_and_left, exists_eq_left']
    cases lastRead? before with
    | none => simp
    | some last =>
      by_cases hgrown : (window last).length < (window now).length <;> simp [hgrown]

theorem reload_of_lastRead?_eq_none (h : lastRead? before = none) :
    ((empty.reloadAll before).reload content).1 = none := by
  rw [Option.eq_none_iff_forall_ne_some]
  intro r harrival
  obtain ⟨_, _, -, hlast, -⟩ := reload_eq_some_iff.mp harrival
  simp [h] at hlast

/-- A window that builds on the last one has grown only where it has a new record in front. -/
theorem BuildsOn.newest_not_mem {shown : List RecordId} {last now : List DenialRecord}
    (h : BuildsOn shown last now) (hgrown : last.length < now.length) (hr : now.head? = some r) :
    r.id ∉ shown := by
  obtain ⟨new, kept, rfl, hkept, hnew⟩ := h
  cases new with
  | nil => exact absurd hkept.length_le (Nat.not_le.mpr hgrown)
  | cons x new =>
    obtain rfl : x = r := by simpa using hr
    exact hnew x (by simp)

/-- **When a record is announced.** Whatever happens to the file between the reloads, a reload
announces a record if and only if an earlier one could read the file, the last such one has found
fewer records, and the record is the newest one now. So it announces one whose identity has been in a
window before exactly where the window has grown and that record is in front of it. It does not where
the window builds on the last one: where records with new identities stand in front of what is left
of the last window. -/
theorem announced_iff_newest_of_grown (before : List (Option (List UInt8)))
    (content : Option (List UInt8)) (r : DenialRecord) :
    let arrival := ((empty.reloadAll before).reload content).1
    (arrival = some r ↔ ∃ now last, content = some now ∧ lastRead? before = some last ∧
      (window last).length < (window now).length ∧ (window now).head? = some r) ∧
    ((∃ now last, content = some now ∧ lastRead? before = some last ∧
        BuildsOn (shownIds before) (window last) (window now)) →
      arrival = some r → r.id ∉ shownIds before) := by
  refine ⟨reload_eq_some_iff, ?_⟩
  rintro ⟨now, last, rfl, hlast, hbuilds⟩ harrival
  obtain ⟨_, _, ⟨⟩, hlast', hgrown, hnewest⟩ := reload_eq_some_iff.mp harrival
  obtain rfl := Option.some.inj (hlast.symm.trans hlast')
  exact hbuilds.newest_not_mem hgrown hnewest

/-- A denial log that holds the deletions of `path` at the given times, a line for each. -/
def deletionsOf (path : String) (times : List Int64) : List UInt8 :=
  times.flatMap fun ts =>
    Utf8.encode (DenialRecord.text ⟨ts, .delete, path, none, "/work/", "rm", "codex"⟩) ++ [0x0A]

/-- The producer adds a second denial. It is announced, and it is not the one shown before. -/
theorem second_denial_is_new :
    let before := [some (deletionsOf "/work/a" [1])]
    let content := some (deletionsOf "/work/a" [1, 2])
    let r : DenialRecord := ⟨2, .delete, "/work/a", none, "/work/", "rm", "codex"⟩
    ((empty.reloadAll before).reload content).1 = some r ∧ r.id ∉ shownIds before := by
  intro before content r
  obtain ⟨hannounced, hnew⟩ := announced_iff_newest_of_grown before content r
  have hlast : window (deletionsOf "/work/a" [1]) = [{ r with ts := 1 }] := by decide +kernel
  have hnow : window (deletionsOf "/work/a" [1, 2]) = [r, { r with ts := 1 }] := by decide +kernel
  have hread : lastRead? before = some (deletionsOf "/work/a" [1]) := rfl
  have harrival : ((empty.reloadAll before).reload content).1 = some r :=
    hannounced.mpr ⟨_, _, rfl, hread, by rw [hlast, hnow]; decide, by rw [hnow]; rfl⟩
  have hbuilds : BuildsOn (shownIds before) (window (deletionsOf "/work/a" [1]))
      (window (deletionsOf "/work/a" [1, 2])) := by
    have hshown : shownIds before = [({ r with ts := 1 } : DenialRecord).id] := by
      simp [shownIds, before, hlast]
    rw [hlast, hnow, hshown]
    exact ⟨[r], _, rfl, List.Sublist.refl _, by decide +kernel⟩
  exact ⟨harrival, hnew ⟨_, _, rfl, hread, hbuilds⟩ harrival⟩

/-- The producer empties the file, a reload sees that, and it writes back what has been there: then
the old record is announced as a new one. -/
theorem restored_record_is_announced :
    let before := [some (deletionsOf "/work/a" [1]), some []]
    ¬ ∀ r, ((empty.reloadAll before).reload (some (deletionsOf "/work/a" [1]))).1 = some r →
      r.id ∉ shownIds before := by
  intro before h
  exact h ⟨1, .delete, "/work/a", none, "/work/", "rm", "codex"⟩ (by decide +kernel)
    (by decide +kernel)

end DenialMonitor.DenialLog
