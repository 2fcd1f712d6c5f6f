import DenialMonitor.Proofs.Acknowledgement.StateFile
import DenialMonitor.Proofs.Denial.Identity
import DenialMonitor.Proofs.Overrides.Document
import DenialMonitor.Proofs.View.Publication

set_option autoImplicit false

/-!
# Acknowledgements over restarts

A monitor remembers the record of which its user took note last, and what it starts with is what the
state file holds. Only two kinds of documents are written by a monitor. So while nobody else changes
the state file, it holds the identity that was saved last, by whichever monitor that was, and the next
monitor starts with it.

## Main definitions

* `Monitor.noted?`, `Monitor.saved?` — the identity of which an action takes note, and the one that it
  stores; `Monitor.gather` lists them for a run.
* `Lifetime` — a monitor from its start on; `Lifetime.after` tells what lifetimes leave behind, and
  `Lifetime.saved` what they have stored.
* `Lifetime.Spare` — nobody else changes the state file in lifetimes.

## Main results

* `Monitor.Regular.stored_act` — what the state file holds after an action.
* `Lifetime.acknowledgement_survives_restarts` — what is unacknowledged after lifetimes that follow one
  another.
* `Lifetime.acknowledgement_is_for_one_record` — an acknowledgement does not count for another record.
-/

namespace DenialMonitor

open Acknowledgement (Stored)

/-- The state file is neither the policy file nor the temporary file of that. -/
def MonitorPaths.StateDistinct (paths : MonitorPaths) : Prop :=
  Path.Distinct paths.state paths.policy ∧
    Path.Distinct paths.state (AtomicWrite.temporary paths.policy)

instance (paths : MonitorPaths) : Decidable paths.StateDistinct :=
  inferInstanceAs (Decidable (_ ∧ _))

/-- Where files are not changed by others, and no acknowledgement is stored, a document that has
another place than the policy file and its temporary file is kept. -/
theorem Ledger.keepsFile_perform {l : Ledger} {d : Deed} {p : String} (hallow : l.Allows d)
    (hfiles : ∀ disk, d ≠ .files disk) (hp : Path.Distinct p l.store.path)
    (hp' : Path.Distinct p (AtomicWrite.temporary l.store.path)) :
    l.disk.KeepsFile (l.perform d).disk p := by
  rcases disk_perform hallow with hdisk | hdisk | ⟨content, hdisk⟩
  · exact absurd hdisk (hfiles _)
  · rw [hdisk]
    exact .refl _ _
  · rw [hdisk]
    exact Disk.keepsFile_writeAtomically_of_distinct hp hp'

namespace Monitor

variable {m : Monitor} {a : Action} {id : RecordId} {x : Option RecordId}

/-! ## What a run takes note of -/

/-- The identity of the record of which the user takes note in an action. -/
def noted? (m : Monitor) (a : Action) : Option RecordId :=
  match m.news a with
  | .acknowledge => m.engine.log.records.head?.map (·.id)
  | _ => none

/-- The identity that an action stores for the next start. -/
def saved? (m : Monitor) (a : Action) : Option RecordId :=
  (m.noted? a).bind (Acknowledgement.written? m.around.disk m.settings.paths.state)

/-- The identities that the actions of a run bring, in their order. -/
def gather (f : Monitor → Action → Option RecordId) : Monitor → List Action → List RecordId
  | _, [] => []
  | m, a :: actions => (f m a).toList ++ gather f (m.act a) actions

/-- The last identity that a run brings, or one from before. -/
theorem getLast?_gather_cons (f : Monitor → Action → Option RecordId) (m : Monitor) (a : Action)
    (actions : List Action) (x : Option RecordId) :
    (gather f m (a :: actions)).getLast?.or x =
      (gather f (m.act a) actions).getLast?.or ((f m a).or x) := by
  have htoList (o : Option RecordId) : o.toList.getLast? = o := by cases o <;> rfl
  rw [gather, List.getLast?_append, htoList, Option.or_assoc]

/-- An action that takes note of a record makes it the acknowledged one; the others leave that as it
is. -/
theorem acknowledged_act_eq (m : Monitor) (a : Action) :
    (m.act a).engine.acknowledged = (m.noted? a).or m.engine.acknowledged := by
  have hfront : (m.act a).engine.acknowledged = (m.front.take (m.news a)).acknowledged :=
    congrArg Front.acknowledged (front_act m a)
  have hrecords : m.front.log.records = m.engine.log.records := rfl
  rw [hfront, noted?]
  cases m.news a with
  | acknowledge =>
    simp only [Front.take, hrecords]
    cases m.engine.log.records.head? <;> rfl
  | _ => rfl

theorem acknowledged_actAll (m : Monitor) (actions : List Action) :
    (m.actAll actions).engine.acknowledged =
      (gather noted? m actions).getLast?.or m.engine.acknowledged := by
  induction actions generalizing m with
  | nil => rfl
  | cons a actions ih => rw [actAll_cons, ih, acknowledged_act_eq, getLast?_gather_cons]

/-- A user takes note of a record by asking for it. The identity is saved then. -/
theorem deed_of_noted? (h : m.noted? a = some id) :
    m.deed a = .files (Acknowledgement.save m.around.disk m.settings.paths.state id).1 := by
  have hnews : m.news a = .acknowledge := by
    unfold noted? at h
    split at h
    · assumption
    · cases h
  obtain ⟨rfl, hrequest⟩ := taken_of_news_eq_acknowledge hnews
  rw [noted?, hnews] at h
  obtain ⟨newest, hnewest, rfl⟩ := Option.map_eq_some_iff.mp h
  cases hrequests : m.requests with
  | nil => simp [hrequests] at hrequest
  | cons request rest =>
    obtain ⟨t, r⟩ := request
    obtain rfl : r = .acknowledge := by simpa [hrequests] using hrequest
    simp only [deed, hrequests, requestDeed, hnewest]

/-- Files are changed by others, and where the user takes note of a record. -/
theorem noted?_of_deed_eq_files {disk : Disk} (h : m.deed a = .files disk) :
    (∃ c, a = .change c) ∨ ∃ id, m.noted? a = some id := by
  rcases files_of_deed h with ⟨c, rfl, -⟩ | ⟨t, rest, newest, rfl, hrequests, hnewest, -⟩
  · exact .inl ⟨c, rfl⟩
  · exact .inr ⟨newest.id, by simp [noted?, news, hrequests, requestNews, hnewest]⟩

/-! ## What the state file holds -/

/-- Someone else who changes files leaves the state file alone. -/
def SparesState (m : Monitor) : Action → Prop
  | .change c => m.around.disk.Spares (m.around.disk.apply c).1 m.settings.paths.state
  | _ => True

instance (m : Monitor) : ∀ a, Decidable (m.SparesState a)
  | .change c =>
    inferInstanceAs (Decidable
      (m.around.disk.Spares (m.around.disk.apply c).1 m.settings.paths.state))
  | .refuseWatches _ | .signal _ _ | .send _ | .release | .pass _ | .finish _ _ | .runWatch _ _
  | .runReader _ | .fireExpiry _ | .fireOutcome _ | .endWait _ | .takeRequest | .takeEvent
  | .retire => inferInstanceAs (Decidable True)

/-- After an action the state file holds the identity that the action stores, or the one that it held
before.

**Proof sketch.** An action changes the disk as its deed does. A user who takes note of a record has its
identity saved, which stores it or fails. Nobody else writes the state file, and an edit of the policy
writes another one. -/
theorem Regular.stored_act (h : m.Regular) (hdistinct : m.settings.paths.StateDistinct)
    (hspares : m.SparesState a) (hx : Stored m.around.disk m.settings.paths.state x) :
    Stored (m.act a).around.disk m.settings.paths.state ((m.saved? a).or x) := by
  have hdisk : (m.act a).around.disk = (m.ledger.perform (m.deed a)).disk :=
    congrArg Ledger.disk (ledger_act m a)
  rw [hdisk]
  cases hnoted : m.noted? a with
  | some id =>
    have hperform (disk : Disk) : (m.ledger.perform (.files disk)).disk = disk := rfl
    rw [saved?, hnoted, Option.bind_some, deed_of_noted? hnoted, hperform]
    exact hx.save id
  | none =>
    rw [saved?, hnoted, Option.bind_none, Option.none_or]
    refine hx.of_spares ?_
    by_cases hfiles : ∃ disk, m.deed a = .files disk
    · obtain ⟨disk, hfiles⟩ := hfiles
      rcases noted?_of_deed_eq_files hfiles with ⟨c, rfl⟩ | ⟨id, hid⟩
      · exact hspares
      · rw [hnoted] at hid
        cases hid
    · have hpath : m.ledger.store.path = m.settings.paths.policy := h.path_eq
      refine (Ledger.keepsFile_perform (allows_deed m a) (fun disk hd => hfiles ⟨disk, hd⟩) ?_ ?_).spares
      · rw [hpath]
        exact hdistinct.1
      · rw [hpath]
        exact hdistinct.2

theorem Regular.stored_actAll (h : m.Regular) (hdistinct : m.settings.paths.StateDistinct)
    {actions : List Action} (hspares : Along SparesState m actions)
    (hx : Stored m.around.disk m.settings.paths.state x) :
    Stored (m.actAll actions).around.disk m.settings.paths.state
      ((gather saved? m actions).getLast?.or x) := by
  induction actions generalizing m x with
  | nil => exact hx
  | cons a actions ih =>
    rw [actAll_cons, getLast?_gather_cons, ← settings_act m a]
    refine ih (h.act a) (by rwa [settings_act]) hspares.2 ?_
    rw [settings_act]
    exact h.stored_act hdistinct hspares.1 hx

end Monitor

/-! ## Lifetimes -/

/-- A monitor from its start on. -/
structure Lifetime where
  settings : Settings
  daemonRuns : Bool
  actions : List Action

namespace Lifetime

variable {paths : MonitorPaths} {around : Surroundings} {x : Option RecordId}

/-- The monitor at its start. -/
def born (l : Lifetime) (around : Surroundings) : Monitor :=
  Monitor.start l.settings around l.daemonRuns

/-- The monitor after its last action. -/
def died (l : Lifetime) (around : Surroundings) : Monitor :=
  (l.born around).actAll l.actions

/-- The identities of which the user took note in a lifetime, in their order. -/
def noted (l : Lifetime) (around : Surroundings) : List RecordId :=
  Monitor.gather Monitor.noted? (l.born around) l.actions

/-- The surroundings that lifetimes leave behind which follow one another. -/
def after : Surroundings → List Lifetime → Surroundings
  | around, [] => around
  | around, l :: ls => after (l.died around).around ls

/-- The identities that lifetimes have stored, in their order. -/
def saved : Surroundings → List Lifetime → List RecordId
  | _, [] => []
  | around, l :: ls =>
    Monitor.gather Monitor.saved? (l.born around) l.actions ++ saved (l.died around).around ls

/-- All lifetimes have the same files, and only monitors write the state file. -/
def Spare (paths : MonitorPaths) : Surroundings → List Lifetime → Prop
  | _, [] => True
  | around, l :: ls => l.settings.paths = paths ∧
      Monitor.Along Monitor.SparesState (l.born around) l.actions ∧
      Spare paths (l.died around).around ls

instance Spare.decidable (paths : MonitorPaths) :
    ∀ around ls, Decidable (Spare paths around ls)
  | _, [] => inferInstanceAs (Decidable True)
  | around, l :: ls =>
    have := Spare.decidable paths (l.died around).around ls
    inferInstanceAs (Decidable (_ ∧ _ ∧ Spare paths (l.died around).around ls))

theorem regular_born (l : Lifetime) (around : Surroundings) :
    (l.born around).Regular ∧ (l.born around).settings = l.settings := by
  have hrun := Monitor.regular_actAll_start l.settings around l.daemonRuns []
  rwa [Monitor.actAll_nil] at hrun

theorem regular_died (l : Lifetime) (around : Surroundings) :
    (l.died around).Regular ∧ (l.died around).settings = l.settings :=
  Monitor.regular_actAll_start l.settings around l.daemonRuns l.actions

theorem disk_born (l : Lifetime) (around : Surroundings) :
    (l.born around).around.disk = around.disk := by
  have hdisk (m : Monitor) : m.around.disk = m.ledger.disk := rfl
  rw [hdisk, born, Monitor.ledger_start]

theorem acknowledged_born (l : Lifetime) (around : Surroundings) :
    (l.born around).engine.acknowledged =
      Acknowledgement.load around.disk l.settings.paths.state := by
  have hfront (m : Monitor) : m.engine.acknowledged = m.front.acknowledged := rfl
  rw [hfront, born, Monitor.front_start]

/-- What counts as acknowledged is what the user took note of last, or what the monitor started with. -/
theorem acknowledged_died (l : Lifetime) (around : Surroundings) :
    (l.died around).engine.acknowledged =
      (l.noted around).getLast?.or (Acknowledgement.load around.disk l.settings.paths.state) := by
  rw [died, Monitor.acknowledged_actAll, acknowledged_born, noted]

/-- A lifetime leaves in the state file what it stored last, or what it found there. -/
theorem stored_died {l : Lifetime} (hdistinct : paths.StateDistinct) (hpaths : l.settings.paths = paths)
    (hspares : Monitor.Along Monitor.SparesState (l.born around) l.actions)
    (hx : Stored around.disk paths.state x) :
    Stored (l.died around).around.disk paths.state
      ((Monitor.gather Monitor.saved? (l.born around) l.actions).getLast?.or x) := by
  obtain ⟨hregular, hsettings⟩ := l.regular_born around
  subst hpaths
  have hstored := hregular.stored_actAll (by rwa [hsettings]) hspares (x := x)
  rw [hsettings, disk_born] at hstored
  exact hstored hx

/-- So do lifetimes that follow one another. -/
theorem stored_after {ls : List Lifetime} (hdistinct : paths.StateDistinct)
    (hspares : Spare paths around ls) (hx : Stored around.disk paths.state x) :
    Stored (after around ls).disk paths.state ((saved around ls).getLast?.or x) := by
  induction ls generalizing around x with
  | nil => exact hx
  | cons l ls ih =>
    obtain ⟨hpaths, hlife, hrest⟩ := hspares
    have hlater := ih hrest (stored_died hdistinct hpaths hlife hx)
    rwa [← Option.or_assoc, ← List.getLast?_append] at hlater

theorem spare_append {ls ls' : List Lifetime} :
    Spare paths around (ls ++ ls') ↔ Spare paths around ls ∧ Spare paths (after around ls) ls' := by
  induction ls generalizing around with
  | nil => simp [Spare, after]
  | cons l ls ih => simp only [List.cons_append, Spare, after, ih, and_assoc]

theorem after_append (around : Surroundings) (ls ls' : List Lifetime) :
    after around (ls ++ ls') = after (after around ls) ls' := by
  induction ls generalizing around with
  | nil => rfl
  | cons l ls ih => exact ih _

/-- **Acknowledgements survive restarts.** Let lifetimes follow one another over the same files, where at
first there is no state file and only monitors write it. At any moment of the last one, what is
published is unacknowledged exactly where there is a newest record that is not the one of which the
user took note last in this lifetime, or, if there was none, not the one that an earlier lifetime has
stored last. The next start would load the identity that was stored last. In particular an action that
does not manage to store an identity leaves that one as it was, and one that does is loaded, whatever
characters it has. -/
theorem acknowledgement_survives_restarts (paths : MonitorPaths) (hdistinct : paths.StateDistinct)
    (around : Surroundings) (hfirst : around.disk.NoFile paths.state) (earlier : List Lifetime)
    (now : Lifetime) (hspares : Spare paths around (earlier ++ [now])) :
    let found := after around earlier
    let m := now.died found
    (m.engine.published.unacknowledged ↔
      ∃ newest, m.engine.published.records.head? = some newest ∧
        (now.noted found).getLast?.or (saved around earlier).getLast? ≠ some newest.id) ∧
    Acknowledgement.load m.around.disk paths.state = (saved around (earlier ++ [now])).getLast? ∧
    ∀ a, m.SparesState a → Acknowledgement.load (m.act a).around.disk paths.state =
      (m.saved? a).or (Acknowledgement.load m.around.disk paths.state) := by
  intro found m
  obtain ⟨hearlier, hpaths, -⟩ := spare_append.mp hspares
  obtain ⟨hregular, hsettings⟩ : m.Regular ∧ m.settings = now.settings := now.regular_died found
  have hfound : Stored found.disk paths.state ((saved around earlier).getLast?.or none) :=
    stored_after hdistinct hearlier (.nothing hfirst)
  have hstored : Stored m.around.disk paths.state
      ((saved around (earlier ++ [now])).getLast?.or none) := by
    have hall := stored_after hdistinct hspares (.nothing hfirst)
    rwa [after_append] at hall
  have hacknowledged : m.engine.acknowledged =
      (now.noted found).getLast?.or (saved around earlier).getLast? := by
    have hdied := now.acknowledged_died found
    rwa [hpaths, hfound.load_eq, Option.or_none] at hdied
  refine ⟨?_, ?_, fun a ha => ?_⟩
  · have htells := hregular.tells_published
      (Monitor.sound_actAll now.settings found now.daemonRuns now.actions)
    rw [← hacknowledged]
    exact htells.unacknowledged_iff
  · rw [hstored.load_eq, Option.or_none]
  · have hstate : m.settings.paths.state = paths.state := by
      rw [← hpaths]
      exact congrArg (·.paths.state) hsettings
    have hnext := hregular.stored_act (by rwa [hsettings, hpaths]) ha (hstate ▸ hstored)
    rw [hstate] at hnext
    rw [hnext.load_eq, hstored.load_eq]

/-- Surroundings in which a removal has been refused. -/
def removalRefused : Surroundings :=
  { Surroundings.emptyDir "/p" with
    disk := ((Surroundings.emptyDir "/p").disk.apply
      (.write "/p/denials.jsonl" (Utf8.encode "[7,\"unlink\",\"/\u00e4\",null,\"\",\"\",\"\"]"))).1 }

/-- A monitor whose user takes note of the newest record. -/
def takingNote : Lifetime :=
  ⟨.ofPaths (.inDir "/p"), false, [.send .acknowledge, .takeRequest]⟩

/-- A monitor in which nothing happens after its start. -/
def idle : Lifetime :=
  ⟨.ofPaths (.inDir "/p"), false, []⟩

/-- A record of which the user took note before a restart is not shown as unacknowledged after it. -/
theorem acknowledged_after_restart :
    let m := idle.died (after removalRefused [takingNote])
    m.engine.published.records.map (·.id) = [⟨"7-/\u00e4"⟩] ∧
      m.engine.published.unacknowledged = false := by
  obtain ⟨hunacknowledged, -, -⟩ := acknowledgement_survives_restarts (.inDir "/p")
    (by decide +kernel) removalRefused (by decide +kernel) [takingNote] idle (by decide +kernel)
  have hrecords : (idle.died (after removalRefused [takingNote])).engine.published.records.map
      (·.id) = [⟨"7-/\u00e4"⟩] := by decide +kernel
  have hsaved : (saved removalRefused [takingNote]).getLast? = some ⟨"7-/\u00e4"⟩ := by
    decide +kernel
  refine ⟨hrecords, Bool.eq_false_iff.mpr fun hunack => ?_⟩
  obtain ⟨newest, hnewest, hother⟩ := hunacknowledged.mp hunack
  have hnoted : idle.noted (after removalRefused [takingNote]) = [] := rfl
  have hid := congrArg List.head? hrecords
  rw [List.head?_map, hnewest] at hid
  rw [hnoted, hsaved] at hother
  exact hother hid.symm

/-- **An acknowledgement is for one record.** Records have the same identity exactly where their times
and their paths are the same, whatever characters a path has and whether a time is negative. So the
newest record counts as acknowledged exactly where its time and path are those of the record of which
the user took note last, in this lifetime or, as far as the state file tells, before it. -/
theorem acknowledgement_is_for_one_record (r s : DenialRecord) :
    (r.id = s.id ↔ r.ts = s.ts ∧ r.path = s.path) ∧
      ∀ (now : Lifetime) (around : Surroundings),
        (now.noted around).getLast?.or
            (Acknowledgement.load around.disk now.settings.paths.state) = some r.id →
        (now.died around).engine.published.records.head? = some s →
        ((now.died around).engine.published.unacknowledged = false ↔
          r.ts = s.ts ∧ r.path = s.path) := by
  refine ⟨DenialRecord.id_eq_iff, fun now around hnoted hnewest => ?_⟩
  have htells := (now.regular_died around).1.tells_published
    (Monitor.sound_actAll now.settings around now.daemonRuns now.actions)
  have hacknowledged : (now.died around).engine.acknowledged = some r.id :=
    (now.acknowledged_died around).trans hnoted
  calc (now.died around).engine.published.unacknowledged = false
      ↔ ¬ ∃ newest, (now.died around).engine.published.records.head? = some newest ∧
          (now.died around).engine.acknowledged ≠ some newest.id := by
        rw [← Bool.not_eq_true]
        exact not_congr htells.unacknowledged_iff
    _ ↔ r.id = s.id := by simp [hnewest, hacknowledged]
    _ ↔ r.ts = s.ts ∧ r.path = s.path := DenialRecord.id_eq_iff

/-- A directory whose log has one record, from before 1970. -/
def beforeEpoch : Surroundings :=
  { Surroundings.emptyDir "/p" with
    disk := ((Surroundings.emptyDir "/p").disk.apply
      (.write "/p/denials.jsonl" (Utf8.encode "[-1,\"unlink\",\"1-/a\",null,\"\",\"\",\"\"]"))).1 }

/-- A monitor whose user takes note of the newest record, which then is no longer the newest one. -/
def takingNoteTooEarly : Lifetime :=
  ⟨.ofPaths (.inDir "/p"), false,
    [.send .acknowledge, .takeRequest,
      .change (.append "/p/denials.jsonl"
        (Utf8.encode "\n[1,\"unlink\",\"-1-/a\",null,\"\",\"\",\"\"]")),
      .send .refresh, .takeRequest]⟩

/-- A record with the same numbers and hyphens as the acknowledged one is another record. -/
theorem similar_record_is_unacknowledged :
    let m := takingNoteTooEarly.died beforeEpoch
    m.engine.published.records.map (·.id) = [⟨"1--1-/a"⟩, ⟨"-1-1-/a"⟩] ∧
      m.engine.published.unacknowledged ≠ false := by
  have hrecords : (takingNoteTooEarly.died beforeEpoch).engine.published.records.map (·.id) =
      [⟨"1--1-/a"⟩, ⟨"-1-1-/a"⟩] := by decide +kernel
  have hiff := (acknowledgement_is_for_one_record ⟨-1, .delete, "1-/a", none, "", "", ""⟩
    ⟨1, .delete, "-1-/a", none, "", "", ""⟩).2 takingNoteTooEarly beforeEpoch
    (by decide +kernel) (by decide +kernel)
  exact ⟨hrecords, fun hfalse => absurd (hiff.mp hfalse) (by decide)⟩

end Lifetime

end DenialMonitor
