import DenialMonitor.Proofs.Overrides.Failure
import DenialMonitor.Proofs.View.Published
import Mathlib.Data.List.DropRight

set_option autoImplicit false

/-!
# Taking a listed override back

An override that is listed can be taken back, whoever put it into the policy, as long as the request
names it: the space around the path in a request does not count, and the overrides of the policy are
compared with the rest as they are. So an entry that begins or ends with white space, which only the
policy file can bring in, is named by no request, and stays until all overrides are taken back or
the file is changed.

## Main results

* `Text.trim_trim` — a text that was trimmed stays as it is.
* `Monitor.listed_override_is_removed` — what comes of a request that names a listed override.
* `Monitor.padded_override_stays` — a listed override that its own path does not take back.
-/

namespace DenialMonitor

/-! ## Trimming -/

namespace Text

theorem trimEnd_eq_rdropWhile (cs : List Char) : trimEnd cs = cs.rdropWhile isBlank :=
  rfl

/-- A text that does not begin with a blank character does not begin with one either when those at
its end are gone. -/
theorem dropWhile_trimEnd {cs : List Char} (h : cs.dropWhile isBlank = cs) :
    (trimEnd cs).dropWhile isBlank = trimEnd cs := by
  rw [List.dropWhile_eq_self_iff] at h ⊢
  intro hpos
  have hbegins : trimEnd cs <+: cs := List.rdropWhile_prefix isBlank cs
  rw [hbegins.getElem hpos]
  exact h (Nat.lt_of_lt_of_le hpos hbegins.length_le)

/-- A text that was trimmed stays as it is. -/
theorem trim_trim (s : String) : trim (trim s) = trim s := by
  have hhead := dropWhile_trimEnd (List.dropWhile_idempotent isBlank s.toList)
  simp only [trim, trimChars, String.toList_ofList, hhead]
  rw [trimEnd_eq_rdropWhile, trimEnd_eq_rdropWhile, List.rdropWhile_idempotent]

end Text

/-! ## The edit -/

namespace SecurityPolicy

/-- Policies that say the same list the same overrides. -/
theorem temporaryOverrides_eq_of_same {p q : SecurityPolicy} (h : p.same q = true) :
    p.temporaryOverrides = q.temporaryOverrides := by
  simp only [same, Bool.and_eq_true, beq_iff_eq] at h
  exact h.1.1.1.2

end SecurityPolicy

/-- The overrides that are published are those in memory. -/
theorem Engine.UpToDate.overrides_eq {e : Engine} (h : e.UpToDate) :
    e.published.policy.temporaryOverrides = e.policy.policy.temporaryOverrides := by
  rcases h.parts.2.2.2 with heq | hsame
  · rw [heq]
  · exact SecurityPolicy.temporaryOverrides_eq_of_same hsame

/-- Taking a listed override back is writing the policy without it. -/
theorem PolicyStore.removeOverride_eq_of_write {s : PolicyStore} {d d' : Disk} {path : String}
    (hlisted : path ∈ s.policy.temporaryOverrides)
    (hwrite : d.writeAtomically s.path (s.policy.withoutOverride path).fileContent = (d', none)) :
    s.removeOverride d path = ⟨{ s with policy := s.policy.withoutOverride path }, d', .ok true⟩ := by
  have hhas : s.policy.hasOverride path = true := List.contains_iff_mem.mpr hlisted
  rw [removeOverride, if_pos hhas, persist, hwrite]

/-- An override that was taken back is gone from the policy, and its timer is stopped. -/
theorem Ledger.perform_remove_ok (l : Ledger) (path : String) (store : PolicyStore) (disk : Disk)
    (answer : Bool) :
    l.perform (.remove path ⟨store, disk, .ok answer⟩) =
      { l with store, disk, expiry := (l.expiry.cancel path).2 } :=
  rfl

namespace Monitor

variable {m : Monitor} {t : Ticket} {text : String} {rest : List (Ticket × Request)}

/-- The policy in memory could be written and would be read back at any time. -/
theorem tidy_policy (settings : Settings) (around : Surroundings) (daemonRuns : Bool)
    (actions : List Action) :
    ((start settings around daemonRuns).actAll actions).engine.policy.policy.Tidy := by
  have hfrom := comesFrom_origin settings around daemonRuns actions
  exact hfrom.tidy.of_extra (congrArg (·.extra) hfrom.memory)

/-- The ledger after a request to take an override back. -/
theorem ledger_takeRequest_of_remove
    (hrequests : m.requests = (t, .removeOverride text) :: rest) :
    (m.act .takeRequest).ledger = m.ledger.perform (.remove (Text.trim text)
      (m.engine.policy.removeOverride m.around.disk (Text.trim text))) := by
  have hdeed : m.deed .takeRequest = m.requestDeed (.removeOverride text) := by
    simp only [deed, hrequests]
  rw [ledger_act, hdeed, requestDeed]

/-- The policy in memory after a request to take an override back is the one before, or lacks the
override that the request names. -/
theorem overrides_takeRequest_of_remove
    (hrequests : m.requests = (t, .removeOverride text) :: rest) :
    (m.act .takeRequest).overrides = m.overrides ∨
      (m.act .takeRequest).overrides = m.overrides.filter (· ≠ Text.trim text) := by
  have hgoes := m.engine.policy.editGoes_removeOverride m.around.disk (Text.trim text)
  have hstore : (m.act .takeRequest).engine.policy =
      (m.engine.policy.removeOverride m.around.disk (Text.trim text)).store := by
    have hledger := congrArg Ledger.store (ledger_takeRequest_of_remove hrequests)
    refine hledger.trans ?_
    simp only [Ledger.perform]
    split <;> rfl
  rw [overrides, hstore]
  by_cases hok : (m.engine.policy.removeOverride m.around.disk (Text.trim text)).result.isOk
  · exact .inr (congrArg (·.temporaryOverrides) (hgoes.policy_eq hok))
  · left
    rw [hgoes.store_eq_of_not_ok hok]
    rfl

/-- The monitor has taken the override of `p` back for the request `t`, from `m` to `m'`: no entry
equal to `p` is left in memory, in the file and in what is published, and the others are there in
their order; the timer of `p` is stopped and no other one; and the request is answered with
success. -/
structure Removed (m m' : Monitor) (t : Ticket) (p : String) : Prop where
  policy : m'.engine.policy.policy = m.engine.policy.policy.withoutOverride p
  file : m'.overridesInFile? = some (m.overrides.filter (· ≠ p))
  published : m'.engine.published.policy.temporaryOverrides =
    m.engine.published.policy.temporaryOverrides.filter (· ≠ p)
  timers : ∀ q, m'.engine.expiry.pending? q =
    if q = p then none else m.engine.expiry.pending? q
  reply : m'.replies =
    (t, .outcome (.succeeded ("Removed override for " ++ Path.displayName p))) :: m.replies

/-- A request that names a listed override takes it back, if the policy can be written.

**Proof sketch.** The edit is the one that writes the policy without the override. What it writes is
read back, the ledger tells what becomes of the timers, and what is published follows the policy in
memory. -/
theorem removed_of_write (hupToDate : m.engine.UpToDate) (htidy : m.engine.policy.policy.Tidy)
    (horderly : m.engine.expiry.Orderly)
    (hrequests : m.requests = (t, .removeOverride text) :: rest)
    (hlisted : Text.trim text ∈ m.overrides)
    (hwrite : (m.around.disk.writeAtomically m.engine.policy.path
      (m.engine.policy.policy.withoutOverride (Text.trim text)).fileContent).2 = none) :
    m.Removed (m.act .takeRequest) t (Text.trim text) := by
  rcases hresult : m.around.disk.writeAtomically m.engine.policy.path
    (m.engine.policy.policy.withoutOverride (Text.trim text)).fileContent with ⟨disk, cause⟩
  rw [hresult] at hwrite
  obtain rfl : cause = none := hwrite
  have hedit := PolicyStore.removeOverride_eq_of_write hlisted hresult
  have hledger := ledger_takeRequest_of_remove hrequests
  rw [hedit, Ledger.perform_remove_ok] at hledger
  have hstore : (m.act .takeRequest).engine.policy =
      { m.engine.policy with
        policy := m.engine.policy.policy.withoutOverride (Text.trim text) } :=
    congrArg Ledger.store hledger
  have hdisk : (m.act .takeRequest).around.disk = disk := congrArg Ledger.disk hledger
  have hexpiry : (m.act .takeRequest).engine.expiry =
      (m.engine.expiry.cancel (Text.trim text)).2 :=
    congrArg Ledger.expiry hledger
  refine ⟨congrArg PolicyStore.policy hstore, ?_, ?_, fun q => ?_, ?_⟩
  · obtain ⟨extra, hparse⟩ := (htidy.of_extra rfl :
      (m.engine.policy.policy.withoutOverride (Text.trim text)).Tidy).exists_parse?_fileContent
    have hread := Disk.read?_of_writeAtomically_ok hresult
    rw [overridesInFile?, policyFile?, hdisk, hstore, hread, Option.bind_some, hparse]
    rfl
  · rw [(upToDate_act hupToDate .takeRequest).overrides_eq, hstore, hupToDate.overrides_eq]
    rfl
  · rw [hexpiry]
    exact horderly.pending?_cancel q _
  · rw [replies_takeRequest_of_remove hrequests, hedit]
    rfl

/-- **A listed override is taken back.** When a request to take an override back is handled, and the
path in it, without the space around it, is one of the overrides that are published, then the
monitor writes the policy without that path, and if this succeeds the override is taken back. An
override that begins or ends with white space is named by no such request, and stays. -/
theorem listed_override_is_removed (settings : Settings) (around : Surroundings)
    (daemonRuns : Bool) (actions : List Action) :
    let m := (start settings around daemonRuns).actAll actions
    ∀ t text rest, m.requests = (t, .removeOverride text) :: rest →
      (∀ p ∈ m.engine.published.policy.temporaryOverrides, Text.trim text = p →
        (m.around.disk.writeAtomically m.engine.policy.path
          (m.engine.policy.policy.withoutOverride p).fileContent).2 = none →
        m.Removed (m.act .takeRequest) t p) ∧
      ∀ p ∈ m.engine.published.policy.temporaryOverrides, Text.trim p ≠ p →
        p ∈ (m.act .takeRequest).overrides := by
  intro m t text rest hrequests
  have hupToDate : m.engine.UpToDate :=
    upToDate_actAll (upToDate_start settings around daemonRuns) actions
  have hpublished : m.engine.published.policy.temporaryOverrides = m.overrides :=
    hupToDate.overrides_eq
  rw [hpublished]
  refine ⟨?_, fun p hlisted hpadded => ?_⟩
  · rintro p hlisted rfl hwrite
    exact removed_of_write hupToDate (tidy_policy settings around daemonRuns actions)
      (orderly_actAll (orderly_start settings around daemonRuns) actions).expiry hrequests hlisted
      hwrite
  · rcases overrides_takeRequest_of_remove hrequests with heq | heq
    · rwa [heq]
    · rw [heq, List.mem_filter]
      refine ⟨hlisted, ?_⟩
      simp only [ne_eq, decide_eq_true_eq]
      rintro rfl
      exact hpadded (Text.trim_trim text)

/-- Surroundings in which the policy lists overrides that the monitor has not put there. -/
def overridesAreListed : Surroundings :=
  let document := "\x7b\"protected_zones\":[],\"temporary_overrides\":[\"/a\",\" /a\",\"/a\"]\x7d"
  { Surroundings.emptyDir "/p" with
    disk := ((Surroundings.emptyDir "/p").disk.apply
      (.write "/p/es_policy.json" (Utf8.encode document))).1 }

/-- A request takes back both entries that it names, and leaves the one with a space in front. -/
theorem repeated_override_is_removed :
    (((start shortLived overridesAreListed false).actAll [.send (.removeOverride "/a\t")]).act
        .takeRequest).overridesInFile? = some [" /a"] ∧
      " /a" ∈ (((start shortLived overridesAreListed false).actAll
        [.send (.removeOverride "/a\t")]).act .takeRequest).overrides := by
  have hrun : ((start shortLived overridesAreListed false).actAll
        [.send (.removeOverride "/a\t")]).requests = [(0, .removeOverride "/a\t")] ∧
      ((start shortLived overridesAreListed false).actAll
        [.send (.removeOverride "/a\t")]).overrides = ["/a", " /a", "/a"] ∧
      ((start shortLived overridesAreListed false).actAll [.send (.removeOverride "/a\t")]
        ).engine.published.policy.temporaryOverrides = ["/a", " /a", "/a"] := by
    decide +kernel
  obtain ⟨hrequests, hmemory, hlisted⟩ := hrun
  obtain ⟨hremoved, hpadded⟩ := listed_override_is_removed shortLived overridesAreListed false
    [.send (.removeOverride "/a\t")] 0 "/a\t" [] hrequests
  rw [hlisted] at hremoved hpadded
  have hfile := (hremoved "/a" (by decide) (by decide +kernel) (by decide +kernel)).file
  rw [hmemory] at hfile
  exact ⟨hfile, hpadded " /a" (by decide) (by decide +kernel)⟩

/-- An override with a space in front is listed, but a request with its path does not take it back,
although the policy without it can be written. -/
theorem padded_override_stays :
    ¬ ∀ (settings : Settings) (around : Surroundings) (daemonRuns : Bool) (actions : List Action)
      (t : Ticket) (p : String) (rest : List (Ticket × Request)),
      ((start settings around daemonRuns).actAll actions).requests =
        (t, .removeOverride p) :: rest →
      p ∈ ((start settings around daemonRuns).actAll actions
        ).engine.published.policy.temporaryOverrides →
      (((start settings around daemonRuns).actAll actions).around.disk.writeAtomically
        ((start settings around daemonRuns).actAll actions).engine.policy.path
        (((start settings around daemonRuns).actAll actions).engine.policy.policy.withoutOverride
          p).fileContent).2 = none →
      p ∉ (((start settings around daemonRuns).actAll actions).act .takeRequest).overrides := by
  intro h
  exact h shortLived overridesAreListed false [.send (.removeOverride " /a")] 0 " /a" []
    (by decide +kernel) (by decide +kernel) (by decide +kernel) (by decide +kernel)

end Monitor

end DenialMonitor
