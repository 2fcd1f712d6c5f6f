import DenialMonitor.Proofs.Policy.RoundTrip
import DenialMonitor.Proofs.Monitor.Runs

set_option autoImplicit false

/-!
# The published snapshot

A snapshot is published where it differs from the one before, and everything that changes what is to
be shown ends in publishing. So after every action the published snapshot is the one that is to be
shown, or it says the same.

Snapshots are compared without regard to the order of unknown policy members. A policy that was
read, where no object repeats a key, is the same as itself in this sense, and the empty policy is
the same as no other one.

## Main definitions

* `Engine.UpToDate` — what is published is what is to be shown.

## Main results

* `SecurityPolicy.Tidy.same_self`, `SecurityPolicy.same_empty_iff` — which policies are the same.
* `Engine.UpToDate.parts` — what this means for the sources.
* `Monitor.upToDate_act`, `Monitor.upToDate_start` — what is published is up to date after every
  action and at the start.
-/

namespace DenialMonitor

/-! ## Policies that are the same -/

namespace Json

theorem number_same_self (n : Number) : n.same n = true := by
  cases n <;> simp [Number.same]

/-- Where no key is repeated, the value of a member is found by its key. -/
theorem find?_of_mem {ms : Members String Number} (hnodup : (ms.map (·.1)).Nodup)
    {m : String × Json} (hm : m ∈ ms) : Members.find? m.1 ms = some m.2 := by
  induction ms with
  | nil => simp at hm
  | cons x ms ih =>
    rw [List.map_cons, List.nodup_cons] at hnodup
    rcases List.mem_cons.mp hm with rfl | hm
    · simp [Members.find?]
    · have hne : x.1 ≠ m.1 := by
        intro heq
        exact hnodup.1 (heq ▸ List.mem_map.mpr ⟨m, hm, rfl⟩)
      have hrest := ih hnodup.2 hm
      simp only [Members.find?, List.find?_cons, hne, decide_false] at hrest ⊢
      exact hrest

mutual

/-- A document in which no object repeats a key is the same as itself. -/
theorem same_self (v : Json) (h : v.UniqueKeys) : same v v = true := by
  cases v with
  | null => rfl
  | bool b => simp [same]
  | number n => simpa [same] using number_same_self n
  | string s => simp [same]
  | array items => simpa [same] using sameItems_self items h
  | object members =>
    simp only [same, beq_self_eq_true, Bool.true_and]
    exact sameMembers_of_subset members members (fun m hm => hm) h.1 h.2

theorem sameItems_self (vs : List Json) (h : UniqueItemKeys vs) : sameItems vs vs = true := by
  cases vs with
  | nil => rfl
  | cons v vs => simp [sameItems, same_self v h.1, sameItems_self vs h.2]

/-- Members have counterparts among those that they are taken from. -/
theorem sameMembers_of_subset (ms all : Members String Number) (hsub : ∀ m ∈ ms, m ∈ all)
    (hnodup : (all.map (·.1)).Nodup) (h : UniqueMemberKeys ms) : sameMembers ms all = true := by
  match ms, h with
  | [], _ => rfl
  | (k, v) :: ms, h =>
    have hfind : Members.find? k all = some v := find?_of_mem hnodup (hsub (k, v) (by simp))
    have hrest := sameMembers_of_subset ms all (fun m hm => hsub m (by simp [hm])) hnodup h.2
    simp [sameMembers, hfind, same_self v h.1, hrest]

end

end Json

namespace SecurityPolicy

/-- A policy that was read is the same as itself. -/
theorem Tidy.same_self {p : SecurityPolicy} (h : p.Tidy) : p.same p = true := by
  have hextra : Json.same (.object p.extra) (.object p.extra) = true :=
    Json.same_self _ ⟨h.nodup, h.uniqueKeys⟩
  simp [same, hextra]

/-- Only the empty policy is the same as the empty policy. -/
theorem same_empty_iff {p : SecurityPolicy} : p.same empty = true ↔ p = empty := by
  obtain ⟨zones, overrides, tools, patterns, extra⟩ := p
  simp only [same, empty, Json.same, Bool.and_eq_true, beq_iff_eq, mk.injEq, List.length_nil,
    List.length_eq_zero_iff]
  constructor
  · rintro ⟨⟨⟨⟨rfl, rfl⟩, rfl⟩, rfl⟩, rfl, -⟩
    simp
  · rintro ⟨rfl, rfl, rfl, rfl, rfl⟩
    simp [Json.sameMembers]

theorem empty_same_iff {p : SecurityPolicy} : empty.same p = true ↔ p = empty := by
  obtain ⟨zones, overrides, tools, patterns, extra⟩ := p
  simp only [same, empty, Json.same, Bool.and_eq_true, beq_iff_eq, mk.injEq, List.length_nil,
    Json.sameMembers, and_true]
  constructor
  · rintro ⟨⟨⟨⟨rfl, rfl⟩, rfl⟩, rfl⟩, hextra⟩
    simp [List.length_eq_zero_iff.mp hextra.symm]
  · rintro ⟨rfl, rfl, rfl, rfl, rfl⟩
    simp

end SecurityPolicy

/-! ## Publishing -/

/-- What is published is what is to be shown, or says the same. -/
def Engine.UpToDate (e : Engine) : Prop :=
  e.published = e.snapshot ∨ e.published.same e.snapshot = true

/-- Only what is to be shown and what is published matter. -/
theorem Engine.UpToDate.of_eq {e e' : Engine} (h : e.UpToDate) (hsnapshot : e'.snapshot = e.snapshot)
    (hpublished : e'.published = e.published) : e'.UpToDate := by
  unfold Engine.UpToDate
  rw [hsnapshot, hpublished]
  exact h

/-- What is published of the sources is what is to be shown of them; a policy may be another one that
is the same. -/
theorem Engine.UpToDate.parts {e : Engine} (h : e.UpToDate) :
    e.published.records = e.log.records ∧ e.published.agentStats = e.log.stats ∧
      e.published.lastDenial = e.lastDenial ∧
      (e.published.policy = e.policy.policy ∨ e.published.policy.same e.policy.policy = true) := by
  rcases h with hpublished | hsame
  · rw [hpublished]
    exact ⟨rfl, rfl, rfl, .inl rfl⟩
  · simp only [Snapshot.same, Bool.and_eq_true, beq_iff_eq] at hsame
    obtain ⟨⟨⟨⟨⟨⟨⟨⟨hrecords, hstats⟩, hpolicy⟩, hlast⟩, -⟩, -⟩, -⟩, -⟩, -⟩ := hsame
    exact ⟨hrecords, hstats, hlast, .inr hpolicy⟩

/-- The outcome that is published is the one that is to be shown. -/
theorem Engine.UpToDate.outcome_eq {e : Engine} (h : e.UpToDate) :
    e.published.outcome = e.outcome := by
  rcases h with hpublished | hsame
  · rw [hpublished]
    rfl
  · simp only [Snapshot.same, Bool.and_eq_true, beq_iff_eq] at hsame
    exact hsame.2

/-- Taking an override back changes nothing where there is none. -/
theorem PolicyStore.store_removeOverride_of_false {s : PolicyStore} {d : Disk} {path : String}
    (h : (s.removeOverride d path).result = .ok false) : (s.removeOverride d path).store = s := by
  revert h
  unfold removeOverride persist
  split
  · split <;> intro h <;> simp at h
  · exact fun _ => rfl

namespace Monitor

variable {m : Monitor}

theorem upToDate_publish (m : Monitor) : m.publish.engine.UpToDate := by
  unfold publish
  split
  · next hsame => exact .inr hsame
  · exact .inl rfl

theorem upToDate_report (m : Monitor) (o : Outcome) : (m.report o).engine.UpToDate :=
  upToDate_publish _

theorem upToDate_conclude (m : Monitor) (t : Ticket) (o : Outcome) :
    (m.conclude t o).engine.UpToDate :=
  upToDate_report m o

theorem upToDate_close (h : m.engine.UpToDate) : m.close.engine.UpToDate := by
  rw [close_eq]
  exact h

theorem upToDate_requestOverride (h : m.engine.UpToDate) (text : String) (t : Ticket) :
    (m.requestOverride text t).engine.UpToDate := by
  simp only [requestOverride]
  split
  · exact upToDate_conclude ..
  · split
    · exact upToDate_conclude ..
    · split
      · exact h
      · simp only [applyOverride]
        split <;> exact upToDate_conclude ..

/-- What is published is up to date after every request. -/
theorem upToDate_handleRequest (h : m.engine.UpToDate) (t : Ticket) (r : Request) :
    (m.handleRequest t r).engine.UpToDate := by
  cases r with
  | refresh =>
    have hrefresh : (m.refresh t).engine = (m.reloadAll.registerAll.followLog.publish).engine := by
      simp only [refresh]
    rw [handleRequest, hrefresh]
    exact upToDate_publish _
  | acknowledge =>
    simp only [handleRequest, acknowledge]
    split
    · exact h
    · exact upToDate_publish _
  | requestOverride text => exact upToDate_requestOverride h text t
  | removeOverride text =>
    simp only [handleRequest, removeOverride]
    split <;> exact upToDate_conclude ..
  | clearOverrides =>
    simp only [handleRequest, clearOverrides]
    split <;> exact upToDate_conclude ..
  | restartDaemon => exact h
  | shutdown => exact upToDate_close h

theorem upToDate_expireOverride (h : m.engine.UpToDate) (path : String) (generation : Nat) :
    (m.expireOverride path generation).engine.UpToDate := by
  simp only [expireOverride]
  split
  · exact h
  · split
    · exact upToDate_report ..
    · next hresult =>
      -- nothing is published here, since the policy stays as it is
      have hstore := PolicyStore.store_removeOverride_of_false hresult
      refine h.of_eq ?_ rfl
      simp only [adopt, Engine.snapshot, Engine.isUnacknowledged, hstore]
      rfl
    · exact upToDate_report ..

/-- What is published is up to date after every event. -/
theorem upToDate_handleEvent (h : m.engine.UpToDate) (e : Event) :
    (m.handleEvent e).engine.UpToDate := by
  cases e with
  | changed source => exact upToDate_publish _
  | logLines lines => exact upToDate_publish _
  | runningState running t => exact upToDate_publish _
  | overrideExpired path generation => exact upToDate_expireOverride h path generation
  | outcomeExpired generation =>
    simp only [handleEvent]
    split
    · exact h
    · exact upToDate_publish _
  | helperFinished path result t =>
    simp only [handleEvent, helperFinished]
    split <;> exact upToDate_conclude ..
  | restartFinished result running t => exact upToDate_conclude ..

theorem engine_post (m : Monitor) (e : Event) : (m.post e).engine = m.engine := by
  unfold post
  split <;> rfl

/-- What is published is up to date after every action. -/
theorem upToDate_act (h : m.engine.UpToDate) (a : Action) : (m.act a).engine.UpToDate := by
  cases a with
  | send r =>
    simp only [act, send]
    split <;> exact h
  | finish i answer =>
    simp only [act, finishErrand]
    split
    · exact h
    · split
      · rw [engine_post]
        exact h
      · exact h
  | runWatch i eager =>
    simp only [act, runWatch]
    split
    · exact h
    · rw [engine_post]
      exact h
  | runReader i =>
    simp only [act, runReader]
    split
    · exact h
    · rw [engine_post]
      exact h
  | fireExpiry generation =>
    simp only [act, fireExpiry]
    split
    · exact h
    · rw [engine_post]
      exact h
  | fireOutcome generation =>
    simp only [act, fireOutcome]
    split
    · exact h
    · rw [engine_post]
      exact h
  | endWait i =>
    simp only [act, endWait]
    split
    · split <;> exact h
    · exact h
  | takeRequest =>
    simp only [act, takeRequest]
    split
    · exact h
    · next t r rest _ =>
      have hrest : ({ m with requests := rest } : Monitor).engine.UpToDate := h
      exact upToDate_handleRequest hrest t r
  | takeEvent =>
    simp only [act, takeEvent]
    split
    · exact h
    · next e rest _ =>
      have hrest : ({ m with events := rest } : Monitor).engine.UpToDate := h
      exact upToDate_handleEvent hrest e
  | retire =>
    simp only [act]
    split
    · exact upToDate_close h
    · exact h
  | _ => exact h

theorem upToDate_actAll (h : m.engine.UpToDate) (actions : List Action) :
    (m.actAll actions).engine.UpToDate := by
  induction actions generalizing m with
  | nil => exact h
  | cons a actions ih => exact ih (upToDate_act h a)

theorem upToDate_start (settings : Settings) (around : Surroundings) (daemonRuns : Bool) :
    (start settings around daemonRuns).engine.UpToDate := by
  simp only [start, startSteps, Source.all, List.map_cons, List.map_nil, List.cons_append,
    List.nil_append, List.foldl_cons, List.foldl_nil, startStep]
  exact upToDate_publish _

end Monitor

end DenialMonitor
