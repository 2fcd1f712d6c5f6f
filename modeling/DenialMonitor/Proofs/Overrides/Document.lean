import DenialMonitor.Proofs.Monitor.Runs
import DenialMonitor.Proofs.Overrides.Ledger
import DenialMonitor.Proofs.Policy.Edits

set_option autoImplicit false

/-!
# What a monitor writes into the policy file

Two programs write the policy file: the daemon owns the document, and the monitor edits the
overrides in it. The monitor starts from the document in memory. So the fields that belong to the
daemon are written as they were when the document was loaded last, with the empty policy standing
for a document that was missing or malformed at that moment. They are those of the document that is
replaced as long as the monitor alone has changed the file since. A document that the daemon has
written in the meantime is lost.

## Main definitions

* `Ledger.state` — the store of a ledger and the disk.
* `Deed.edit?`, `Deed.loads` — what a deed does to them.
* `Origin`, `Monitor.origin` — where the document in memory comes from.

## Main results

* `Monitor.isTree_actAll` — the files of a run are a tree, if they were at its beginning.
* `Monitor.written_daemonFields` — which fields are written, and when they are those of the file.
* `Monitor.unseen_document_is_lost` — a run in which they are not.
-/

namespace DenialMonitor

/-! ## The store and the disk of a ledger -/

/-- The edit that a deed comes with. -/
def Deed.edit? : Deed → Option PolicyEdit
  | .request path _ => some (.add path)
  | .remove path _ | .revoke path _ => some (.remove path)
  | .clear _ => some .clear
  | _ => none

/-- Whether a deed takes the policy from its file. -/
def Deed.loads : Deed → Bool
  | .reload | .grant _ => true
  | _ => false

namespace Ledger

variable {l : Ledger} {d : Deed}

/-- The store of a ledger and the disk. -/
def state (l : Ledger) : StoreState :=
  ⟨l.store, l.disk⟩

@[simp]
theorem state_schedule (l : Ledger) (path : String) : (l.schedule path).state = l.state := by
  simp only [schedule]
  split <;> rfl

/-- A deed that comes with an edit does what the edit does. -/
theorem state_perform_of_edit? {e : PolicyEdit} (h : l.Allows d) (he : d.edit? = some e) :
    (l.perform d).state = (l.state.edit e).1 := by
  cases d with
  | request path e' =>
    obtain rfl : e' = l.store.addOverride l.disk path := h
    obtain rfl : PolicyEdit.add path = e := Option.some.inj he
    simp only [perform]
    split
    · exact state_schedule _ path
    · rfl
  | remove path e' =>
    obtain rfl : e' = l.store.removeOverride l.disk path := h
    obtain rfl : PolicyEdit.remove path = e := Option.some.inj he
    simp only [perform]
    split <;> rfl
  | clear e' =>
    obtain rfl : e' = l.store.clearOverrides l.disk := h
    obtain rfl : PolicyEdit.clear = e := Option.some.inj he
    simp only [perform]
    split <;> rfl
  | revoke path e' =>
    obtain rfl : e' = l.store.removeOverride l.disk path := h.1
    obtain rfl : PolicyEdit.remove path = e := Option.some.inj he
    rfl
  | _ => simp [Deed.edit?] at he

/-- A deed that loads the policy does nothing else to it. -/
theorem state_perform_of_loads (h : d.loads) : (l.perform d).state = l.state.act .reload := by
  cases d with
  | reload => rfl
  | grant path => exact state_schedule _ path
  | _ => simp [Deed.loads] at h

/-- No other deed changes the store. -/
theorem store_perform (he : d.edit? = none) (hl : ¬ d.loads) : (l.perform d).store = l.store := by
  cases d with
  | request | remove | clear | revoke => simp [Deed.edit?] at he
  | reload | grant => simp [Deed.loads] at hl
  | _ => rfl

/-- A deed leaves given files, or those that were there, but for the policy file if that is written. -/
theorem disk_perform (hallow : l.Allows d) :
    d = .files (l.perform d).disk ∨ (l.perform d).disk = l.disk ∨
      ∃ content, (l.perform d).disk = (l.disk.writeAtomically l.store.path content).1 := by
  cases he : d.edit? with
  | some e =>
    obtain ⟨α, r, hr, hgoes⟩ := l.state.editGoes e
    have hdisk : (l.perform d).disk = r.disk := by
      have hstate := congrArg StoreState.disk (state_perform_of_edit? hallow he)
      rwa [hr] at hstate
    rw [hdisk]
    refine .inr ?_
    cases hgoes with
    | unchanged => exact .inl rfl
    | written write => exact .inr ⟨_, (congrArg Prod.fst write).symm⟩
    | failed write => exact .inr ⟨_, (congrArg Prod.fst write).symm⟩
  | none =>
    cases d with
    | files disk => exact .inl rfl
    | grant path => exact .inr (.inl (congrArg StoreState.disk (state_perform_of_loads rfl)))
    | request | remove | clear | revoke => cases he
    | _ => exact .inr (.inl rfl)

end Ledger

namespace Monitor

variable {m : Monitor}

/-- An action leaves the files as they are, or someone else changes them, or a document is written. -/
theorem disk_act (m : Monitor) (a : Action) :
    (∃ c, (m.act a).around.disk = (m.around.disk.apply c).1) ∨
      (m.act a).around.disk = m.around.disk ∨
      ∃ path content, (m.act a).around.disk = (m.around.disk.writeAtomically path content).1 := by
  have hdisk : (m.act a).around.disk = (m.ledger.perform (m.deed a)).disk :=
    congrArg Ledger.disk (ledger_act m a)
  rw [hdisk]
  rcases Ledger.disk_perform (allows_deed m a) with hfiles | hsame | ⟨content, hwrite⟩
  · rcases files_of_deed hfiles with ⟨c, -, hchange⟩ | ⟨_, _, newest, -, -, -, hsave⟩
    · exact .inl ⟨c, hchange⟩
    · exact .inr (.inr ⟨_, _, hsave⟩)
  · exact .inr (.inl hsame)
  · exact .inr (.inr ⟨_, content, hwrite⟩)

/-- Nothing is written at the start. -/
theorem disk_start (settings : Settings) (around : Surroundings) (daemonRuns : Bool) :
    (start settings around daemonRuns).around.disk = around.disk := by
  have hdisk (m : Monitor) : m.around.disk = m.ledger.disk := rfl
  rw [hdisk, ledger_start]

/-- Files that are a tree stay one. -/
theorem isTree_act (htree : m.around.disk.IsTree) (a : Action) :
    (m.act a).around.disk.IsTree := by
  rcases disk_act m a with ⟨c, hdisk⟩ | hdisk | ⟨path, content, hdisk⟩
  · exact hdisk ▸ htree.apply c
  · exact hdisk ▸ htree
  · exact hdisk ▸ htree.writeAtomically path content

theorem isTree_actAll (htree : m.around.disk.IsTree) (actions : List Action) :
    (m.actAll actions).around.disk.IsTree := by
  induction actions generalizing m with
  | nil => exact htree
  | cons a actions ih => exact ih (isTree_act htree a)

end Monitor

/-! ## Where the document in memory comes from -/

/-- Where the document in memory comes from. -/
structure Origin where
  /-- What was found when the policy was loaded last. -/
  loaded : SecurityPolicy
  /-- Since then only edits of the monitor have changed the file. -/
  ours : Prop

namespace Monitor

variable {m : Monitor} {a : Action}

/-- What the policy file holds, if it can be read. -/
def policyFile? (m : Monitor) : Option (List UInt8) :=
  m.around.disk.read? m.engine.policy.path

theorem file?_state (m : Monitor) : m.ledger.state.file? = m.policyFile? :=
  rfl

theorem policy_state (m : Monitor) :
    m.ledger.state.store.policy = m.engine.policy.policy :=
  rfl

/-- An action takes the policy from its file. -/
def Loads (m : Monitor) (a : Action) : Prop :=
  (m.deed a).loads

/-- An action is an edit of the policy that succeeds in writing the file. -/
def Writes (m : Monitor) (a : Action) : Prop :=
  ∃ e ∈ (m.deed a).edit?, m.ledger.state.Writes e

instance (m : Monitor) (a : Action) : Decidable (m.Loads a) :=
  inferInstanceAs (Decidable (_ = true))

instance (m : Monitor) (a : Action) : Decidable (m.Writes a) :=
  inferInstanceAs (Decidable (∃ e ∈ (m.deed a).edit?, _))

theorem state_act_of_edit? {e : PolicyEdit} (he : (m.deed a).edit? = some e) :
    (m.act a).ledger.state = (m.ledger.state.edit e).1 := by
  rw [ledger_act]
  exact Ledger.state_perform_of_edit? (allows_deed m a) he

theorem state_act_of_loads (h : m.Loads a) :
    (m.act a).ledger.state = m.ledger.state.act .reload := by
  rw [ledger_act]
  exact Ledger.state_perform_of_loads h

/-- As long as the policy is not loaded, the daemon's fields in memory stay. -/
theorem daemonFields_act (h : ¬ m.Loads a) :
    (m.act a).engine.policy.policy.daemonFields = m.engine.policy.policy.daemonFields := by
  cases he : (m.deed a).edit? with
  | some e => rw [← policy_state, state_act_of_edit? he, StoreState.edit_daemonFields, policy_state]
  | none =>
    have hstore : (m.act a).ledger.store = m.ledger.store := by
      rw [ledger_act]
      exact Ledger.store_perform he h
    exact congrArg (·.policy.daemonFields) hstore

/-- The origin of the document in memory after an action. -/
def nextOrigin (m : Monitor) (a : Action) (o : Origin) : Origin :=
  if m.Loads a then ⟨SecurityPolicy.ofFile m.policyFile?, True⟩
  else ⟨o.loaded, o.ours ∧ (m.Writes a ∨ (m.act a).policyFile? = m.policyFile?)⟩

/-- The origin of the document in memory after a run. -/
def originAlong : Monitor → Origin → List Action → Origin
  | _, o, [] => o
  | m, o, a :: actions => originAlong (m.act a) (m.nextOrigin a o) actions

/-- The origin of the document in memory after a run from the start, where the policy is loaded for
the first time. -/
def origin (settings : Settings) (around : Surroundings) (daemonRuns : Bool)
    (actions : List Action) : Origin :=
  originAlong (start settings around daemonRuns)
    ⟨SecurityPolicy.ofFile (around.disk.read? settings.paths.policy), True⟩ actions

/-- A document comes from an origin: in memory it is the loaded one but for the overrides, and so
it is in the file as long as the monitor alone has changed that. -/
structure ComesFrom (m : Monitor) (o : Origin) : Prop where
  tidy : o.loaded.Tidy
  memory : m.engine.policy.policy.daemonFields = o.loaded.daemonFields
  file : o.ours → o.loaded.FloatsReadBack → ∀ p, m.policyFile?.bind SecurityPolicy.parse? = some p →
    p.daemonFields = o.loaded.daemonFields

/-- What `ofFile` makes of a document that can be decoded. -/
theorem daemonFields_ofFile {content : Option (List UInt8)} {p : SecurityPolicy}
    (h : content.bind SecurityPolicy.parse? = some p) :
    p.daemonFields = (SecurityPolicy.ofFile content).daemonFields := by
  rw [SecurityPolicy.ofFile, h]
  rfl

/-- An edit that writes leaves a document that is read back, with the fields of the loaded one. -/
theorem ComesFrom.written {o : Origin} (h : m.ComesFrom o) (hw : m.Writes a) :
    ∃ written : SecurityPolicy, (m.act a).policyFile? = some written.fileContent ∧
      written.daemonFields = o.loaded.daemonFields ∧
      (o.loaded.FloatsReadBack → SecurityPolicy.parse? written.fileContent = some written) := by
  obtain ⟨e, he, hwrites⟩ := hw
  have hfile : (m.act a).policyFile? = (m.ledger.state.edit e).1.file? := by
    rw [← file?_state, state_act_of_edit? he]
  have hfields : (m.ledger.state.edited e).daemonFields = o.loaded.daemonFields := by
    rw [← h.memory, ← policy_state]
    rfl
  have hextra : (m.ledger.state.edited e).extra = o.loaded.extra := congrArg (·.extra) hfields
  refine ⟨m.ledger.state.edited e, hfile.trans hwrites.file?_eq, hfields, fun hfloats => ?_⟩
  exact (h.tidy.of_extra hextra).parse?_fileContent_of_floatsReadBack (hfloats.of_extra hextra)

/-- One action leaves a document that comes from the next origin.

**Proof sketch.** An action that loads the policy makes a new origin. An edit that writes leaves
its document in the file too. Any other action keeps the daemon's fields in memory, and either the
file as well or it is not only the monitor that has changed that. -/
theorem ComesFrom.act {o : Origin} (h : m.ComesFrom o) (a : Action) :
    (m.act a).ComesFrom (m.nextOrigin a o) := by
  unfold nextOrigin
  split
  · next hloads =>
    have hmemory : (m.act a).engine.policy.policy = SecurityPolicy.ofFile m.policyFile? := by
      rw [← policy_state, state_act_of_loads hloads, ← file?_state]
      rfl
    have hfile : (m.act a).policyFile? = m.policyFile? := by
      rw [← file?_state, state_act_of_loads hloads, ← file?_state]
      rfl
    refine ⟨SecurityPolicy.tidy_ofFile _, by rw [hmemory], fun _ _ p hp => ?_⟩
    rw [hfile] at hp
    exact daemonFields_ofFile hp
  · next hloads =>
    refine ⟨h.tidy, (daemonFields_act hloads).trans h.memory, fun hours hfloats p hp => ?_⟩
    obtain ⟨hours, hwrites | hfile⟩ := hours
    · obtain ⟨written, hread, hfields, hparse⟩ := h.written hwrites
      rw [hread, Option.bind_some, hparse hfloats] at hp
      rw [← Option.some.inj hp, hfields]
    · rw [hfile] at hp
      exact h.file hours hfloats p hp

/-- The document in memory comes from its origin after every run. -/
theorem ComesFrom.actAll {o : Origin} (h : m.ComesFrom o) (actions : List Action) :
    (m.actAll actions).ComesFrom (originAlong m o actions) := by
  induction actions generalizing m o with
  | nil => exact h
  | cons a actions ih => exact ih (h.act a)

theorem comesFrom_origin (settings : Settings) (around : Surroundings) (daemonRuns : Bool)
    (actions : List Action) :
    ((start settings around daemonRuns).actAll actions).ComesFrom
      (origin settings around daemonRuns actions) := by
  refine ComesFrom.actAll ?_ actions
  have hstate : (start settings around daemonRuns).ledger.state =
      .load settings.paths.policy around.disk := by
    rw [ledger_start]
    rfl
  have hmemory : (start settings around daemonRuns).engine.policy.policy =
      SecurityPolicy.ofFile (around.disk.read? settings.paths.policy) := by
    rw [← policy_state, hstate]
    rfl
  have hfile : (start settings around daemonRuns).policyFile? =
      around.disk.read? settings.paths.policy := by
    rw [← file?_state, hstate]
    rfl
  refine ⟨SecurityPolicy.tidy_ofFile _, by rw [hmemory], fun _ _ p hp => ?_⟩
  rw [hfile] at hp
  exact daemonFields_ofFile hp

/-- **What an edit writes.** Whenever the monitor writes the policy file, the zones, the tools, the
patterns and the unknown members are those of the document that was loaded last, or of the empty
policy if that one was missing or malformed. If the monitor alone has changed the file since, they
are those of the document that is replaced. -/
theorem written_daemonFields (settings : Settings) (around : Surroundings) (daemonRuns : Bool)
    (before : List Action) (a : Action)
    (hwrites : ((start settings around daemonRuns).actAll before).Writes a) :
    let m := (start settings around daemonRuns).actAll before
    let o := origin settings around daemonRuns before
    ∃ written : SecurityPolicy, (m.act a).policyFile? = some written.fileContent ∧
      written.daemonFields = o.loaded.daemonFields ∧
      (o.loaded.FloatsReadBack → SecurityPolicy.parse? written.fileContent = some written ∧
        ∀ replaced, m.policyFile?.bind SecurityPolicy.parse? = some replaced → o.ours →
          written.daemonFields = replaced.daemonFields) := by
  intro m o
  have hfrom : m.ComesFrom o := comesFrom_origin settings around daemonRuns before
  obtain ⟨written, hread, hfields, hparse⟩ := hfrom.written hwrites
  refine ⟨written, hread, hfields, fun hfloats => ⟨hparse hfloats, fun replaced hp hours => ?_⟩⟩
  rw [hfields, hfrom.file hours hfloats replaced hp]

/-- A policy file that protects `/work/`. -/
def protectingWork : DiskChange :=
  .write "/p/es_policy.json" (Utf8.encode "\x7b\"protected_zones\":[\"/work/\"]\x7d")

/-- Surroundings in which the policy file protects `/work/` from the start. -/
def workIsProtected : Surroundings :=
  { Surroundings.emptyDir "/p" with
    disk := ((Surroundings.emptyDir "/p").disk.apply protectingWork).1 }

/-- A zone that was loaded is still protected after an override was put into force. -/
theorem written_protectedZones :
    ∃ written : SecurityPolicy,
      (((start (.ofPaths (.inDir "/p")) workIsProtected false).actAll
        [.send (.requestOverride "/work/a")]).act .takeRequest).policyFile? =
          some written.fileContent ∧ written.protectedZones = ["/work/"] := by
  obtain ⟨written, hread, hfields, -⟩ := written_daemonFields (.ofPaths (.inDir "/p"))
    workIsProtected false [.send (.requestOverride "/work/a")] .takeRequest (by decide +kernel)
  have hloaded : (origin (.ofPaths (.inDir "/p")) workIsProtected false
      [.send (.requestOverride "/work/a")]).loaded.protectedZones = ["/work/"] := by
    decide +kernel
  have hzones : written.daemonFields.protectedZones = ["/work/"] := by rw [hfields, ← hloaded]; rfl
  exact ⟨written, hread, hzones⟩

/-- The document that an edit replaces need not be the one that was loaded last: when the daemon
writes a new one, and an override is put into force before the monitor has seen that, then the
monitor takes the new zone out of the file. -/
theorem unseen_document_is_lost :
    ¬ ∀ (settings : Settings) (around : Surroundings) (daemonRuns : Bool) (before : List Action)
      (a : Action) (replaced written : SecurityPolicy),
      ((start settings around daemonRuns).actAll before).Writes a →
      ((start settings around daemonRuns).actAll before).policyFile?.bind SecurityPolicy.parse? =
        some replaced →
      (((start settings around daemonRuns).actAll before).act a).policyFile?.bind
        SecurityPolicy.parse? = some written →
      written.daemonFields = replaced.daemonFields := by
  intro h
  let before : List Action := [.change protectingWork, .send (.requestOverride "/work/a")]
  let m := (start (.ofPaths (.inDir "/p")) (.emptyDir "/p") false).actAll before
  have hreplaced : (m.policyFile?.bind SecurityPolicy.parse?).map (·.protectedZones) =
      some ["/work/"] := by decide +kernel
  have hwritten : ((m.act .takeRequest).policyFile?.bind SecurityPolicy.parse?).map
      (·.protectedZones) = some [] := by decide +kernel
  obtain ⟨replaced, hparse, hzones⟩ := Option.map_eq_some_iff.mp hreplaced
  obtain ⟨written, hparse', hzones'⟩ := Option.map_eq_some_iff.mp hwritten
  have hfields := h _ _ _ before .takeRequest replaced written (by decide +kernel) hparse hparse'
  have hsame : written.protectedZones = replaced.protectedZones := congrArg (·.protectedZones) hfields
  rw [hzones, hzones'] at hsame
  exact absurd hsame (by simp)

end Monitor

end DenialMonitor
