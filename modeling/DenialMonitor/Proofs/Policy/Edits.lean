import DenialMonitor.Policy.Store
import DenialMonitor.Proofs.Disk.AtomicWrite
import DenialMonitor.Proofs.Policy.RoundTrip

set_option autoImplicit false

/-!
# Edits of the policy file

An edit changes the temporary overrides and nothing else, in memory and, if it changes them at all,
in the file, from where the edited policy is read back. Memory and file agree as long as nobody
else changes the file, also after an edit that failed. There is one exception: the way to a file
that could not be read may go up through `..`, and the directories that an edit creates before it
fails can bring another file into reach.

## Main definitions

* `SecurityPolicy.FloatsReadBack` — the floats of a policy are read back as they were.
* `PolicyStore.EditGoes` — how an edit that leads to given overrides can go.
* `PolicyEdit`, `StoreAction`, `StoreState` — runs of a store.

## Main results

* `SecurityPolicy.Tidy.parse?_fileContent_of_floatsReadBack` — a policy file is read back.
* `StoreState.agrees_and_edits_lose_nothing` — memory and file agree, and edits lose nothing.
* `StoreState.differs_after_failed_edit` — a store for which they do not agree.
-/

namespace DenialMonitor

/-! ## Floats -/

/-- Whether a number is a float. -/
def Number.isFloat : Number → Bool
  | .integer _ => false
  | .float _ => true

namespace Json

mutual

theorem mapNumbers_id (v : Json) : mapNumbers id v = v := by
  match v with
  | .null | .bool b | .number n | .string s => rfl
  | .array items => rw [mapNumbers, mapItems_id items]
  | .object members => rw [mapNumbers, mapMembers_id members]

theorem mapItems_id (vs : List Json) : mapItems id vs = vs := by
  match vs with
  | [] => rfl
  | v :: vs => rw [mapItems, mapNumbers_id v, mapItems_id vs]

theorem mapMembers_id (ms : Members String Number) : mapMembers id ms = ms := by
  match ms with
  | [] => rfl
  | (k, v) :: ms => rw [mapMembers, mapNumbers_id v, mapMembers_id ms]

end

end Json

namespace SecurityPolicy

/-- The text of every float of a policy is read back as the float. -/
def FloatsReadBack (p : SecurityPolicy) : Prop :=
  ∀ n ∈ Json.memberNumbers p.extra, n.isFloat → n.literal.value? = some n

instance (p : SecurityPolicy) : Decidable p.FloatsReadBack :=
  inferInstanceAs (Decidable (∀ n ∈ Json.memberNumbers p.extra, _ → _))

variable {p : SecurityPolicy}

/-- What the policy file holds after a policy was written is read back as the policy. -/
theorem Tidy.parse?_fileContent_of_floatsReadBack (hp : p.Tidy) (hfloats : p.FloatsReadBack) :
    parse? p.fileContent = some p := by
  have hnumbers : ∀ n ∈ Json.memberNumbers p.extra, n.literal.value? = some (id n) := by
    intro n hn
    cases n with
    | integer k =>
      obtain ⟨l, hl⟩ := hp.numbers _ hn
      exact Number.value?_literal_integer (NumberLiteral.fits_of_value? hl)
    | float x => exact hfloats _ hn rfl
  rw [parse?_fileContent hp hnumbers, Json.mapMembers_id]

/-- The policy with other overrides. -/
def withOverrides (p : SecurityPolicy) (overrides : List String) : SecurityPolicy :=
  { p with temporaryOverrides := overrides }

/-- A policy without what edits can change. -/
def daemonFields (p : SecurityPolicy) : SecurityPolicy :=
  p.withOverrides []

theorem Tidy.withOverrides (hp : p.Tidy) (overrides : List String) :
    (p.withOverrides overrides).Tidy :=
  hp.of_extra rfl

/-- Only the unknown members matter. -/
theorem FloatsReadBack.of_extra {q : SecurityPolicy} (hfloats : p.FloatsReadBack)
    (h : q.extra = p.extra) : q.FloatsReadBack := by
  unfold FloatsReadBack
  rw [h]
  exact hfloats

end SecurityPolicy

/-! ## How an edit goes -/

namespace PolicyStore

/-- How an edit can go that leads to given overrides: there is nothing to change, or the new policy
is written and adopted, or the write fails. -/
inductive EditGoes {α : Type} (s : PolicyStore) (d : Disk) (overrides : List String) : Edit α → Prop
  | unchanged {answer : α} (same : s.policy.withOverrides overrides = s.policy) :
    EditGoes s d overrides ⟨s, d, .ok answer⟩
  | written {d' : Disk} {answer : α}
    (write : d.writeAtomically s.path (s.policy.withOverrides overrides).fileContent = (d', none)) :
    EditGoes s d overrides ⟨{ s with policy := s.policy.withOverrides overrides }, d', .ok answer⟩
  | failed {d' : Disk} {e : OsError}
    (write : d.writeAtomically s.path (s.policy.withOverrides overrides).fileContent =
      (d', some e)) :
    EditGoes s d overrides ⟨s, d', .error e⟩

variable (s : PolicyStore) (d : Disk)

theorem editGoes_persist {α : Type} (overrides : List String) (answer : α) :
    s.EditGoes d overrides (s.persist d (s.policy.withOverrides overrides) answer) := by
  unfold persist
  split
  · next d' hwrite => exact .written hwrite
  · next d' e hwrite => exact .failed hwrite

/-- Adding an override puts it behind the others, unless it is among them. -/
theorem editGoes_addOverride (path : String) :
    s.EditGoes d (if path ∈ s.policy.temporaryOverrides then s.policy.temporaryOverrides
      else s.policy.temporaryOverrides ++ [path]) (s.addOverride d path) := by
  unfold addOverride SecurityPolicy.hasOverride
  simp only [List.contains_iff_mem]
  split
  · exact .unchanged rfl
  · exact editGoes_persist s d _ true

/-- Removing an override leaves the other ones, in their order. -/
theorem editGoes_removeOverride (path : String) :
    s.EditGoes d (s.policy.temporaryOverrides.filter (· ≠ path)) (s.removeOverride d path) := by
  unfold removeOverride SecurityPolicy.hasOverride
  simp only [List.contains_iff_mem]
  split
  · exact editGoes_persist s d _ true
  · next hpath =>
    have hsame : s.policy.temporaryOverrides.filter (· ≠ path) = s.policy.temporaryOverrides := by
      rw [List.filter_eq_self]
      intro a ha
      simpa using fun h : a = path => hpath (h ▸ ha)
    exact .unchanged (by rw [hsame]; rfl)

/-- Removing all overrides leaves none. -/
theorem editGoes_clearOverrides : s.EditGoes d [] (s.clearOverrides d) := by
  unfold clearOverrides
  split
  · next hempty =>
    have hsame : s.policy.temporaryOverrides = [] := List.length_eq_zero_iff.mp hempty
    exact .unchanged (by rw [← hsame]; rfl)
  · exact editGoes_persist s d [] _

variable {s d} {α : Type} {overrides : List String} {e : Edit α}

/-- No edit changes the path of the file. -/
theorem EditGoes.path_eq (h : s.EditGoes d overrides e) : e.store.path = s.path := by
  cases h <;> rfl

/-- Whatever comes of an edit, all but the overrides stay. -/
theorem EditGoes.daemonFields_eq (h : s.EditGoes d overrides e) :
    e.store.policy.daemonFields = s.policy.daemonFields := by
  cases h <;> rfl

/-- An edit that succeeds changes the overrides in memory and nothing else. -/
theorem EditGoes.policy_eq (h : s.EditGoes d overrides e) (hok : e.result.isOk) :
    e.store.policy = s.policy.withOverrides overrides := by
  cases h with
  | unchanged same => exact same.symm
  | written => rfl
  | failed => simp [Except.isOk, Except.toBool] at hok

/-- An edit that fails leaves the store as it was. -/
theorem EditGoes.store_eq_of_not_ok (h : s.EditGoes d overrides e) (hfails : ¬ e.result.isOk) :
    e.store = s := by
  cases h with
  | unchanged => rfl
  | written => exact absurd rfl hfails
  | failed => rfl

/-- An edit that fails has not changed the file. -/
theorem EditGoes.stopped_of_not_ok (h : s.EditGoes d overrides e) (hfails : ¬ e.result.isOk) :
    AtomicWrite.Stopped d e.disk s.path := by
  cases h with
  | unchanged => exact .refl d s.path
  | written => exact absurd rfl hfails
  | failed write => exact Disk.stopped_of_writeAtomically_error write

/-- An edit that succeeds either changes nothing at all or leaves the new policy in the file. -/
theorem EditGoes.file_eq (h : s.EditGoes d overrides e) (hok : e.result.isOk) :
    e.store = s ∧ e.disk = d ∨
      e.disk.read? s.path = some (s.policy.withOverrides overrides).fileContent := by
  cases h with
  | unchanged => exact .inl ⟨rfl, rfl⟩
  | written write => exact .inr (Disk.read?_of_writeAtomically_ok write)
  | failed => simp [Except.isOk, Except.toBool] at hok

/-- Whatever comes of an edit, the policy in memory is the one of the file if it was before, and
the file could be read or its path does not go up through `..`. The latter holds again. -/
theorem EditGoes.agrees (h : s.EditGoes d overrides e) (hp : s.policy.Tidy)
    (hfloats : s.policy.FloatsReadBack)
    (hagrees : s.policy = SecurityPolicy.ofFile (d.read? s.path))
    (hnear : (d.read? s.path).isSome ∨ d.IsTree ∧ ".." ∉ Path.steps s.path) :
    e.store.policy = SecurityPolicy.ofFile (e.disk.read? s.path) ∧
      ((e.disk.read? s.path).isSome ∨ e.disk.IsTree ∧ ".." ∉ Path.steps s.path) := by
  cases h with
  | unchanged => exact ⟨hagrees, hnear⟩
  | @written d' answer write =>
    have hread := Disk.read?_of_writeAtomically_ok write
    have hparse := (hp.withOverrides overrides).parse?_fileContent_of_floatsReadBack
      (hfloats.of_extra rfl)
    simp only [hread, SecurityPolicy.ofFile, Option.bind_some, hparse]
    exact ⟨rfl, .inl rfl⟩
  | @failed d' error write =>
    have hread := Disk.read?_of_writeAtomically_error write hnear
    simp only [hread]
    refine ⟨hagrees, hnear.imp_right fun h => ⟨?_, h.2⟩⟩
    have htree' := h.1.writeAtomically s.path (s.policy.withOverrides overrides).fileContent
    rwa [write] at htree'

end PolicyStore

/-! ## Runs of a store -/

/-- An edit of the overrides. -/
inductive PolicyEdit where
  | add (path : String)
  | remove (path : String)
  | clear
  deriving DecidableEq, Repr

/-- The overrides after an edit. -/
def PolicyEdit.overrides (overrides : List String) : PolicyEdit → List String
  | .add path => if path ∈ overrides then overrides else overrides ++ [path]
  | .remove path => overrides.filter (· ≠ path)
  | .clear => []

/-- What can happen to a store and its file. -/
inductive StoreAction where
  | reload
  | edit (e : PolicyEdit)
  /-- Someone changes files or directories. -/
  | change (c : DiskChange)
  deriving DecidableEq, Repr

/-- A store and the disk with its file. -/
structure StoreState where
  store : PolicyStore
  disk : Disk

namespace StoreState

/-- The store for the file at `path` after its first reload. -/
def load (path : String) (disk : Disk) : StoreState :=
  ⟨(PolicyStore.new path).reload disk, disk⟩

/-- Takes over what an edit leaves behind, and tells whether it succeeded. -/
def adopt {α : Type} (e : PolicyStore.Edit α) : StoreState × Bool :=
  (⟨e.store, e.disk⟩, e.result.isOk)

/-- Performs an edit, and tells whether it succeeded. -/
def edit (s : StoreState) : PolicyEdit → StoreState × Bool
  | .add path => adopt (s.store.addOverride s.disk path)
  | .remove path => adopt (s.store.removeOverride s.disk path)
  | .clear => adopt (s.store.clearOverrides s.disk)

/-- The policy that an edit is to lead to. -/
def edited (s : StoreState) (e : PolicyEdit) : SecurityPolicy :=
  s.store.policy.withOverrides (e.overrides s.store.policy.temporaryOverrides)

/-- An edit succeeds and changes the overrides, and so it writes the file. -/
def Writes (s : StoreState) (e : PolicyEdit) : Prop :=
  (s.edit e).2 = true ∧
    e.overrides s.store.policy.temporaryOverrides ≠ s.store.policy.temporaryOverrides

instance (s : StoreState) (e : PolicyEdit) : Decidable (s.Writes e) :=
  inferInstanceAs (Decidable (_ ∧ _))

/-- What an action does. -/
def act (s : StoreState) : StoreAction → StoreState
  | .reload => { s with store := s.store.reload s.disk }
  | .edit e => (s.edit e).1
  | .change c => { s with disk := (s.disk.apply c).1 }

/-- What a list of actions does. -/
def actAll (s : StoreState) (actions : List StoreAction) : StoreState :=
  actions.foldl act s

/-- What the file holds, if it can be read. -/
def file? (s : StoreState) : Option (List UInt8) :=
  s.disk.read? s.store.path

/-- Nobody else changes the file, and the floats of a document that is loaded are read back. -/
def Quiet (s : StoreState) : StoreAction → Prop
  | .reload => (SecurityPolicy.ofFile s.file?).FloatsReadBack
  | .edit _ => True
  | .change c => (s.act (.change c)).file? = s.file?

/-- Every action of a run is quiet. -/
def QuietAll : StoreState → List StoreAction → Prop
  | _, [] => True
  | s, a :: actions => s.Quiet a ∧ QuietAll (s.act a) actions

instance (s : StoreState) (a : StoreAction) : Decidable (s.Quiet a) := by
  cases a <;> unfold Quiet <;> infer_instance

instance QuietAll.decidable : ∀ (s : StoreState) actions, Decidable (s.QuietAll actions)
  | _, [] => inferInstanceAs (Decidable True)
  | s, a :: actions =>
    have := QuietAll.decidable (s.act a) actions
    inferInstanceAs (Decidable (s.Quiet a ∧ QuietAll (s.act a) actions))

/-- Every edit goes in one of the ways that lead to its overrides. -/
theorem editGoes (s : StoreState) (e : PolicyEdit) :
    ∃ (α : Type) (r : PolicyStore.Edit α), s.edit e = adopt r ∧
      s.store.EditGoes s.disk (e.overrides s.store.policy.temporaryOverrides) r := by
  cases e with
  | add path => exact ⟨Bool, _, rfl, s.store.editGoes_addOverride s.disk path⟩
  | remove path => exact ⟨Bool, _, rfl, s.store.editGoes_removeOverride s.disk path⟩
  | clear => exact ⟨Nat, _, rfl, s.store.editGoes_clearOverrides s.disk⟩

/-- What holds of a store after its first reload, whatever happens: its policy could be written
and would be read back as it is. -/
structure Sound (s : StoreState) : Prop where
  tidy : s.store.policy.Tidy
  floats : s.store.policy.FloatsReadBack

/-- A store whose policy is the one of its file, which failing edits keep out of reach or in
reach. -/
structure InSync (s : StoreState) : Prop where
  agrees : s.store.policy = SecurityPolicy.ofFile s.file?
  near : s.file?.isSome ∨ s.disk.IsTree ∧ ".." ∉ Path.steps s.store.path

section

variable {s : StoreState} {path : String} {d : Disk}

theorem edit_path (s : StoreState) (e : PolicyEdit) : (s.edit e).1.store.path = s.store.path := by
  obtain ⟨α, r, hr, hgoes⟩ := s.editGoes e
  rw [hr]
  exact hgoes.path_eq

theorem edit_daemonFields (s : StoreState) (e : PolicyEdit) :
    (s.edit e).1.store.policy.daemonFields = s.store.policy.daemonFields := by
  obtain ⟨α, r, hr, hgoes⟩ := s.editGoes e
  rw [hr]
  exact hgoes.daemonFields_eq

/-- An edit that succeeds leaves the policy that it was to lead to. -/
theorem policy_edit {e : PolicyEdit} (hok : (s.edit e).2 = true) :
    (s.edit e).1.store.policy = s.edited e := by
  obtain ⟨α, r, hr, hgoes⟩ := s.editGoes e
  rw [hr] at hok ⊢
  exact hgoes.policy_eq hok

/-- An edit that fails leaves the store as it was. -/
theorem store_edit_of_not_ok {e : PolicyEdit} (hfails : ¬ (s.edit e).2 = true) :
    (s.edit e).1.store = s.store := by
  obtain ⟨α, r, hr, hgoes⟩ := s.editGoes e
  rw [hr] at hfails ⊢
  exact hgoes.store_eq_of_not_ok hfails

/-- An edit that succeeds either changes nothing at all or leaves the new policy in the file. -/
theorem file?_edit {e : PolicyEdit} (hok : (s.edit e).2 = true) :
    (s.edit e).1 = s ∨ (s.edit e).1.file? = some (s.edited e).fileContent := by
  obtain ⟨α, r, hr, hgoes⟩ := s.editGoes e
  rw [hr] at hok ⊢
  rcases hgoes.file_eq hok with ⟨hstore, hdisk⟩ | hread
  · left
    simp only [adopt, hstore, hdisk]
  · right
    rwa [← hgoes.path_eq] at hread

/-- An edit that leaves no file behind leaves the store as it was. -/
theorem store_edit_of_file?_eq_none {e : PolicyEdit} (hfile : (s.edit e).1.file? = none) :
    (s.edit e).1.store = s.store := by
  by_cases hok : (s.edit e).2 = true
  · rcases file?_edit hok with hsame | hwritten
    · rw [hsame]
    · rw [hfile] at hwritten
      exact absurd hwritten (Option.some_ne_none _).symm
  · exact store_edit_of_not_ok hok

theorem Writes.file?_eq {e : PolicyEdit} (h : s.Writes e) :
    (s.edit e).1.file? = some (s.edited e).fileContent := by
  refine (file?_edit h.1).resolve_left fun hsame => h.2 ?_
  have hpolicy := policy_edit h.1
  rw [hsame] at hpolicy
  exact (congrArg (·.temporaryOverrides) hpolicy).symm

/-- An edit that leaves the file as it was leaves the policy in memory as it was, if that is the one
of the file. -/
theorem policy_edit_of_file?_eq {e : PolicyEdit} (htidy : s.store.policy.Tidy)
    (hagrees : s.store.policy = SecurityPolicy.ofFile s.file?)
    (hfile : (s.edit e).1.file? = s.file?) : (s.edit e).1.store.policy = s.store.policy := by
  by_cases hok : (s.edit e).2 = true
  · rcases file?_edit hok with hsame | hwritten
    · rw [hsame]
    · -- what was written is what the file held before, so the edit adds no override and drops none
      have htidy' : (s.edited e).Tidy := htidy.withOverrides _
      obtain ⟨extra, hparse⟩ := htidy'.exists_parse?_fileContent
      rw [hfile] at hwritten
      rw [hwritten, SecurityPolicy.ofFile, Option.bind_some, hparse] at hagrees
      have hoverrides : s.store.policy.temporaryOverrides =
          e.overrides s.store.policy.temporaryOverrides :=
        congrArg (·.temporaryOverrides) hagrees
      rw [policy_edit hok, edited, ← hoverrides]
      rfl
  · rw [store_edit_of_not_ok hok]

theorem Sound.parse?_edited (h : s.Sound) (e : PolicyEdit) :
    SecurityPolicy.parse? (s.edited e).fileContent = some (s.edited e) := by
  have htidy : (s.edited e).Tidy := h.tidy.withOverrides _
  exact htidy.parse?_fileContent_of_floatsReadBack (h.floats.of_extra rfl)

/-- One action keeps a store sound. -/
theorem Sound.act (h : s.Sound) {a : StoreAction} (ha : s.Quiet a) : (s.act a).Sound := by
  cases a with
  | reload => exact ⟨SecurityPolicy.tidy_ofFile _, ha⟩
  | edit e =>
    have hextra : (s.edit e).1.store.policy.extra = s.store.policy.extra :=
      congrArg (·.extra) (s.edit_daemonFields e)
    exact ⟨h.tidy.of_extra hextra, h.floats.of_extra hextra⟩
  | change c => exact ⟨h.tidy, h.floats⟩

/-- One action keeps a store in sync with its file. -/
theorem InSync.act (h : s.InSync) (hsound : s.Sound) {a : StoreAction} (ha : s.Quiet a) :
    (s.act a).InSync := by
  cases a with
  | reload => exact ⟨rfl, h.near⟩
  | edit e =>
    obtain ⟨α, r, hr, hgoes⟩ := s.editGoes e
    have hagrees := hgoes.agrees hsound.tidy hsound.floats h.agrees h.near
    rw [← hgoes.path_eq] at hagrees
    show (s.edit e).1.InSync
    rw [hr]
    exact ⟨hagrees.1, hagrees.2⟩
  | change c =>
    have hfile : (s.act (.change c)).file? = s.file? := ha
    refine ⟨?_, ?_⟩
    · rw [hfile]
      exact h.agrees
    · rw [hfile]
      exact h.near.imp_right fun ⟨htree, hnoUp⟩ => ⟨htree.apply c, hnoUp⟩

/-- Every quiet run keeps a store sound. -/
theorem Sound.actAll {actions : List StoreAction} (h : s.Sound) (hquiet : s.QuietAll actions) :
    (s.actAll actions).Sound := by
  induction actions generalizing s with
  | nil => exact h
  | cons a actions ih => exact ih (h.act hquiet.1) hquiet.2

/-- Every quiet run keeps a sound store in sync with its file. -/
theorem InSync.actAll {actions : List StoreAction} (h : s.InSync) (hsound : s.Sound)
    (hquiet : s.QuietAll actions) : (s.actAll actions).InSync := by
  induction actions generalizing s with
  | nil => exact h
  | cons a actions ih => exact ih (h.act hsound hquiet.1) (hsound.act hquiet.1) hquiet.2

theorem sound_load (hfloats : (SecurityPolicy.ofFile (d.read? path)).FloatsReadBack) :
    (load path d).Sound :=
  ⟨SecurityPolicy.tidy_ofFile _, hfloats⟩

end

/-- **Memory and file agree, and edits lose nothing.** Take a store that was reloaded once, and any
run of edits and reloads in which nobody else changes the file. If the file could be read at the
first reload, or its path does not go up through `..`, then reloading changes nothing, whatever
came of the edits. For any path, an edit that succeeds sets the overrides and nothing else; it
either had nothing to change or the new policy, with all its members, is read back from the file.

**Proof sketch.** Every policy that was read is tidy, and edits keep its unknown members, so what
is written is read back. A write that fails leaves the document as it was. Both are kept from
action to action. -/
theorem agrees_and_edits_lose_nothing (path : String) (d : Disk)
    (hfloats : (SecurityPolicy.ofFile (d.read? path)).FloatsReadBack)
    (actions : List StoreAction) (hquiet : (load path d).QuietAll actions) :
    let s := (load path d).actAll actions
    ((d.read? path).isSome ∨ d.IsTree ∧ ".." ∉ Path.steps path → s.act .reload = s) ∧
      ∀ e, (s.edit e).2 = true →
        (s.edit e).1.store.policy = s.edited e ∧
          ((s.edit e).1 = s ∨ (s.edit e).1.file?.bind SecurityPolicy.parse? = some (s.edited e)) := by
  intro s
  have hload := sound_load hfloats
  refine ⟨fun hnear => ?_, fun e hok => ?_⟩
  · have hsync : s.InSync := InSync.actAll ⟨rfl, hnear⟩ hload hquiet
    show { s with store := { s.store with policy := SecurityPolicy.ofFile s.file? } } = s
    rw [← hsync.agrees]
  · have hsound : s.Sound := hload.actAll hquiet
    refine ⟨policy_edit hok, (file?_edit hok).imp_right fun hfile => ?_⟩
    rw [hfile, Option.bind_some, hsound.parse?_edited]

/-- A disk whose only file is a policy with a member that the monitor does not know. -/
def diskWithUnknownMember : Disk :=
  let document := "\x7b\"protected_zones\":[],\"limits\":\x7b\"rates\":[0.5,null]\x7d\x7d"
  ((Disk.empty.apply (.makeDirs "/p")).1.apply (.write "/p/p.json" (Utf8.encode document))).1

/-- Edits of that policy, of which the second one fails. -/
def editsWithFailure : List StoreAction :=
  [.edit (.add "/a"), .change (.makeDirs "/p/p.tmp"), .edit .clear, .change (.removeDir "/p/p.tmp")]

/-- The member outlives these edits, and one more. -/
theorem edits_lose_no_unknown_members :
    ((load "/p/p.json" diskWithUnknownMember).actAll editsWithFailure).act .reload =
        (load "/p/p.json" diskWithUnknownMember).actAll editsWithFailure ∧
      (((load "/p/p.json" diskWithUnknownMember).actAll editsWithFailure).edit .clear).1.store.policy =
        ((load "/p/p.json" diskWithUnknownMember).actAll editsWithFailure).edited .clear := by
  obtain ⟨hagrees, hedits⟩ := agrees_and_edits_lose_nothing "/p/p.json" diskWithUnknownMember
    (by decide +kernel) editsWithFailure (by decide +kernel)
  exact ⟨hagrees (.inl (by decide +kernel)), (hedits .clear (by decide +kernel)).1⟩

/-- A disk with a policy, and a directory where the temporary file for it would be. -/
def diskWithBlockedTemporary : Disk :=
  let document := "\x7b\"protected_zones\":[],\"temporary_overrides\":[\"/work/a.md\"]\x7d"
  let dir := (Disk.empty.apply (.makeDirs "/etc/policy.tmp")).1
  (dir.apply (.write "/etc/policy.json" (Utf8.encode document))).1

/-- The way to a file may be missing until a failing edit creates it: the directory `guard` is not
there at the first reload, so the policy in memory is empty, and the edit creates it before it
fails. The file has not changed meanwhile, but reloading it finds another policy. -/
theorem differs_after_failed_edit :
    ¬ ∀ (path : String) (d : Disk) (actions : List StoreAction), d.IsTree →
      (SecurityPolicy.ofFile (d.read? path)).FloatsReadBack → (load path d).QuietAll actions →
        ((load path d).actAll actions).act .reload = (load path d).actAll actions := by
  intro h
  have htree : diskWithBlockedTemporary.IsTree := (Disk.isTree_empty.apply _).apply _
  have hsame := h "/etc/guard/../policy.json" diskWithBlockedTemporary
    [.edit (.add "/work/notes.md")] htree (by decide +kernel) (by decide +kernel)
  have hoverrides := congrArg (·.store.policy.temporaryOverrides) hsame
  revert hoverrides
  decide +kernel

end StoreState

end DenialMonitor
