import DenialMonitor.Proofs.Overrides.Document

set_option autoImplicit false

/-!
# Overrides in memory and in the file

As long as nobody else changes the policy file and every edit succeeds, the overrides in memory are
those of the file, whatever is loaded or edited. It may take a first edit to get there: where the
file is missing or malformed, or comes into reach only later, there are no overrides in memory.

## Main definitions

* `Ledger.GoesWell` — a deed that does not interfere.
* `Ledger.Agrees` — the overrides in memory are those of the file.

## Main results

* `Ledger.overrides_perform_of_edit?`, `Ledger.overrides_perform_of_edit?_eq_none` — which overrides
  there are after a deed.
* `Ledger.Agrees.perform`, `Ledger.agrees_or_empty_perform` — deeds keep the agreement.
-/

namespace DenialMonitor

namespace Ledger

variable {l : Ledger} {d : Deed}

/-- The overrides in memory. -/
def overrides (l : Ledger) : List String :=
  l.store.policy.temporaryOverrides

/-- A deed does not interfere: an edit succeeds, the policy file stays as it is otherwise, time passes
while no firing is queued and not beyond a moment at which a timer fires, no helper is involved, and
the monitor goes on. -/
def GoesWell (l : Ledger) : Deed → Prop
  | .files disk => ∀ content, l.disk.read? l.store.path = some content →
      disk.read? l.store.path = some content
  | .pass span => l.fired = [] ∧ ∀ s ∈ l.expiry.sleepers, l.now + span ≤ s.due
  | .request _ e | .remove _ e | .revoke _ e => e.result.isOk
  | .clear e => e.result.isOk
  | .grant _ | .close => False
  | _ => True

/-- The overrides in memory are those of the file. -/
def Agrees (l : Ledger) : Prop :=
  ∃ p, l.state.file?.bind SecurityPolicy.parse? = some p ∧ p.temporaryOverrides = l.overrides

/-- A deed that comes with an edit goes well if and only if the edit succeeds. -/
theorem goesWell_iff {e : PolicyEdit} (hallow : l.Allows d) (he : d.edit? = some e) :
    l.GoesWell d ↔ (l.state.edit e).2 = true := by
  cases d with
  | request path e' =>
    obtain rfl : e' = l.store.addOverride l.disk path := hallow
    obtain rfl : PolicyEdit.add path = e := Option.some.inj he
    rfl
  | remove path e' =>
    obtain rfl : e' = l.store.removeOverride l.disk path := hallow
    obtain rfl : PolicyEdit.remove path = e := Option.some.inj he
    rfl
  | clear e' =>
    obtain rfl : e' = l.store.clearOverrides l.disk := hallow
    obtain rfl : PolicyEdit.clear = e := Option.some.inj he
    rfl
  | revoke path e' =>
    obtain rfl : e' = l.store.removeOverride l.disk path := hallow.1
    obtain rfl : PolicyEdit.remove path = e := Option.some.inj he
    rfl
  | _ => simp [Deed.edit?] at he

/-- What a file that agrees with the memory holds is what is loaded from it. -/
theorem Agrees.overrides_ofFile (h : l.Agrees) :
    (SecurityPolicy.ofFile l.state.file?).temporaryOverrides = l.overrides := by
  obtain ⟨p, hp, hoverrides⟩ := h
  rw [SecurityPolicy.ofFile, hp]
  exact hoverrides

/-- A deed that comes with an edit leaves the overrides to which the edit leads. -/
theorem overrides_perform_of_edit? {e : PolicyEdit} (hallow : l.Allows d) (hwell : l.GoesWell d)
    (he : d.edit? = some e) : (l.perform d).overrides = e.overrides l.overrides := by
  have hpolicy := StoreState.policy_edit ((goesWell_iff hallow he).mp hwell)
  rw [← state_perform_of_edit? hallow he] at hpolicy
  exact congrArg (·.temporaryOverrides) hpolicy

/-- A deed without an edit leaves the overrides as they are. -/
theorem overrides_perform_of_edit?_eq_none (h : l.Agrees) (he : d.edit? = none) :
    (l.perform d).overrides = l.overrides := by
  by_cases hl : d.loads
  · have hstate := congrArg (·.store.policy.temporaryOverrides) (state_perform_of_loads (l := l) hl)
    exact hstate.trans h.overrides_ofFile
  · exact congrArg (·.policy.temporaryOverrides) (store_perform he hl)

/-- No deed changes where the file lies. -/
theorem path_perform (hallow : l.Allows d) : (l.perform d).store.path = l.store.path := by
  cases he : d.edit? with
  | some e =>
    have hpath := l.state.edit_path e
    rw [← state_perform_of_edit? hallow he] at hpath
    exact hpath
  | none =>
    by_cases hl : d.loads
    · exact congrArg (·.store.path) (state_perform_of_loads (l := l) hl)
    · exact congrArg (·.path) (store_perform he hl)

/-- Every deed leaves a policy that could be written and read again. -/
theorem tidy_perform (htidy : l.store.policy.Tidy) (hallow : l.Allows d) :
    (l.perform d).store.policy.Tidy := by
  cases he : d.edit? with
  | some e =>
    have hfields := l.state.edit_daemonFields e
    rw [← state_perform_of_edit? hallow he] at hfields
    exact htidy.of_extra (congrArg (·.extra) hfields)
  | none =>
    by_cases hl : d.loads
    · have hpolicy : (l.perform d).store.policy = SecurityPolicy.ofFile l.state.file? :=
        congrArg (·.store.policy) (state_perform_of_loads (l := l) hl)
      rw [hpolicy]
      exact SecurityPolicy.tidy_ofFile _
    · rw [store_perform he hl]
      exact htidy

/-- An edit that succeeds and writes leaves agreement. -/
theorem agrees_of_file? {p : SecurityPolicy} (hp : p.Tidy)
    (hfile : l.state.file? = some p.fileContent) (hpolicy : l.store.policy = p) : l.Agrees := by
  obtain ⟨extra, hparse⟩ := hp.exists_parse?_fileContent
  refine ⟨{ p with extra }, by rw [hfile, Option.bind_some, hparse], ?_⟩
  rw [overrides, hpolicy]

/-- After an edit that succeeds there is agreement, or nothing has changed. -/
theorem agrees_or_state_eq {e : PolicyEdit} (htidy : l.store.policy.Tidy) (hallow : l.Allows d)
    (hwell : l.GoesWell d) (he : d.edit? = some e) :
    (l.perform d).Agrees ∨ (l.perform d).state = l.state := by
  have hok := (goesWell_iff hallow he).mp hwell
  have hstate := state_perform_of_edit? hallow he
  rcases StoreState.file?_edit hok with hsame | hfile
  · exact .inr (hstate.trans hsame)
  · left
    have hpolicy := StoreState.policy_edit hok
    rw [← hstate] at hfile hpolicy
    have htidy' : (l.state.edited e).Tidy := htidy.of_extra rfl
    exact agrees_of_file? htidy' hfile hpolicy

/-- Agreement depends on the store and the disk only. -/
theorem Agrees.of_state {l' : Ledger} (h : l.Agrees) (hstate : l'.state = l.state) : l'.Agrees := by
  obtain ⟨p, hp, hoverrides⟩ := h
  refine ⟨p, by rw [hstate, hp], hoverrides.trans ?_⟩
  exact congrArg (·.store.policy.temporaryOverrides) hstate.symm

/-- A deed that goes well keeps the agreement.

**Proof sketch.** What was written is read back with its overrides, and what is loaded is what the
file holds. Whatever else happens to the disk leaves a file that can be read as it is. -/
theorem Agrees.perform (h : l.Agrees) (htidy : l.store.policy.Tidy) (hallow : l.Allows d)
    (hwell : l.GoesWell d) : (l.perform d).Agrees := by
  cases he : d.edit? with
  | some e => exact (agrees_or_state_eq htidy hallow hwell he).elim id h.of_state
  | none =>
    have hoverrides := overrides_perform_of_edit?_eq_none h he
    obtain ⟨p, hp, hmemory⟩ := h
    refine ⟨p, ?_, by rw [hoverrides, hmemory]⟩
    obtain ⟨content, hcontent, hparse⟩ := Option.bind_eq_some_iff.mp hp
    suffices hfile : (l.perform d).state.file? = some content by rw [hfile, Option.bind_some, hparse]
    cases d with
    | request | remove | clear | revoke => simp [Deed.edit?] at he
    | grant | close => exact hwell.elim
    | files disk => exact hwell content hcontent
    | _ => exact hcontent

/-- A deed that goes well leaves agreement, or no overrides in memory, where it found that. -/
theorem agrees_or_empty_perform (h : l.Agrees ∨ l.overrides = []) (htidy : l.store.policy.Tidy)
    (hallow : l.Allows d) (hwell : l.GoesWell d) :
    (l.perform d).Agrees ∨ (l.perform d).overrides = [] := by
  rcases h with h | hempty
  · exact .inl (h.perform htidy hallow hwell)
  cases he : d.edit? with
  | some e =>
    refine (agrees_or_state_eq htidy hallow hwell he).imp_right fun hstate => ?_
    exact (congrArg (·.store.policy.temporaryOverrides) hstate).trans hempty
  | none =>
    by_cases hl : d.loads
    · have hstate := state_perform_of_loads (l := l) hl
      have hpolicy : (l.perform d).store.policy = SecurityPolicy.ofFile l.state.file? :=
        congrArg (·.store.policy) hstate
      have hfile : (l.perform d).state.file? = l.state.file? := by
        rw [hstate]
        rfl
      rw [Agrees, overrides, hpolicy, hfile, SecurityPolicy.ofFile]
      cases hparse : l.state.file?.bind SecurityPolicy.parse? with
      | none => exact .inr rfl
      | some p => exact .inl ⟨p, rfl, rfl⟩
    · exact .inr ((congrArg (·.policy.temporaryOverrides) (store_perform he hl)).trans hempty)

end Ledger

end DenialMonitor
