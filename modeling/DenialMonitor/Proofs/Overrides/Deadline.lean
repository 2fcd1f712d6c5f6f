import DenialMonitor.Proofs.Monitor.Unhelped
import DenialMonitor.Proofs.Overrides.Agreement
import DenialMonitor.Proofs.Overrides.Guard

set_option autoImplicit false

/-!
# The deadline of an override

A request that is granted is a promise: the path is open until its deadline and shut from then on,
and of that is told once, at the deadline. Until a user says another word about the path, every deed
that goes well leaves a pending promise pending or ends it, and leaves one that is over as it is.

## Main definitions

* `Deed.speaks`, `Deed.revokes` — deeds that are about the override of a path.
* `Ledger.Pending`, `Ledger.Over` — a promise before and after its end.

## Main results

* `Ledger.pending_request` — a grant is a pending promise.
* `Ledger.Pending.perform`, `Ledger.Pending.perform_revoke`, `Ledger.Over.perform` — what deeds make
  of promises.
-/

namespace DenialMonitor

/-- Whether a deed is a word of a user about the override of `p`. -/
def Deed.speaks (p : String) : Deed → Bool
  | .request q _ | .remove q _ | .grant q => q = p
  | .clear _ => true
  | _ => false

/-- Whether a deed takes the override of `p` back because its time is over. -/
def Deed.revokes (p : String) : Deed → Bool
  | .revoke q _ => q = p
  | _ => false

theorem Deed.not_revokes_of_speaks {p : String} {d : Deed} (h : d.speaks p) : ¬ d.revokes p := by
  cases d <;> simp_all [Deed.speaks, Deed.revokes]

theorem Deed.not_grants_of_not_speaks {p : String} {d : Deed} (h : ¬ d.speaks p) :
    ¬ d.grants p := by
  cases d <;> simp_all [Deed.grants, Deed.speaks]

/-- Only a word of a user, a revocation and the end of the monitor give a timer up. -/
theorem Deed.not_retires_of_not_speaks {p : String} {d : Deed} (hspeaks : ¬ d.speaks p)
    (hrevokes : ¬ d.revokes p) (hclose : d ≠ .close) : ¬ d.retires p := by
  cases d <;> simp_all [Deed.retires, Deed.speaks, Deed.revokes]

namespace Ledger

variable {l : Ledger} {d : Deed} {p : String} {deadline : Nat}

/-- Without a slot for `p` no firing is taken for one of `p`. -/
theorem not_revokes_of_generation?_eq_none (h : l.expiry.generation? p = none)
    (hallow : l.Allows d) : ¬ d.revokes p := by
  intro hrevokes
  cases d with
  | revoke q e =>
    obtain rfl : q = p := by simpa [Deed.revokes] using hrevokes
    obtain ⟨-, g, -, hg⟩ := hallow
    simp [h] at hg
  | _ => simp [Deed.revokes] at hrevokes

/-- When it was told that the override of `p` was taken back, latest first. -/
def notices (l : Ledger) (p : String) : List Nat :=
  (l.told.filter (·.2 = p)).map (·.1)

/-! ## What other deeds leave alone -/

/-- A deed that is not about `p` leaves its override as it is. -/
theorem mem_overrides_perform (hallow : l.Allows d) (hwell : l.GoesWell d) (hagrees : l.Agrees)
    (hspeaks : ¬ d.speaks p) (hrevokes : ¬ d.revokes p) :
    p ∈ (l.perform d).overrides ↔ p ∈ l.overrides := by
  cases he : d.edit? with
  | none => rw [overrides_perform_of_edit?_eq_none hagrees he]
  | some e =>
    rw [overrides_perform_of_edit? hallow hwell he]
    cases d with
    | request q e' =>
      obtain rfl : PolicyEdit.add q = e := Option.some.inj he
      have hq : p ≠ q := fun h => hspeaks (by simp [Deed.speaks, h])
      simp only [PolicyEdit.overrides]
      split
      · rfl
      · simp [hq]
    | remove q e' =>
      obtain rfl : PolicyEdit.remove q = e := Option.some.inj he
      have hq : p ≠ q := fun h => hspeaks (by simp [Deed.speaks, h])
      simp [PolicyEdit.overrides, hq]
    | revoke q e' =>
      obtain rfl : PolicyEdit.remove q = e := Option.some.inj he
      have hq : p ≠ q := fun h => hrevokes (by simp [Deed.revokes, h])
      simp [PolicyEdit.overrides, hq]
    | clear e' => simp [Deed.speaks] at hspeaks
    | _ => simp [Deed.edit?] at he

/-- A deed that does not take the override of `p` back tells nothing of it. -/
theorem notices_perform (hrevokes : ¬ d.revokes p) : (l.perform d).notices p = l.notices p := by
  cases d with
  | request q e =>
    simp only [perform]
    split
    · simp only [notices, schedule]
      split <;> rfl
    · rfl
  | remove q e =>
    simp only [perform]
    split <;> rfl
  | clear e =>
    simp only [perform]
    split <;> rfl
  | grant q =>
    simp only [perform, notices, schedule]
    split <;> rfl
  | revoke q e =>
    have hq : q ≠ p := fun h => hrevokes (by simp [Deed.revokes, h])
    simp only [perform, notices]
    split
    · rw [List.filter_cons_of_neg (by simpa using hq)]
    · rfl
  | _ => rfl

/-- A deed that is not about `p` leaves its slot as it is. -/
theorem generation?_perform (hspeaks : ¬ d.speaks p) (hrevokes : ¬ d.revokes p)
    (hclose : d ≠ .close) : (l.perform d).expiry.generation? p = l.expiry.generation? p := by
  apply generation?_perform_of_not_retires
  · exact Deed.not_grants_of_not_speaks hspeaks
  · exact Deed.not_retires_of_not_speaks hspeaks hrevokes hclose

/-- A timer that is there after a deed was there before or has a new generation. -/
theorem mem_sleepers_perform {s : Sleeper String} (hs : s ∈ (l.perform d).expiry.sleepers) :
    s ∈ l.expiry.sleepers ∨ s.generation = l.expiry.latest + 1 := by
  have hschedule (l : Ledger) (q : String) (hs : s ∈ (l.schedule q).expiry.sleepers) :
      s ∈ l.expiry.sleepers ∨ s.generation = l.expiry.latest + 1 := by
    simp only [schedule] at hs
    split at hs
    · exact .inl hs
    · rcases KeyedTimers.mem_sleepers_schedule.mp hs with rfl | ⟨hs, -⟩
      · exact .inr rfl
      · exact .inl hs
  cases d with
  | fire g => exact .inl (KeyedTimers.mem_of_mem_sleepers_wake hs)
  | request q e =>
    simp only [perform] at hs
    split at hs
    · exact hschedule (l.adopt e) q hs
    · exact .inl hs
  | grant q => exact hschedule { l with store := l.store.reload l.disk } q hs
  | remove q e =>
    simp only [perform] at hs
    split at hs
    · exact .inl (KeyedTimers.mem_sleepers_cancel.mp hs).1
    · exact .inl hs
  | clear e =>
    simp only [perform] at hs
    split at hs
    · exact .inl (KeyedTimers.mem_of_mem_sleepers_cancelAll hs)
    · exact .inl hs
  | close => exact .inl (KeyedTimers.mem_of_mem_sleepers_cancelAll hs)
  | _ => exact .inl hs

/-- A firing that is queued after a deed was queued before, or it is that of a timer whose time was
over. -/
theorem mem_fired_perform {x : String × Nat} (hx : x ∈ (l.perform d).fired) :
    x ∈ l.fired ∨ ∃ s ∈ l.expiry.sleepers, s.due ≤ l.now ∧ x = (s.key, s.generation) := by
  cases d with
  | fire g =>
    simp only [perform] at hx
    rcases List.mem_append.mp hx with hx | hx
    · exact .inl hx
    · rcases l.expiry.wake_cases g l.now with hw | ⟨s, hs, -, hdue, hw⟩ <;> rw [hw] at hx
      · simp at hx
      · split at hx
        · exact .inr ⟨s, hs, hdue, by simpa using hx⟩
        · simp at hx
  | request q e =>
    simp only [perform] at hx
    split at hx
    · simp only [schedule] at hx
      split at hx <;> exact .inl hx
    · exact .inl hx
  | grant q =>
    simp only [perform, schedule] at hx
    split at hx <;> exact .inl hx
  | remove q e =>
    simp only [perform] at hx
    split at hx <;> exact .inl hx
  | clear e =>
    simp only [perform] at hx
    split at hx <;> exact .inl hx
  | ignore => exact .inl (List.mem_of_mem_tail hx)
  | revoke q e => exact .inl (List.mem_of_mem_tail hx)
  | close => simp [perform] at hx
  | _ => exact .inl hx

/-- Time moves in one deed only. -/
theorem now_perform (l : Ledger) (d : Deed) :
    (l.perform d).now = l.now ∨ ∃ span, d = .pass span ∧ (l.perform d).now = l.now + span := by
  cases d with
  | pass span => exact .inr ⟨span, rfl, rfl⟩
  | request q e =>
    simp only [perform]
    split
    · simp only [schedule]
      split <;> exact .inl rfl
    · exact .inl rfl
  | grant q =>
    simp only [perform, schedule]
    split <;> exact .inl rfl
  | remove q e =>
    simp only [perform]
    split <;> exact .inl rfl
  | clear e =>
    simp only [perform]
    split <;> exact .inl rfl
  | _ => exact .inl rfl

/-! ## A promise -/

/-- The override of `p` is in force until its deadline: its timer is pending or has fired, and it
cannot have fired before the deadline. -/
structure Pending (l : Ledger) (p : String) (deadline : Nat) : Prop where
  guards : l.Guards p
  due_eq : ∀ s ∈ l.expiry.sleepers, l.expiry.generation? p = some s.generation → s.due = deadline
  now_eq : ∀ g, (p, g) ∈ l.fired → l.expiry.generation? p = some g → l.now = deadline
  now_le : l.now ≤ deadline
  mem : p ∈ l.overrides

/-- The deadline of the override of `p` is over, and the override was taken back. -/
structure Over (l : Ledger) (p : String) (deadline : Nat) : Prop where
  slot : l.expiry.generation? p = none
  le_now : deadline ≤ l.now
  not_mem : p ∉ l.overrides

/-- The time of an override that is granted begins. -/
theorem pending_request {lifetime : Nat} {e : PolicyStore.Edit Bool} (hl : l.Orderly)
    (hrevoke : l.settings.autoRevoke = some lifetime) (hrange : lifetime ≤ longestWait)
    (hallow : l.Allows (.request p e)) (hok : e.result.isOk) :
    (l.perform (.request p e)).Pending p (l.now + lifetime) := by
  have hmem : p ∈ (l.perform (.request p e)).overrides := by
    rw [overrides_perform_of_edit? hallow hok rfl]
    simp only [PolicyEdit.overrides]
    split
    · assumption
    · simp
  have hperform : l.perform (.request p e) = (l.adopt e).schedule p := by simp [perform, hok]
  have hrevoke' : (l.adopt e).settings.autoRevoke = some lifetime := hrevoke
  rw [hperform] at hmem ⊢
  have hguards := guards_schedule hrevoke' p
  rw [schedule_of_autoRevoke hrevoke'] at hmem hguards ⊢
  have hslot (g : Nat) : ((l.adopt e).expiry.schedule p (dueAfter l.now lifetime)).2.generation? p =
      some g → g = l.expiry.latest + 1 := by
    intro hg
    rw [KeyedTimers.generation?_schedule, if_pos rfl, KeyedTimers.fst_schedule] at hg
    exact (Option.some.inj hg).symm
  refine ⟨hguards, fun s hs hg => ?_, fun g hf hg => ?_, Nat.le_add_right _ _, hmem⟩
  · rcases KeyedTimers.mem_sleepers_schedule.mp hs with rfl | ⟨hs, -⟩
    · simp only [dueAfter]
      rw [Nat.min_eq_left hrange]
      rfl
    · exact absurd (hl.expiry.sleeper_le s hs) (by have := hslot _ hg; omega)
  · exact absurd (hl.fired_le (p, g) hf) (by have := hslot _ hg; simp only; omega)

/-- A deed that is not about `p` leaves its promise pending.

**Proof sketch.** The slot of `p` stays, and with it the guard. A timer with its generation was
there before, and where it fires now its time is over, so that it is the deadline. Time does not
pass a timer that has not fired, and none passes while a firing is queued. -/
theorem Pending.perform (h : l.Pending p deadline) (hl : l.Orderly) (hrun : l.running)
    (hagrees : l.Agrees) (hallow : l.Allows d) (hwell : l.GoesWell d) (hspeaks : ¬ d.speaks p)
    (hrevokes : ¬ d.revokes p) : (l.perform d).Pending p deadline := by
  have hclose : d ≠ .close := by
    rintro rfl
    exact hwell
  have hslot := generation?_perform (l := l) hspeaks hrevokes hclose
  have hguards : (l.perform d).Guards p := by
    apply h.guards.perform hl hrun hallow
    · exact Deed.not_grants_of_not_speaks hspeaks
    · exact Deed.not_retires_of_not_speaks hspeaks hrevokes hclose
  refine ⟨hguards, fun s hs hg => ?_, fun g hf hg => ?_, ?_,
    (mem_overrides_perform hallow hwell hagrees hspeaks hrevokes).mpr h.mem⟩
  · rw [hslot] at hg
    rcases mem_sleepers_perform hs with hs | hnew
    · exact h.due_eq s hs hg
    · exact absurd (hl.expiry.slot_le p _ hg) (by omega)
  · rw [hslot] at hg
    rcases now_perform l d with hnow | ⟨span, rfl, -⟩
    · rw [hnow]
      rcases mem_fired_perform hf with hf | ⟨s, hs, hdue, heq⟩
      · exact h.now_eq g hf hg
      · obtain ⟨-, rfl⟩ := Prod.mk.inj heq
        have := h.due_eq s hs hg
        have := h.now_le
        omega
    · have hempty : l.fired = [] := hwell.1
      have hfired : (p, g) ∈ l.fired := hf
      simp [hempty] at hfired
  · rcases now_perform l d with hnow | ⟨span, rfl, hnow⟩
    · rw [hnow]
      exact h.now_le
    · obtain ⟨hempty, hdue⟩ := hwell
      obtain ⟨g, hg, ⟨s, hs, -, rfl⟩ | hf⟩ := h.guards
      · rw [hnow, ← h.due_eq s hs hg]
        exact hdue s hs
      · simp [hempty] at hf

/-- A promise ends when the override is taken back, at its deadline. -/
theorem Pending.perform_revoke {e : PolicyStore.Edit Bool} (h : l.Pending p deadline)
    (hallow : l.Allows (.revoke p e)) (hwell : l.GoesWell (.revoke p e)) :
    (l.perform (.revoke p e)).Over p deadline ∧
      (l.perform (.revoke p e)).notices p = deadline :: l.notices p := by
  obtain ⟨rfl, g, hhead, hg⟩ := id hallow
  have hnow : l.now = deadline := h.now_eq g (List.mem_of_mem_head? hhead) hg
  have hresult : (l.store.removeOverride l.disk p).result = .ok true := by
    have hhas : l.store.policy.hasOverride p = true := List.contains_iff_mem.mpr h.mem
    have hok : (l.store.removeOverride l.disk p).result.isOk := hwell
    simp only [PolicyStore.removeOverride, hhas, if_true, PolicyStore.persist] at hok ⊢
    split at hok
    · rfl
    · simp [Except.isOk, Except.toBool] at hok
  refine ⟨⟨by simp [Ledger.perform, KeyedTimers.generation?_release], Nat.le_of_eq hnow.symm, ?_⟩, ?_⟩
  · rw [overrides_perform_of_edit? hallow hwell rfl]
    simp [PolicyEdit.overrides]
  · simp [Ledger.perform, notices, hresult, hnow]

/-- A deed that is not about `p` leaves its override taken back. -/
theorem Over.perform (h : l.Over p deadline) (hagrees : l.Agrees) (hallow : l.Allows d)
    (hwell : l.GoesWell d) (hspeaks : ¬ d.speaks p) : (l.perform d).Over p deadline ∧ ¬ d.revokes p := by
  have hrevokes := not_revokes_of_generation?_eq_none h.slot hallow
  have hclose : d ≠ .close := by
    rintro rfl
    exact hwell
  refine ⟨⟨?_, ?_, ?_⟩, hrevokes⟩
  · rw [generation?_perform hspeaks hrevokes hclose]
    exact h.slot
  · have := h.le_now
    rcases now_perform l d with hnow | ⟨span, -, hnow⟩ <;> omega
  · rw [mem_overrides_perform hallow hwell hagrees hspeaks hrevokes]
    exact h.not_mem

end Ledger

end DenialMonitor
