import DenialMonitor.Monitor.Run
import DenialMonitor.Proofs.Timers.Orderly

set_option autoImplicit false

/-!
# Properties of runs

What is demanded of a run is demanded of each of its actions, in the state in which the action is
taken. Time is the one thing that a run may not move at will: it passes while the monitor is
settled, and not beyond the moment at which something is due.

## Main definitions

* `Monitor.Along` — a property of every action of a run.
* `Monitor.Sometime` — a property of one of the actions of a run.
* `Monitor.MayPass` — whether time may pass.
* `Surroundings.emptyDir` — surroundings for runs on fixed inputs.

## Main results

* `Monitor.close_eq` — what the end of the owning task leaves behind.
* `Monitor.along_append` — a run in two parts.
* `Monitor.Along.invariant` — what every action keeps holds after the run.
-/

namespace DenialMonitor

/-- An empty directory, at time zero. -/
def Surroundings.emptyDir (dir : String) : Surroundings :=
  { disk := (Disk.empty.makeDirs dir).1, refusesWatches := false, now := 0 }

namespace Monitor

/-- `P` holds of every action of a run, in the state in which it is taken. -/
def Along (P : Monitor → Action → Prop) : Monitor → List Action → Prop
  | _, [] => True
  | m, a :: actions => P m a ∧ Along P (m.act a) actions

instance Along.decidable (P : Monitor → Action → Prop) [∀ m a, Decidable (P m a)] :
    ∀ m actions, Decidable (Along P m actions)
  | _, [] => inferInstanceAs (Decidable True)
  | m, a :: actions =>
    have := Along.decidable P (m.act a) actions
    inferInstanceAs (Decidable (P m a ∧ Along P (m.act a) actions))

/-- `P` holds of one of the actions of a run, in the state in which it is taken. -/
def Sometime (P : Monitor → Action → Prop) : Monitor → List Action → Prop
  | _, [] => False
  | m, a :: actions => P m a ∨ Sometime P (m.act a) actions

instance Sometime.decidable (P : Monitor → Action → Prop) [∀ m a, Decidable (P m a)] :
    ∀ m actions, Decidable (Sometime P m actions)
  | _, [] => inferInstanceAs (Decidable False)
  | m, a :: actions =>
    have := Sometime.decidable P (m.act a) actions
    inferInstanceAs (Decidable (P m a ∨ Sometime P (m.act a) actions))

/-- Time may pass while nothing is left to do, up to the moment when something is due. -/
def MayPass (m : Monitor) (span : Nat) : Prop :=
  m.isSettled ∧ ∀ due ∈ m.nextDue?, m.around.now + span ≤ due

instance (m : Monitor) (span : Nat) : Decidable (m.MayPass span) :=
  inferInstanceAs (Decidable (_ ∧ _))

/-- Several requests are answered alike. -/
theorem foldl_answer (m : Monitor) (ts : List Ticket) (r : Reply) :
    ts.foldl (fun m t => m.answer t r) m =
      { m with outputs := ts.reverse.map (fun t => (m.around.now, .reply t r)) ++ m.outputs } := by
  induction ts generalizing m with
  | nil => rfl
  | cons t ts ih =>
    rw [List.foldl_cons, ih]
    simp [answer, tell]

/-- Ending lets go of everything under way and answers the requests in flight. -/
theorem close_eq (m : Monitor) :
    m.close =
      { m with
        watcher := m.watcher.stopAll
        tailer := m.tailer.stop
        engine := { m.engine with
          expiry := m.engine.expiry.cancelAll
          outcomeTimer := m.engine.outcomeTimer.cancelAll }
        errands := []
        requests := []
        events := []
        running := false
        outputs :=
          m.inFlight.reverse.map (fun t => (m.around.now, .reply t .closed)) ++ m.outputs } := by
  rw [close, foldl_answer]

/-- In a settled monitor no event is queued, and no timer of an override is ready to fire. -/
theorem nothing_ready_of_isSettled {m : Monitor} (h : m.isSettled) :
    m.events = [] ∧ m.engine.expiry.ready? m.around.now = none := by
  simp only [isSettled, nextAction?, Option.isNone_iff_eq_none, Option.orElse_eq_orElse,
    Option.orElse_eq_or, Option.or_eq_none_iff, Option.map_eq_none_iff, List.head?_eq_none_iff] at h
  exact ⟨h.2.2.2.2.2.2.1, h.2.2.1⟩

/-- In a settled monitor no timer of an outcome is ready to fire. -/
theorem no_outcome_ready_of_isSettled {m : Monitor} (h : m.isSettled) :
    m.engine.outcomeTimer.ready? m.around.now = none := by
  simp only [isSettled, nextAction?, Option.isNone_iff_eq_none, Option.orElse_eq_orElse,
    Option.orElse_eq_or, Option.or_eq_none_iff, Option.map_eq_none_iff] at h
  exact h.2.2.2.1

/-- The earliest of several moments is not after any of them. -/
theorem exists_le_foldl_earlier? {dues : List (Option Nat)} {acc : Option Nat} {x : Nat}
    (h : acc = some x ∨ some x ∈ dues) : ∃ due ∈ dues.foldl earlier? acc, due ≤ x := by
  induction dues generalizing acc x with
  | nil => exact ⟨x, by simpa using h, Nat.le_refl x⟩
  | cons d dues ih =>
    have hfirst : ∃ y, earlier? acc d = some y ∧ y ≤ x ∨ some x ∈ dues := by
      rcases h with rfl | h
      · cases d with
        | none => exact ⟨x, .inl ⟨rfl, Nat.le_refl x⟩⟩
        | some d => exact ⟨min x d, .inl ⟨rfl, Nat.min_le_left x d⟩⟩
      · rcases List.mem_cons.mp h with rfl | h
        · cases acc with
          | none => exact ⟨x, .inl ⟨rfl, Nat.le_refl x⟩⟩
          | some y => exact ⟨min y x, .inl ⟨rfl, Nat.min_le_right y x⟩⟩
        · exact ⟨x, .inr h⟩
    obtain ⟨y, ⟨hy, hyx⟩ | hmem⟩ := hfirst
    · obtain ⟨due, hdue, hle⟩ := ih (.inl hy)
      exact ⟨due, hdue, Nat.le_trans hle hyx⟩
    · exact ih (.inr hmem)

/-- Time that may pass does not pass the due moment of an override. -/
theorem MayPass.le_due {m : Monitor} {span : Nat} (h : m.MayPass span) :
    ∀ s ∈ m.engine.expiry.sleepers, m.around.now + span ≤ s.due := by
  intro s hs
  obtain ⟨next, hnext, hle⟩ := KeyedTimers.nextDue?_le hs
  have hmem : some next ∈ [m.watcher.nextDue?, m.tailer.nextDue?, m.engine.expiry.nextDue?,
      m.engine.outcomeTimer.nextDue?, (m.errands.filterMap Errand.due?).min?] := by
    simp [Option.mem_def.mp hnext]
  obtain ⟨due, hdue, hle'⟩ : ∃ due ∈ m.nextDue?, due ≤ next := exists_le_foldl_earlier? (.inr hmem)
  have := h.2 due hdue
  omega

theorem actAll_append (m : Monitor) (as bs : List Action) :
    m.actAll (as ++ bs) = (m.actAll as).actAll bs :=
  List.foldl_append

theorem actAll_cons (m : Monitor) (a : Action) (as : List Action) :
    m.actAll (a :: as) = (m.act a).actAll as :=
  rfl

@[simp]
theorem actAll_nil (m : Monitor) : m.actAll [] = m :=
  rfl

section

variable {P Q : Monitor → Action → Prop} {m : Monitor}

theorem along_append {as bs : List Action} :
    Along P m (as ++ bs) ↔ Along P m as ∧ Along P (m.actAll as) bs := by
  induction as generalizing m with
  | nil => simp [Along, actAll]
  | cons a as ih => simp only [List.cons_append, Along, ih, actAll_cons, and_assoc]

theorem Along.mono {actions : List Action} (h : Along P m actions)
    (himp : ∀ m a, P m a → Q m a) : Along Q m actions := by
  induction actions generalizing m with
  | nil => trivial
  | cons a actions ih => exact ⟨himp m a h.1, ih h.2⟩

/-- What every action of a run keeps holds after the run. -/
theorem Along.invariant {Inv : Monitor → Prop} (hstep : ∀ m a, Inv m → P m a → Inv (m.act a))
    {actions : List Action} (h : Along P m actions) (hm : Inv m) : Inv (m.actAll actions) := by
  induction actions generalizing m with
  | nil => exact hm
  | cons a actions ih => exact ih h.2 (hstep m a hm h.1)

end

end Monitor

end DenialMonitor
