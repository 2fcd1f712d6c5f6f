import DenialMonitor.Proofs.Monitor.Shutdown
import DenialMonitor.Proofs.View.Board
import DenialMonitor.Proofs.View.Published

set_option autoImplicit false

/-!
# The life of an outcome

An outcome is put on the board with a timer that takes it down again. Where reports follow each other
closely, the timer of an earlier outcome may have fired already when the next outcome takes its
place. Its firing is still queued then, but it carries a generation that is not the current one, so
nothing comes of it.

## Main definitions

* `Report` — an outcome that was reported; `Monitor.reports` lists those of a run.
* `Board.Showing` — an outcome is on the board, until its own timer takes it down.
* `Board.Tells` — what is on the board after the latest report.

## Main results

* `Board.Showing.perform`, `Board.Tells.perform` — one posting after the other keeps what is on the
  board.
* `Monitor.tells_actAll` — what is on the board after a run.
* `Monitor.outcomes_live_their_time` — an outcome is shown for its own time, unless a newer one comes.
* `Monitor.long_and_last_outcomes` — a time of more than thirty years is cut, and the last outcome of
  a monitor that has ended stays.
-/

namespace DenialMonitor

/-- An outcome that was reported. -/
structure Report where
  caller : Option Ticket
  outcome : Outcome
  time : Nat
  /-- The generation of the timer that comes with it. -/
  generation : Nat
  deriving DecidableEq

/-- The answer that a report gives. -/
def Report.answer? (r : Report) : Option (Ticket × Outcome) :=
  r.caller.map (·, r.outcome)

/-! ## What is on the board -/

namespace Board

/-- The report that a posting makes. -/
def newReport? (b : Board) : Posting → Option Report
  | .report caller outcome =>
    some { caller, outcome, time := b.now, generation := b.timer.latest + 1 }
  | _ => none

variable {b : Board} {p : Posting} {o : Outcome} {due g : Nat} {last? : Option Report}

/-- Nothing that goes around has a generation above the latest one. -/
structure Orderly (b : Board) : Prop where
  timer : b.timer.Orderly
  fired_le : ∀ g ∈ b.fired, g ≤ b.timer.latest

/-- An outcome is on the board until `due`: its timer with generation `g` has not fired, or its firing
has not been handled. -/
structure Showing (b : Board) (o : Outcome) (due g : Nat) : Prop where
  outcome_eq : b.outcome = some o
  slot_eq : b.timer.generation? () = some g
  due_eq : ∀ s ∈ b.timer.sleepers, s.generation = g → s.due = due
  due_le : g ∈ b.fired → due ≤ b.now
  pending : (∃ s ∈ b.timer.sleepers, s.generation = g) ∨ g ∈ b.fired

/-- No outcome is on the board, nor is there a timer of one. -/
structure Blank (b : Board) : Prop where
  outcome_eq : b.outcome = none
  slot_eq : b.timer.generation? () = none

/-- What is on the board after the report `last?`, the latest one: its outcome, or nothing since its
time is over. -/
def Tells (b : Board) : Option Report → Prop
  | none => b.Blank
  | some r =>
    b.Showing r.outcome (dueAfter r.time b.ttl) r.generation ∨
      b.Blank ∧ dueAfter r.time b.ttl ≤ b.now

theorem ttl_perform (b : Board) (p : Posting) : (b.perform p).ttl = b.ttl := by
  cases p with
  | expire generation =>
    simp only [perform]
    split <;> rfl
  | _ => rfl

theorem now_le_perform (b : Board) (p : Posting) : b.now ≤ (b.perform p).now := by
  cases p with
  | pass span => exact Nat.le_add_right _ _
  | expire generation =>
    simp only [perform]
    split <;> exact Nat.le_refl _
  | _ => exact Nat.le_refl _

/-- Only a report starts a timer. -/
theorem latest_perform (b : Board) (p : Posting) :
    (b.perform p).timer.latest = b.timer.latest + (b.newReport? p).toList.length := by
  cases p with
  | report caller o => exact KeyedTimers.latest_schedule _ _ _
  | fire generation => exact KeyedTimers.latest_wake _ _ _
  | expire generation =>
    simp only [perform]
    split <;> rfl
  | _ => rfl

/-- Reports are the only answers with an outcome. -/
theorem answers_perform (b : Board) (p : Posting) :
    (b.perform p).answers = ((b.newReport? p).bind Report.answer?).toList ++ b.answers := by
  cases p with
  | expire generation =>
    simp only [perform]
    split <;> rfl
  | _ => rfl

/-- A timer that fires is one whose time is over. It does not fire again, and its firing is queued as
long as someone handles firings. -/
theorem perform_fire_cases (b : Board) (g : Nat) :
    b.perform (.fire g) = b ∨
      ∃ s ∈ b.timer.sleepers, s.generation = g ∧ s.due ≤ b.now ∧
        b.perform (.fire g) =
          { b with
            timer := b.timer.silence g
            fired := b.fired ++ if b.running then [g] else [] } := by
  simp only [perform]
  rcases b.timer.wake_cases g b.now with hwake | ⟨s, hs, hgeneration, hdue, hwake⟩
  · left
    simp [hwake]
  · exact .inr ⟨s, hs, hgeneration, hdue, by simp [hwake, hgeneration]⟩

theorem Orderly.perform (h : b.Orderly) (p : Posting) : (b.perform p).Orderly := by
  obtain ⟨htimer, hfired⟩ := h
  cases p with
  | nothing => exact ⟨htimer, hfired⟩
  | pass span => exact ⟨htimer, hfired⟩
  | report caller o =>
    refine ⟨htimer.schedule () _, fun g hg => ?_⟩
    have hle := hfired g hg
    have hlatest := b.timer.latest_schedule () (dueAfter b.now b.ttl)
    exact Nat.le_trans hle (by simp only [Board.perform]; omega)
  | fire generation =>
    have hwake : (b.perform (.fire generation)).timer.Orderly := htimer.wake generation b.now
    rcases b.perform_fire_cases generation with hfire | ⟨s, hs, rfl, -, hfire⟩ <;>
      rw [hfire] at hwake ⊢
    · exact ⟨htimer, hfired⟩
    · refine ⟨hwake, fun g hg => ?_⟩
      rcases List.mem_append.mp hg with hg | hg
      · exact hfired g hg
      · obtain rfl : g = s.generation := by
          split at hg
          · exact List.mem_singleton.mp hg
          · simp at hg
        exact htimer.sleeper_le s hs
  | expire generation =>
    have htail : ∀ g ∈ b.fired.tail, g ≤ b.timer.latest := fun g hg =>
      hfired g (List.mem_of_mem_tail hg)
    simp only [Board.perform]
    split
    · exact ⟨htimer.release (), htail⟩
    · exact ⟨htimer, htail⟩
  | close => exact ⟨htimer.cancelAll, by simp [Board.perform]⟩

/-- A report puts its outcome on the board, with a timer that nothing goes around of yet. -/
theorem Orderly.showing_report (h : b.Orderly) (caller : Option Ticket) (o : Outcome) :
    (b.perform (.report caller o)).Showing o (dueAfter b.now b.ttl) (b.timer.latest + 1) where
  outcome_eq := rfl
  slot_eq := by
    have hslot := b.timer.generation?_schedule () () (dueAfter b.now b.ttl)
    rw [if_pos rfl, KeyedTimers.fst_schedule] at hslot
    exact hslot
  due_eq s hs hg := by
    rcases KeyedTimers.mem_sleepers_schedule.mp hs with rfl | ⟨hs, -⟩
    · rfl
    · have hle := h.timer.sleeper_le s hs
      omega
  due_le hg := absurd (h.fired_le _ hg) (by omega)
  pending := .inl ⟨_, KeyedTimers.mem_sleepers_schedule.mpr (.inl rfl), rfl⟩

/-- An outcome stays on the board until the firing of its own timer is handled, when its time is
over.

**Proof sketch.** A firing with another generation is not taken for that of the outcome, since the
slot holds the generation of the outcome. Its own timer fires when its time is over, and then its
firing is queued until it is handled. -/
theorem Showing.perform (h : b.Showing o due g) (hallows : b.Allows p)
    (hrun : (b.perform p).running) (hreport : b.newReport? p = none) :
    (b.perform p).Showing o due g ∨ p = .expire g ∧ (b.perform p).Blank ∧ due ≤ b.now := by
  obtain ⟨houtcome, hslot, hdue, hle, hpending⟩ := id h
  cases p with
  | nothing => exact .inl h
  | pass span =>
    exact .inl ⟨houtcome, hslot, hdue, fun hg => Nat.le_add_right_of_le (hle hg), hpending⟩
  | report caller o => simp [newReport?] at hreport
  | fire generation =>
    left
    rcases b.perform_fire_cases generation with hfire | ⟨s, hs, rfl, hs_due, hfire⟩
    · rw [hfire]
      exact h
    · rw [hfire] at hrun ⊢
      replace hrun : b.running = true := hrun
      simp only [hrun, if_true]
      refine ⟨houtcome, hslot, fun s' hs' hg => ?_, fun hg => ?_, ?_⟩
      · exact hdue s' (KeyedTimers.mem_sleepers_silence.mp hs').1 hg
      · rcases List.mem_append.mp hg with hg | hg
        · exact hle hg
        · rw [← hdue s hs (List.mem_singleton.mp hg).symm]
          exact hs_due
      · rcases hpending with ⟨s', hs', hg⟩ | hg
        · by_cases hsame : s'.generation = s.generation
          · exact .inr (List.mem_append_right _ (by simp [← hg, hsame]))
          · exact .inl ⟨s', KeyedTimers.mem_sleepers_silence.mpr ⟨hs', hsame⟩, hg⟩
        · exact .inr (List.mem_append_left _ hg)
  | expire generation =>
    obtain ⟨rest, hfired⟩ : ∃ rest, b.fired = generation :: rest := List.head?_eq_some_iff.mp hallows
    by_cases hcurrent : generation = g
    · subst hcurrent
      right
      refine ⟨rfl, ?_, hle (by simp [hfired])⟩
      simp only [Board.perform, hslot, if_true]
      exact ⟨rfl, by simp [KeyedTimers.generation?_release]⟩
    · left
      have hother : b.timer.generation? () ≠ some generation := by
        rw [hslot]
        exact fun heq => hcurrent (Option.some.inj heq).symm
      simp only [Board.perform, hother, if_false, hfired, List.tail_cons]
      have hstays (hg : g ∈ b.fired) : g ∈ rest := by
        rw [hfired] at hg
        exact (List.mem_cons.mp hg).resolve_left (Ne.symm hcurrent)
      exact ⟨houtcome, hslot, hdue, fun hg => hle (by simp [hfired, hg]), hpending.imp_right hstays⟩
  | close => simp [Board.perform] at hrun

/-- An empty board stays empty until the next report. -/
theorem Blank.perform (h : b.Blank) (hrun : (b.perform p).running)
    (hreport : b.newReport? p = none) : (b.perform p).Blank := by
  obtain ⟨houtcome, hslot⟩ := id h
  cases p with
  | nothing => exact h
  | pass span => exact ⟨houtcome, hslot⟩
  | report caller o => simp [newReport?] at hreport
  | fire generation =>
    rcases b.perform_fire_cases generation with hfire | ⟨s, -, -, -, hfire⟩ <;> rw [hfire]
    · exact h
    · exact ⟨houtcome, hslot⟩
  | expire generation =>
    simp only [Board.perform, hslot, reduceCtorEq, if_false]
    exact ⟨houtcome, hslot⟩
  | close => simp [Board.perform] at hrun

/-- One posting after the other keeps what is on the board. -/
theorem Tells.perform (h : b.Tells last?) (horderly : b.Orderly) (hallows : b.Allows p)
    (hrun : (b.perform p).running) : (b.perform p).Tells ((b.newReport? p).or last?) := by
  cases hreport : b.newReport? p with
  | some r =>
    cases p with
    | report caller o =>
      obtain rfl := Option.some.inj hreport
      exact .inl (horderly.showing_report caller o)
    | _ => simp [newReport?] at hreport
  | none =>
    cases last? with
    | none => exact Blank.perform h hrun hreport
    | some r =>
      simp only [Option.none_or, Tells, ttl_perform]
      have hnow := b.now_le_perform p
      rcases h with h | ⟨h, hdue⟩
      · rcases h.perform hallows hrun hreport with h | ⟨-, h, hdue⟩
        · exact .inl h
        · exact .inr ⟨h, Nat.le_trans hdue hnow⟩
      · exact .inr ⟨h.perform hrun hreport, Nat.le_trans hdue hnow⟩

end Board

/-! ## Runs -/

namespace Monitor

/-- The report that an action makes. -/
def newReport? (m : Monitor) (a : Action) : Option Report :=
  m.board.newReport? (m.posting a)

/-- The reports of a run, in their order. -/
def reports : Monitor → List Action → List Report
  | _, [] => []
  | m, a :: actions => (m.newReport? a).toList ++ reports (m.act a) actions

/-- The outcome that is shown. -/
def shownOutcome? (m : Monitor) : Option Outcome :=
  m.engine.published.outcome

variable {m : Monitor} {a : Action} {actions : List Action}

theorem reports_append (m : Monitor) (as bs : List Action) :
    m.reports (as ++ bs) = m.reports as ++ (m.actAll as).reports bs := by
  induction as generalizing m with
  | nil => rfl
  | cons a as ih => simp only [List.cons_append, reports, ih, actAll_cons, List.append_assoc]

/-- The latest report of a run that goes on by an action. -/
theorem getLast?_reports_concat (m : Monitor) (actions : List Action) (a : Action) :
    (m.reports (actions ++ [a])).getLast? =
      ((m.actAll actions).newReport? a).or (m.reports actions).getLast? := by
  rw [reports_append, List.getLast?_append]
  congr 1
  simp only [reports, List.append_nil]
  cases (m.actAll actions).newReport? a <;> rfl

/-- The timers of the reports of a run have consecutive generations. -/
theorem generation_reports (m : Monitor) (actions : List Action) :
    (m.reports actions).map (·.generation) =
      List.range' (m.board.timer.latest + 1) (m.reports actions).length := by
  induction actions generalizing m with
  | nil => rfl
  | cons a actions ih =>
    have hlatest : (m.act a).board.timer.latest =
        m.board.timer.latest + (m.newReport? a).toList.length := by
      rw [board_act]
      exact Board.latest_perform _ _
    have hrest := ih (m.act a)
    simp only [reports, List.map_append, hrest, hlatest]
    cases hreport : m.newReport? a with
    | none => simp
    | some r =>
      have hgeneration : r.generation = m.board.timer.latest + 1 := by
        unfold newReport? at hreport
        cases hposting : m.posting a <;> simp [hposting, Board.newReport?] at hreport
        rw [← hreport]
      simp [hgeneration, List.range'_succ]

theorem orderly_board_actAll (h : m.board.Orderly) (actions : List Action) :
    (m.actAll actions).board.Orderly := by
  induction actions generalizing m with
  | nil => exact h
  | cons a actions ih =>
    refine ih ?_
    rw [board_act]
    exact h.perform _

/-- As long as a monitor runs, its board tells of the latest report of the run. -/
theorem tells_actAll (horderly : m.board.Orderly) (h : m.board.Tells none)
    (hrun : (m.actAll actions).running) :
    (m.actAll actions).board.Tells (m.reports actions).getLast? := by
  induction actions using List.reverseRecOn with
  | nil => exact h
  | append_singleton actions a ih =>
    rw [actAll_append] at hrun ⊢
    have hnow : (m.actAll actions).running := running_of_running_actAll hrun
    have hact : (m.actAll actions).actAll [a] = (m.actAll actions).act a := rfl
    rw [hact] at hrun ⊢
    have hboard := board_act (m.actAll actions) a
    have hperform : ((m.actAll actions).board.perform ((m.actAll actions).posting a)).running := by
      rw [← hboard]
      exact hrun
    rw [getLast?_reports_concat, hboard]
    exact (ih hnow).perform (orderly_board_actAll horderly actions) (allows_posting _ a) hperform

theorem orderly_board_start (settings : Settings) (around : Surroundings) (daemonRuns : Bool) :
    (start settings around daemonRuns).board.Orderly := by
  rw [board_start]
  exact ⟨.empty, by simp⟩

theorem blank_board_start (settings : Settings) (around : Surroundings) (daemonRuns : Bool) :
    (start settings around daemonRuns).board.Blank := by
  rw [board_start]
  exact ⟨rfl, rfl⟩

/-- What is shown is what is on the board. -/
theorem shownOutcome?_eq (h : m.engine.UpToDate) : m.shownOutcome? = m.board.outcome :=
  h.outcome_eq

/-- In a settled monitor an outcome is on the board only before it is due. -/
theorem lt_due_of_showing {o : Outcome} {due g : Nat} (h : m.board.Showing o due g)
    (hsettled : m.isSettled) : m.around.now < due := by
  have hfired : m.board.fired = [] := by simp [board, (nothing_ready_of_isSettled hsettled).1]
  obtain ⟨s, hs, hg⟩ | hg := h.pending
  · rw [← h.due_eq s hs hg]
    exact KeyedTimers.lt_due_of_ready?_eq_none (no_outcome_ready_of_isSettled hsettled) s hs
  · simp [hfired] at hg

/-- In a settled monitor the outcome of the latest report is on the board until its time is over, and
no other one. -/
theorem outcome_eq_some_iff {last? : Option Report} (h : m.board.Tells last?)
    (hsettled : m.isSettled) (o : Outcome) :
    m.board.outcome = some o ↔
      ∃ r, last? = some r ∧ r.outcome = o ∧ m.around.now < dueAfter r.time m.board.ttl := by
  cases last? with
  | none =>
    have houtcome : m.board.outcome = none := h.outcome_eq
    simp [houtcome]
  | some r =>
    simp only [Option.some.injEq, exists_eq_left']
    rcases h with hshowing | ⟨hblank, hdue⟩
    · simp [hshowing.outcome_eq, lt_due_of_showing hshowing hsettled]
    · have hover : ¬ m.around.now < dueAfter r.time m.board.ttl := Nat.not_lt.mpr hdue
      simp [hblank.outcome_eq, hover]

/-- An action handles a firing of an outcome's timer only if it takes the event that tells of it. -/
theorem eq_takeEvent_of_posting_eq_expire {g : Nat} (h : m.posting a = .expire g) :
    a = .takeEvent ∧ m.events.head? = some (.outcomeExpired g) := by
  have hother (caller : Option Ticket) (o? : Option Outcome) :
      Posting.ofOutcome? caller o? ≠ .expire g := by cases o? <;> simp [Posting.ofOutcome?]
  cases a with
  | takeEvent =>
    simp only [posting] at h
    split at h
    · cases h
    · next e rest hevents =>
      cases e with
      | outcomeExpired generation =>
        obtain rfl := Posting.expire.inj h
        exact ⟨rfl, by simp [hevents]⟩
      | _ => simp only [eventPosting, hother] at h
  | takeRequest =>
    simp only [posting] at h
    split at h
    · cases h
    · next t r _ _ =>
      cases r with
      | shutdown => cases h
      | _ => simp only [requestPosting, hother] at h
  | retire =>
    simp only [posting] at h
    split at h <;> cases h
  | _ => cases h

theorem running_start (settings : Settings) (around : Surroundings) (daemonRuns : Bool) :
    (start settings around daemonRuns).running := by
  rw [← running_board, board_start]

/-- Nothing new is shown from the end on. -/
theorem shownOutcome?_act_of_not_running (h : m.running ∨ m.IsOver) (hact : ¬ (m.act a).running) :
    (m.act a).shownOutcome? = m.shownOutcome? := by
  have hmemory : SameMemory m (m.act a) := by
    rcases h with hrun | hover
    · obtain ⟨_, hends⟩ := exists_ends hrun hact
      exact hends.act.2.2.1
    · exact (hover.act a).2.2.1
  rw [shownOutcome?, shownOutcome?, hmemory.2]

/-- An action takes the outcome of report `r` down, whose time is over at `due`: it handles the firing
of the timer that came with the report. -/
structure TakesDown (m : Monitor) (a : Action) (r : Report) (due : Nat) : Prop where
  action_eq : a = .takeEvent
  event_eq : m.events.head? = some (.outcomeExpired r.generation)
  shown : m.shownOutcome? = some r.outcome
  due_le : due ≤ m.around.now
  gone : (m.act a).shownOutcome? = none

/-- An action that makes no report leaves the outcome that is shown, or takes that of the latest
report down. -/
theorem shownOutcome?_act_cases {last? : Option Report} (htells : m.board.Tells last?)
    (huptodate : m.engine.UpToDate) (hrun : (m.act a).running) (hreport : m.newReport? a = none) :
    (m.act a).shownOutcome? = m.shownOutcome? ∨
      ∃ r, last? = some r ∧ m.TakesDown a r (dueAfter r.time m.board.ttl) := by
  have hboard := board_act m a
  have hperform : (m.board.perform (m.posting a)).running := by
    rw [← hboard]
    exact hrun
  have hshown : m.shownOutcome? = m.board.outcome := shownOutcome?_eq huptodate
  have hshownAct : (m.act a).shownOutcome? = (m.board.perform (m.posting a)).outcome := by
    rw [← hboard]
    exact shownOutcome?_eq (upToDate_act huptodate a)
  have hblank (h : m.board.Blank) : (m.act a).shownOutcome? = m.shownOutcome? := by
    rw [hshown, hshownAct, h.outcome_eq, (h.perform hperform hreport).outcome_eq]
  cases last? with
  | none => exact .inl (hblank htells)
  | some r =>
    rcases htells with hshowing | ⟨h, -⟩
    · rcases hshowing.perform (allows_posting m a) hperform hreport with h | ⟨hposting, h, hdue⟩
      · left
        rw [hshown, hshownAct, hshowing.outcome_eq, h.outcome_eq]
      · obtain ⟨ha, hevent⟩ := eq_takeEvent_of_posting_eq_expire hposting
        exact .inr ⟨r, rfl, ha, hevent, hshown.trans hshowing.outcome_eq, hdue,
          hshownAct.trans h.outcome_eq⟩
    · exact .inl (hblank h)

/-- An action that makes a report shows its outcome. -/
theorem shownOutcome?_act_of_newReport? (huptodate : m.engine.UpToDate) {r : Report}
    (hreport : m.newReport? a = some r) : (m.act a).shownOutcome? = some r.outcome := by
  rw [shownOutcome?_eq (upToDate_act huptodate a), board_act]
  unfold newReport? at hreport
  cases hposting : m.posting a with
  | report caller o =>
    rw [hposting] at hreport
    obtain rfl := Option.some.inj hreport
    rfl
  | _ => simp [hposting, Board.newReport?] at hreport

theorem ttl_board_actAll (m : Monitor) (actions : List Action) :
    (m.actAll actions).board.ttl = m.board.ttl := by
  induction actions generalizing m with
  | nil => rfl
  | cons a actions ih => rw [actAll_cons, ih, board_act, Board.ttl_perform]

/-- **Outcomes live their time.** Take any run from the start. In a settled monitor that runs, an
outcome is shown exactly if it is that of the latest report and its time is not over; a time of more
than thirty years counts as thirty years. An action that makes a report shows its outcome at once, and
it is this outcome that the request is answered with. Any other action leaves what is shown, unless
it handles the firing of the timer that came with the latest report, whose time is over then. No two
reports have timers with the same generation. A monitor that has ended shows what it showed last.

**Proof sketch.** After a report its outcome is on the board, and the slot holds the generation of its
timer, which is above all that go around. A firing that is handled is compared with the slot, so only
that of the latest report takes its outcome down. When the monitor is settled no firing is queued
and no timer is ready, so the outcome is still there exactly if it is not due. -/
theorem outcomes_live_their_time (settings : Settings) (around : Surroundings) (daemonRuns : Bool)
    (actions : List Action) :
    let s := start settings around daemonRuns
    let m := s.actAll actions
    let last? := (s.reports actions).getLast?
    (m.running → m.isSettled → ∀ o, m.shownOutcome? = some o ↔
      ∃ r, last? = some r ∧ r.outcome = o ∧
        m.around.now < dueAfter r.time settings.outcomeTtl) ∧
    (∀ a, (m.act a).board.answers =
      ((m.newReport? a).bind Report.answer?).toList ++ m.board.answers) ∧
    (∀ a r, m.newReport? a = some r → (m.act a).shownOutcome? = some r.outcome) ∧
    (∀ a, m.newReport? a = none → (m.act a).shownOutcome? = m.shownOutcome? ∨
      ∃ r, last? = some r ∧ m.TakesDown a r (dueAfter r.time settings.outcomeTtl)) ∧
    ((s.reports actions).map (·.generation)).Nodup ∧
    (¬ m.running → ∀ a, (m.act a).shownOutcome? = m.shownOutcome?) := by
  intro s m last?
  have huptodate : m.engine.UpToDate :=
    upToDate_actAll (upToDate_start settings around daemonRuns) actions
  have htells (hrun : m.running) : m.board.Tells last? :=
    tells_actAll (orderly_board_start settings around daemonRuns)
      (blank_board_start settings around daemonRuns) hrun
  have halive : m.running ∨ m.IsOver :=
    running_or_isOver_actAll (.inl (running_start settings around daemonRuns)) actions
  have httl : m.board.ttl = settings.outcomeTtl := by
    rw [ttl_board_actAll, board_start]
  have hnodup : ((s.reports actions).map (·.generation)).Nodup := by
    rw [generation_reports]
    exact List.nodup_range'
  clear_value m last?
  have hover (hrun : ¬ m.running) (a : Action) : ¬ (m.act a).running := by
    have hisOver := halive.resolve_left hrun
    simp [(hisOver.act a).1.running]
  refine ⟨fun hrun hsettled o => ?_, fun a => ?_,
    fun a r => shownOutcome?_act_of_newReport? huptodate, fun a hreport => ?_, hnodup,
    fun hrun a => shownOutcome?_act_of_not_running halive (hover hrun a)⟩
  · rw [shownOutcome?_eq huptodate, outcome_eq_some_iff (htells hrun) hsettled, httl]
  · rw [board_act]
    exact Board.answers_perform _ _
  · by_cases hact : (m.act a).running
    · have hrun : m.running := by
        by_contra hrun
        exact hover hrun a hact
      rw [← httl]
      exact shownOutcome?_act_cases (htells hrun) huptodate hact hreport
    · exact .inl (shownOutcome?_act_of_not_running halive hact)

/-- The files in `/p`, and outcomes that are shown for the time `ttl`. -/
def showingFor (ttl : Nat) : Settings :=
  { Settings.ofPaths (.inDir "/p") with outcomeTtl := ttl }

/-- A second outcome is reported when the timer of the first one has fired already. Its firing is
handled afterwards. -/
def hurriedRun : List Action :=
  [.send (.removeOverride "/work/a"), .takeRequest, .pass 100, .fireOutcome 1,
    .send (.removeOverride "/work/b"), .takeRequest, .takeEvent]

/-- The report of the second outcome. -/
def secondReport : Report :=
  ⟨some 1, .failed "No override for b", 100, 2⟩

/-- The second outcome is shown to the end of its own time. -/
theorem second_outcome_lives_its_time :
    let s := start (showingFor 100) (.emptyDir "/p") false
    (s.actAll (hurriedRun ++ [.pass 99])).shownOutcome? = some (.failed "No override for b") ∧
      (s.actAll (hurriedRun ++ [.pass 100, .fireOutcome 2, .takeEvent])).shownOutcome? = none := by
  intro s
  have hshown := (outcomes_live_their_time (showingFor 100) (.emptyDir "/p") false
    (hurriedRun ++ [.pass 99])).1 (by decide +kernel) (by decide +kernel)
  have hover := (outcomes_live_their_time (showingFor 100) (.emptyDir "/p") false
    (hurriedRun ++ [.pass 100, .fireOutcome 2, .takeEvent])).1 (by decide +kernel) (by decide +kernel)
  refine ⟨(hshown _).mpr ⟨secondReport, by decide +kernel, rfl, by decide +kernel⟩, ?_⟩
  refine Option.eq_none_iff_forall_ne_some.mpr fun o ho => ?_
  obtain ⟨r, hlast, -, hlt⟩ := (hover o).mp ho
  have hlast' : (s.reports (hurriedRun ++ [.pass 100, .fireOutcome 2, .takeEvent])).getLast? =
      some secondReport := by decide +kernel
  obtain rfl := Option.some.inj (hlast.symm.trans hlast')
  exact absurd hlt (by decide +kernel)

/-- An outcome is reported, and its timer fires after thirty years. -/
def patientRun : List Action :=
  [.send (.removeOverride "/work/a"), .takeRequest, .pass longestWait, .fireOutcome 1, .takeEvent]

/-- Another outcome is reported before the monitor ends, and its time passes. -/
def lastWords : List Action :=
  [.send (.removeOverride "/work/a"), .takeRequest, .send .shutdown, .takeRequest,
    .pass (longestWait + 1)]

/-- An outcome that is to be shown for more than thirty years is taken down after thirty years, and
the last outcome of a monitor that has ended is shown though its time is over. -/
theorem long_and_last_outcomes :
    let s := start (showingFor (longestWait + 1)) (.emptyDir "/p") false
    let m := s.actAll patientRun
    let m' := s.actAll (patientRun ++ lastWords)
    let o := Outcome.failed "No override for a"
    ((s.reports patientRun).getLast? = some ⟨some 0, o, 0, 1⟩ ∧
      m.isSettled ∧ m.around.now < 0 + (longestWait + 1) ∧ m.shownOutcome? = none) ∧
    (s.reports (patientRun ++ lastWords)).getLast? = some ⟨some 1, o, longestWait, 2⟩ ∧
      m'.isSettled ∧ longestWait + (longestWait + 1) ≤ m'.around.now ∧
      m'.shownOutcome? = some o := by
  refine ⟨⟨?_, ?_, ?_, ?_⟩, ?_, ?_, ?_, ?_⟩ <;> decide +kernel

end Monitor

end DenialMonitor
