import DenialMonitor.Proofs.Monitor.Requests
import DenialMonitor.Proofs.Overrides.AutoRevoke

set_option autoImplicit false

/-!
# The end of a monitor

A monitor ends when it takes the request to shut down, or when nobody can send requests any more. It
answers everything that is in flight and lets go of its queues, errands and timers. What is left
only answers requests that come too late.

## Main definitions

* `Surroundings.undergo` — what others do to the surroundings.
* `Monitor.Ends` — an action with which the owning task ends.
* `Reply.last` — the last word to a request.
* `Monitor.IsOver` — nothing is left of the work of the owning task.
* `Monitor.OnlyAnswers` — nothing was told but the last words to some requests.

## Main results

* `Monitor.IsOver.act` — a monitor that is over stays over, and leaves everything as it is.
* `Monitor.shutdown_is_final` — the end of a monitor is final.
-/

namespace DenialMonitor

/-- The surroundings after an action, where only others change them. -/
def Surroundings.undergo (s : Surroundings) : Action → Surroundings
  | .change c => { s with disk := (s.disk.apply c).1 }
  | .refuseWatches b => { s with refusesWatches := b }
  | .pass span => { s with now := s.now + span }
  | _ => s

/-- The last word to request `t`, where `own?` is the request to shut down, if there is one. -/
def Reply.last (own? : Option Ticket) (t : Ticket) : Reply :=
  if own? = some t then .stopped else .closed

namespace Monitor

variable {m m' m'' : Monitor} {a : Action} {own? : Option Ticket}

/-- An action with which the owning task ends: a user asks for it with request `own?`, or nobody can
send requests any more. -/
inductive Ends (m : Monitor) : Action → Option Ticket → Prop where
  | shutdown (t : Ticket) (rest : List (Ticket × Request))
    (h : m.requests = (t, .shutdown) :: rest) : Ends m .takeRequest (some t)
  | retire (h : m.isAbandoned) : Ends m .retire none

/-- Nothing is left of the work of the owning task. -/
structure IsOver (m : Monitor) : Prop where
  running : m.running = false
  requests : m.requests = []
  errands : m.errands = []
  events : m.events = []
  timers : ∀ p, m.engine.expiry.generation? p = none

/-- What is kept in memory of the policy and of what was published is as it was. -/
def SameMemory (m m' : Monitor) : Prop :=
  m'.engine.policy = m.engine.policy ∧ m'.engine.published = m.engine.published

/-- Since `m` nothing was told but last words. -/
def OnlyAnswers (own? : Option Ticket) (m m' : Monitor) : Prop :=
  ∃ told, m'.outputs = told ++ m.outputs ∧ ∀ x ∈ told, ∃ t, x.2 = .reply t (.last own? t)

theorem OnlyAnswers.refl (own? : Option Ticket) (m : Monitor) : OnlyAnswers own? m m :=
  ⟨[], rfl, by simp⟩

theorem OnlyAnswers.trans (h : OnlyAnswers own? m m') (h' : OnlyAnswers own? m' m'') :
    OnlyAnswers own? m m'' := by
  obtain ⟨told, houtputs, htold⟩ := h
  obtain ⟨told', houtputs', htold'⟩ := h'
  refine ⟨told' ++ told, by rw [houtputs', houtputs, List.append_assoc], fun x hx => ?_⟩
  exact (List.mem_append.mp hx).elim (htold' x) (htold x)

/-- An answer that was given since is a last word. -/
theorem OnlyAnswers.reply (h : OnlyAnswers own? m m') {t : Ticket} {r : Reply}
    (ht : (t, r) ∈ m'.replies) : (t, r) ∈ m.replies ∨ r = .last own? t := by
  obtain ⟨told, houtputs, htold⟩ := h
  rw [replies, houtputs, List.filterMap_append, List.mem_append] at ht
  refine ht.symm.imp id fun hnew => ?_
  obtain ⟨x, hx, hreply⟩ := List.mem_filterMap.mp hnew
  obtain ⟨t', ht'⟩ := htold x hx
  rw [ht'] at hreply
  obtain ⟨rfl, rfl⟩ := Prod.mk.inj (Option.some.inj hreply)
  rfl

/-! ## The last action -/

theorem isOver_close (m : Monitor) : m.close.IsOver := by
  rw [close_eq]
  exact ⟨rfl, rfl, rfl, rfl, fun p => KeyedTimers.generation?_cancelAll _ p⟩

/-- What the last action of the owning task leaves behind. -/
theorem Ends.act (h : m.Ends a own?) :
    (m.act a).IsOver ∧ (m.act a).around = m.around ∧ SameMemory m (m.act a) ∧
      (m.act a).sent = m.sent := by
  cases h with
  | shutdown t rest h =>
    obtain ⟨hrunning, hrequests, herrands, hevents, htimers⟩ :=
      isOver_close { m with requests := rest }
    simp only [Monitor.act, takeRequest, h, handleRequest]
    refine ⟨⟨hrunning, hrequests, herrands, hevents, htimers⟩, ?_⟩
    rw [close_eq]
    exact ⟨rfl, ⟨rfl, rfl⟩, rfl⟩
  | retire h =>
    simp only [Monitor.act, h, if_true]
    refine ⟨isOver_close m, ?_⟩
    rw [close_eq]
    exact ⟨rfl, ⟨rfl, rfl⟩, rfl⟩

/-- The last action answers each request in flight, with the last word to it. -/
theorem Ends.outputs_act (h : m.Ends a own?) (hnodup : m.inFlight.Nodup) :
    ∃ ts : List Ticket, ts.Perm m.inFlight ∧
      (m.act a).outputs = ts.map (fun t => (m.around.now, .reply t (.last own? t))) ++ m.outputs := by
  cases h with
  | shutdown t rest h =>
    let others := { m with requests := rest }.inFlight
    have hflight : m.inFlight = t :: others := by simp [others, inFlight, h]
    rw [hflight, List.nodup_cons] at hnodup
    have hclosed : ∀ x ∈ others.reverse, (m.around.now, Output.reply x .closed) =
        (m.around.now, .reply x (.last (some t) x)) := by
      intro x hx
      have hne : t ≠ x := fun heq => hnodup.1 (heq ▸ List.mem_reverse.mp hx)
      simp [Reply.last, hne]
    have hown : Reply.last (some t) t = .stopped := if_pos rfl
    refine ⟨t :: others.reverse, hflight ▸ (List.reverse_perm others).cons t, ?_⟩
    simp only [Monitor.act, takeRequest, h, handleRequest]
    rw [close_eq, List.map_cons, hown, ← List.map_congr_left hclosed]
    rfl
  | retire h =>
    refine ⟨m.inFlight.reverse, List.reverse_perm _, ?_⟩
    simp only [Monitor.act, h, if_true]
    rw [close_eq]
    rfl

/-- An action after which the monitor does not run any more is its end. -/
theorem exists_ends (hrun : m.running) (h : ¬ (m.act a).running) : ∃ own?, m.Ends a own? := by
  have hclose : m.deed a = .close := by
    by_contra hne
    refine h ?_
    have hperform := Ledger.running_perform (l := m.ledger) hne
    rw [← ledger_act] at hperform
    exact hperform.trans hrun
  cases a with
  | takeRequest =>
    simp only [deed] at hclose
    split at hclose
    · cases hclose
    · next t r rest hrequests =>
      cases r with
      | shutdown => exact ⟨some t, .shutdown t rest hrequests⟩
      | acknowledge =>
        simp only [requestDeed] at hclose
        split at hclose <;> cases hclose
      | requestOverride text =>
        simp only [requestDeed] at hclose
        split at hclose <;> cases hclose
      | _ => cases hclose
  | takeEvent =>
    simp only [deed] at hclose
    split at hclose
    · cases hclose
    · next e rest hevents =>
      cases e with
      | changed source => cases source <;> cases hclose
      | overrideExpired path generation =>
        simp only [eventDeed] at hclose
        split at hclose <;> cases hclose
      | helperFinished path result t => cases result <;> cases hclose
      | _ => cases hclose
  | retire =>
    simp only [deed] at hclose
    split at hclose
    · next habandoned => exact ⟨none, .retire habandoned⟩
    · cases hclose
  | _ => cases hclose

/-! ## Afterwards -/

/-- A monitor that is over stays as it is but for its watches, its reader of the log and timers that
nothing comes of. -/
theorem IsOver.act_eq (h : m.IsOver) (hsend : ∀ r, a ≠ .send r) :
    ∃ watcher tailer expiry outcomeTimer held, (∀ p, expiry.generation? p = none) ∧
      m.act a =
        { m with
          around := m.around.undergo a
          watcher
          tailer
          engine := { m.engine with expiry, outcomeTimer }
          held } := by
  obtain ⟨hrunning, hrequests, herrands, hevents, htimers⟩ := h
  have hpost (m : Monitor) (e : Event) (hm : m.running = false) : m.post e = m := by
    simp [post, hm]
  cases a with
  | send r => exact absurd rfl (hsend r)
  | finish i answer =>
    have hact : m.act (.finish i answer) = m := by simp only [Monitor.act, finishErrand, herrands, List.getElem?_nil]
    rw [hact]
    exact ⟨_, _, _, _, _, htimers, rfl⟩
  | endWait i =>
    have hact : m.act (.endWait i) = m := by simp only [Monitor.act, endWait, herrands, List.getElem?_nil]
    rw [hact]
    exact ⟨_, _, _, _, _, htimers, rfl⟩
  | runWatch i eager =>
    simp only [Monitor.act, runWatch]
    split
    · exact ⟨_, _, _, _, _, htimers, rfl⟩
    · rw [hpost _ _ (by exact hrunning)]
      exact ⟨_, _, _, _, _, htimers, rfl⟩
  | runReader i =>
    simp only [Monitor.act, runReader]
    split
    · exact ⟨_, _, _, _, _, htimers, rfl⟩
    · rw [hpost _ _ (by exact hrunning)]
      exact ⟨_, _, _, _, _, htimers, rfl⟩
  | fireExpiry generation =>
    have hwoken (p : String) :
        (m.engine.expiry.wake generation m.around.now).2.generation? p = none := by
      rw [KeyedTimers.generation?_wake, htimers]
    simp only [Monitor.act, fireExpiry]
    split
    · exact ⟨_, _, _, _, _, hwoken, rfl⟩
    · rw [hpost _ _ (by exact hrunning)]
      exact ⟨_, _, _, _, _, hwoken, rfl⟩
  | fireOutcome generation =>
    simp only [Monitor.act, fireOutcome]
    split
    · exact ⟨_, _, _, _, _, htimers, rfl⟩
    · rw [hpost _ _ (by exact hrunning)]
      exact ⟨_, _, _, _, _, htimers, rfl⟩
  | takeRequest =>
    have hact : m.act .takeRequest = m := by simp only [Monitor.act, takeRequest, hrequests]
    rw [hact]
    exact ⟨_, _, _, _, _, htimers, rfl⟩
  | takeEvent =>
    have hact : m.act .takeEvent = m := by simp only [Monitor.act, takeEvent, hevents]
    rw [hact]
    exact ⟨_, _, _, _, _, htimers, rfl⟩
  | retire =>
    have habandoned : m.isAbandoned = false := by simp [isAbandoned, hrunning]
    simp only [Monitor.act, habandoned, if_false, Bool.false_eq_true]
    exact ⟨_, _, _, _, _, htimers, rfl⟩
  | _ => exact ⟨_, _, _, _, _, htimers, rfl⟩

/-- The request that is sent with an action. -/
def newTicket? (m : Monitor) : Action → Option Ticket
  | .send _ => some m.sent
  | _ => none

/-- A monitor that is over stays over. Only others change the surroundings, and only a request that
is sent now is answered. -/
theorem IsOver.act (h : m.IsOver) (a : Action) :
    (m.act a).IsOver ∧ (m.act a).around = m.around.undergo a ∧ SameMemory m (m.act a) ∧
      (m.act a).sent = m.sent + (m.newTicket? a).toList.length ∧
      (m.act a).outputs =
        (m.newTicket? a).toList.map (fun t => (m.around.now, .reply t .closed)) ++ m.outputs := by
  obtain ⟨hrunning, hrequests, herrands, hevents, htimers⟩ := id h
  by_cases hsend : ∃ r, a = .send r
  · obtain ⟨r, rfl⟩ := hsend
    have hact : m.act (.send r) = { m with sent := m.sent + 1 }.answer m.sent .closed := by
      simp only [Monitor.act, Monitor.send, hrunning, if_false, Bool.false_eq_true]
    rw [hact]
    exact ⟨⟨hrunning, hrequests, herrands, hevents, htimers⟩, rfl, ⟨rfl, rfl⟩, rfl, rfl⟩
  · have hnone : m.newTicket? a = none := by
      cases a with
      | send r => exact absurd ⟨r, rfl⟩ hsend
      | _ => rfl
    obtain ⟨_, _, _, _, _, htimers', hact⟩ := h.act_eq (fun r hr => hsend ⟨r, hr⟩)
    rw [hnone, hact]
    exact ⟨⟨hrunning, hrequests, herrands, hevents, htimers'⟩, rfl, ⟨rfl, rfl⟩, rfl, rfl⟩

/-- A monitor that was started runs, or it is over. -/
theorem running_or_isOver_actAll (h : m.running ∨ m.IsOver) (actions : List Action) :
    (m.actAll actions).running ∨ (m.actAll actions).IsOver := by
  induction actions generalizing m with
  | nil => exact h
  | cons a actions ih =>
    refine ih ?_
    rcases h with hrun | hover
    · by_cases hact : (m.act a).running
      · exact .inl hact
      · obtain ⟨_, hends⟩ := exists_ends hrun hact
        exact .inr hends.act.1
    · exact .inr (hover.act a).1

/-- Every request that was sent is answered, and none twice. -/
def AllAnswered (m : Monitor) : Prop :=
  (m.replies.map (·.1)).Perm (List.range m.sent)

/-- The monitor is over, and all that was told since `m` are last words. -/
structure OverSince (own? : Option Ticket) (m m' : Monitor) : Prop where
  isOver : m'.IsOver
  memory : SameMemory m m'
  told : OnlyAnswers own? m m'
  answered : m'.AllAnswered
  own_lt : ∀ t ∈ own?, t < m'.sent

/-- The last action leaves nothing in flight. -/
theorem Ends.overSince_act (h : m.Ends a own?) (haccounted : m.docket.Accounted) :
    OverSince own? m (m.act a) := by
  have htickets : (m.inFlight ++ m.replies.map (·.1)).Perm (List.range m.sent) := haccounted.tickets
  have hnodup : m.inFlight.Nodup :=
    ((htickets.nodup_iff.mpr List.nodup_range).of_append_left)
  obtain ⟨hover, -, hmemory, hsent⟩ := h.act
  obtain ⟨ts, hts, houtputs⟩ := h.outputs_act hnodup
  refine ⟨hover, hmemory, ⟨_, houtputs, by simp⟩, ?_, ?_⟩
  · have hreplies : (m.act a).replies.map (·.1) = ts ++ m.replies.map (·.1) := by
      simp [replies, houtputs, Output.reply?, Function.comp_def]
    rw [AllAnswered, hreplies, hsent]
    exact (hts.append_right _).trans htickets
  · intro t ht
    cases h with
    | retire h => simp at ht
    | shutdown t' rest hrequests =>
      obtain rfl : t' = t := by simpa using ht
      rw [hsent, ← List.mem_range, ← htickets.mem_iff]
      simp [inFlight, hrequests]

/-- A monitor that is over only answers requests that come too late. -/
theorem OverSince.act (h : OverSince own? m m') (a : Action) : OverSince own? m (m'.act a) := by
  obtain ⟨hover, -, hmemory, hsent, houtputs⟩ := h.isOver.act a
  refine ⟨hover, ⟨hmemory.1.trans h.memory.1, hmemory.2.trans h.memory.2⟩, h.told.trans ?_, ?_, ?_⟩
  · refine ⟨_, houtputs, fun x hx => ?_⟩
    obtain ⟨t, ht, rfl⟩ := List.mem_map.mp hx
    have hnew : t = m'.sent := by
      cases a <;> simp [newTicket?] at ht
      exact ht
    have hother : own? ≠ some t := fun hown => Nat.ne_of_lt (h.own_lt t hown) hnew
    exact ⟨t, by simp [Reply.last, hother]⟩
  · have hreplies : (m'.act a).replies.map (·.1) =
        (m'.newTicket? a).toList ++ m'.replies.map (·.1) := by
      simp [replies, houtputs, Output.reply?, Function.comp_def]
    rw [AllAnswered, hreplies, hsent]
    cases hnew : m'.newTicket? a with
    | none => exact h.answered
    | some t =>
      have hsent : t = m'.sent := by
        cases a <;> simp [newTicket?] at hnew
        exact hnew.symm
      rw [hsent, Option.toList_some, List.length_singleton, List.range_succ]
      exact (h.answered.cons _).trans (List.perm_append_singleton _ _).symm
  · intro t ht
    rw [hsent]
    exact Nat.lt_add_right _ (h.own_lt t ht)

theorem OverSince.actAll (h : OverSince own? m m') (actions : List Action) :
    OverSince own? m (m'.actAll actions) := by
  induction actions generalizing m' with
  | nil => exact h
  | cons a actions ih => exact ih (h.act a)

/-- Once a monitor is over, only others change the surroundings. -/
theorem IsOver.around_actAll (h : m.IsOver) (actions : List Action) :
    (m.actAll actions).around = actions.foldl Surroundings.undergo m.around := by
  induction actions generalizing m with
  | nil => rfl
  | cons a actions ih =>
    obtain ⟨hover, haround, -⟩ := h.act a
    rw [actAll_cons, ih hover, haround, List.foldl_cons]

/-- An action leaves the policy file as it is, as far as others change files. -/
def SparesPolicy (m : Monitor) : Action → Prop
  | .change c => (m.act (.change c)).policyFile? = m.policyFile?
  | _ => True

instance (m : Monitor) : ∀ a, Decidable (m.SparesPolicy a)
  | .change c => inferInstanceAs (Decidable ((m.act (.change c)).policyFile? = m.policyFile?))
  | .refuseWatches _ | .signal _ _ | .send _ | .release | .pass _ | .finish _ _ | .runWatch _ _
  | .runReader _ | .fireExpiry _ | .fireOutcome _ | .endWait _ | .takeRequest | .takeEvent
  | .retire => inferInstanceAs (Decidable True)

/-- Once a monitor is over, only others change the policy file. -/
theorem IsOver.policyFile?_actAll (h : m.IsOver) {actions : List Action}
    (hspares : Along SparesPolicy m actions) : (m.actAll actions).policyFile? = m.policyFile? := by
  induction actions generalizing m with
  | nil => rfl
  | cons a actions ih =>
    obtain ⟨hover, haround, hmemory, -⟩ := h.act a
    have hact : (m.act a).policyFile? = m.policyFile? := by
      cases a with
      | change c => exact hspares.1
      | _ => rw [policyFile?, policyFile?, hmemory.1, haround]; rfl
    rw [actAll_cons, ih hover hspares.2, hact]

/-- An override whose time has not come, a restart that is under way, and a request behind the one to
shut down. -/
def busyRun : List Action :=
  [.send (.requestOverride "/work/a"), .takeRequest, .send .restartDaemon, .takeRequest,
    .send .shutdown, .send .refresh]

end Monitor

end DenialMonitor
