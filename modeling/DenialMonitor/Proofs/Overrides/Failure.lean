import DenialMonitor.Proofs.Disk.Readers
import DenialMonitor.Proofs.Monitor.Requests
import DenialMonitor.Proofs.Overrides.AutoRevoke
import DenialMonitor.Proofs.View.News

set_option autoImplicit false

/-!
# Operations that fail

An operation on overrides that is reported as failed has not changed the policy, neither in memory nor
in its file, and leaves the timers of overrides alone. The one exception is an override that is to be
taken back though there is none: a timer that was pending for it is stopped. And while the file itself
is as it was, its path may not be: one that goes up through `..`, and led nowhere for a missing
directory, leads to the file once the operation has created that directory, though it fails then.

## Main definitions

* `Monitor.Operates` — an action that carries out an operation on overrides.
* `Monitor.TakesNone` — an override is to be taken back though there is none.

## Main results

* `Monitor.ledger_of_fails` — the ledger after an operation that failed.
* `Monitor.failed_operation_changes_nothing` — what an operation that failed leaves as it was.
* `Monitor.policy_appears_in_failed_operation` — a policy that is there only after an operation failed.
-/

namespace DenialMonitor

namespace Monitor

variable {m : Monitor} {a : Action} {t : Ticket} {o : Outcome}

/-- An action carries out the operation on overrides for which request `t` asks: the request is
taken, or the end of the helper that ran for it. -/
inductive Operates (m : Monitor) : Action → Ticket → Prop where
  | request (t : Ticket) (text : String) (rest : List (Ticket × Request))
    (h : m.requests = (t, .requestOverride text) :: rest) : Operates m .takeRequest t
  | helped (t : Ticket) (path : String) (result : Except ControlError Unit) (rest : List Event)
    (h : m.events = .helperFinished path result t :: rest) : Operates m .takeEvent t
  | remove (t : Ticket) (text : String) (rest : List (Ticket × Request))
    (h : m.requests = (t, .removeOverride text) :: rest) : Operates m .takeRequest t
  | clear (t : Ticket) (rest : List (Ticket × Request))
    (h : m.requests = (t, .clearOverrides) :: rest) : Operates m .takeRequest t

/-- An action is to take the override of `p` back, but there is none. -/
def TakesNone (m : Monitor) (a : Action) (p : String) : Prop :=
  a = .takeRequest ∧ p ∉ m.overrides ∧
    ∃ t text rest, m.requests = (t, .removeOverride text) :: rest ∧ Text.trim text = p

/-! ## Answers -/

theorem replies_conclude (m : Monitor) (t : Ticket) (o : Outcome) :
    (m.conclude t o).replies = (t, .outcome o) :: m.replies :=
  congrArg Docket.replies (docket_conclude m t o)

theorem replies_adopt {α : Type} (m : Monitor) (e : PolicyStore.Edit α) :
    (m.adopt e).replies = m.replies :=
  rfl

/-- What is said of a request for an override that the monitor applies. -/
def additionOutcome (path : String) : Except OsError Bool → Outcome
  | .ok _ => allowed path
  | .error cause => editFailed cause

/-- The answer to a request for an override that the monitor applies. -/
theorem replies_applyOverride (m : Monitor) (path : String) (t : Ticket) :
    (m.applyOverride path t).replies =
      (t, .outcome (additionOutcome path
        (m.engine.policy.addOverride m.around.disk path).result)) :: m.replies := by
  simp only [applyOverride]
  split
  · next hresult =>
    have hreplies := congrArg Docket.replies (docket_scheduleExpiry
      (m.adopt (m.engine.policy.addOverride m.around.disk path)) path)
    rw [replies_conclude, hresult]
    exact congrArg _ hreplies
  · next cause hresult =>
    rw [replies_conclude, hresult, replies_adopt]
    rfl

/-- The answer to a request for an override that is valid, where the monitor applies overrides. -/
theorem replies_takeRequest_of_request {text : String} {rest : List (Ticket × Request)}
    (hrequests : m.requests = (t, .requestOverride text) :: rest) (hne : Text.trim text ≠ "")
    (habsolute : Path.isAbsolute (Text.trim text) = true)
    (hhelper : m.settings.daemon.overrideHelper = none) :
    (m.act .takeRequest).replies =
      (t, .outcome (additionOutcome (Text.trim text)
        (m.engine.policy.addOverride m.around.disk (Text.trim text)).result)) :: m.replies := by
  have hact : m.act .takeRequest =
      { m with requests := rest }.applyOverride (Text.trim text) t := by
    simp only [act, takeRequest, hrequests, handleRequest, requestOverride, hne, habsolute, hhelper,
      if_false, Bool.not_true, Bool.false_eq_true]
  rw [hact]
  exact replies_applyOverride _ _ t

/-- What is said of a request to take an override back. -/
def removalOutcome (text : String) : Except OsError Bool → Outcome
  | .ok true => .succeeded ("Removed override for " ++ Path.displayName (Text.trim text))
  | .ok false => .failed ("No override for " ++ Path.displayName (Text.trim text))
  | .error cause => editFailed cause

/-- The answer to a request to take an override back. -/
theorem replies_takeRequest_of_remove {text : String} {rest : List (Ticket × Request)}
    (hrequests : m.requests = (t, .removeOverride text) :: rest) :
    (m.act .takeRequest).replies =
      (t, .outcome (removalOutcome text
        (m.engine.policy.removeOverride m.around.disk (Text.trim text)).result)) :: m.replies := by
  simp only [act, takeRequest, hrequests, handleRequest, removeOverride]
  split <;> next hresult =>
    rw [replies_conclude, hresult]
    rfl

/-- What is said of a request to take all overrides back. -/
def clearanceOutcome : Except OsError Nat → Outcome
  | .ok count => .succeeded ("Cleared " ++ toString count ++ " temporary override(s)")
  | .error cause => editFailed cause

/-- The answer to a request to take all overrides back. -/
theorem replies_takeRequest_of_clear {rest : List (Ticket × Request)}
    (hrequests : m.requests = (t, .clearOverrides) :: rest) :
    (m.act .takeRequest).replies =
      (t, .outcome (clearanceOutcome (m.engine.policy.clearOverrides m.around.disk).result)) ::
        m.replies := by
  simp only [act, takeRequest, hrequests, handleRequest, clearOverrides]
  split <;> next hresult =>
    rw [replies_conclude, hresult]
    rfl

/-- An action gives one answer at most. -/
theorem outcome_inj {x : Outcome} {rs rs' : List (Ticket × Reply)} (hx : rs' = (t, .outcome x) :: rs)
    (ho : rs' = (t, .outcome o) :: rs) : x = o := by
  rw [hx] at ho
  simpa using ho

/-! ## The ledger -/

/-- An edit that fails changes the disk only, and as a write does that was stopped. -/
theorem exists_adopt_eq {α : Type} {e : PolicyStore.Edit α} {overrides : List String}
    (hgoes : m.engine.policy.EditGoes m.around.disk overrides e) {cause : OsError}
    (hresult : e.result = .error cause) :
    ∃ disk, AtomicWrite.Stopped m.around.disk disk m.engine.policy.path ∧
      m.ledger.adopt e = { m.ledger with disk } := by
  have hfails : ¬ e.result.isOk := by simp [hresult, Except.isOk, Except.toBool]
  refine ⟨e.disk, hgoes.stopped_of_not_ok hfails, ?_⟩
  rw [Ledger.adopt, hgoes.store_eq_of_not_ok hfails]
  rfl

/-- What an operation that failed leaves of the ledger: either only the disk has changed, but not
the policy file, or the timer of an override is stopped that was to be taken back though there is
none. -/
def FailedLedger (m : Monitor) (a : Action) (l : Ledger) : Prop :=
  (∃ disk, AtomicWrite.Stopped m.around.disk disk m.engine.policy.path ∧
    l = { m.ledger with disk } ∧ ∀ p, ¬ m.TakesNone a p) ∨
  ∃ p, m.TakesNone a p ∧ l = { m.ledger with expiry := (m.engine.expiry.cancel p).2 }

/-- Only a request to take an override back can find none. -/
theorem not_takesNone {r : Request} {rest : List (Ticket × Request)}
    (hrequests : m.requests = (t, r) :: rest) (hr : ∀ text, r ≠ .removeOverride text) (p : String) :
    ¬ m.TakesNone .takeRequest p := by
  rintro ⟨-, -, t', text, rest', hrequests', -⟩
  obtain ⟨hfirst, -⟩ := List.cons.inj (hrequests.symm.trans hrequests')
  exact hr text (congrArg Prod.snd hfirst)

theorem failedLedger_request {text : String} {rest : List (Ticket × Request)}
    (hrequests : m.requests = (t, .requestOverride text) :: rest)
    (hreply : (m.act .takeRequest).replies = (t, .outcome o) :: m.replies)
    (hfails : o.success = false) : m.FailedLedger .takeRequest (m.act .takeRequest).ledger := by
  have hother := not_takesNone hrequests (by simp)
  have hdeed : m.deed .takeRequest = m.requestDeed (.requestOverride text) := by
    simp only [deed, hrequests]
  refine .inl ?_
  rw [ledger_act, hdeed]
  by_cases hskip : Text.trim text = "" ∨ !Path.isAbsolute (Text.trim text) ∨
      m.settings.daemon.overrideHelper.isSome
  · refine ⟨m.around.disk, .refl _ _, ?_, hother⟩
    simp only [requestDeed, hskip, if_true]
    rfl
  · simp only [not_or, Bool.not_eq_true, Option.isSome_eq_false_iff,
      Option.isNone_iff_eq_none] at hskip
    obtain ⟨hne, habsolute, hhelper⟩ := hskip
    have hanswer := outcome_inj
      (replies_takeRequest_of_request hrequests hne (by simpa using habsolute) hhelper) hreply
    cases hresult : (m.engine.policy.addOverride m.around.disk (Text.trim text)).result with
    | ok b =>
      simp only [hresult, additionOutcome] at hanswer
      simp [← hanswer, allowed, Outcome.succeeded] at hfails
    | error cause =>
      obtain ⟨disk, hstopped, hadopt⟩ :=
        exists_adopt_eq (PolicyStore.editGoes_addOverride _ _ _) hresult
      refine ⟨disk, hstopped, ?_, hother⟩
      rw [← hadopt]
      simp [requestDeed, hne, habsolute, hhelper, Ledger.perform, hresult, Except.isOk,
        Except.toBool]

theorem failedLedger_helped {path : String} {result : Except ControlError Unit} {rest : List Event}
    (hevents : m.events = .helperFinished path result t :: rest)
    (hreply : (m.act .takeEvent).replies = (t, .outcome o) :: m.replies)
    (hfails : o.success = false) : m.FailedLedger .takeEvent (m.act .takeEvent).ledger := by
  have hdeed : m.deed .takeEvent = m.eventDeed (.helperFinished path result t) := by
    simp only [deed, hevents]
  refine .inl ⟨m.around.disk, .refl _ _, ?_, fun p h => by simp [TakesNone] at h⟩
  rw [ledger_act, hdeed]
  cases result with
  | error e => rfl
  | ok u =>
    have hact : (m.act .takeEvent).replies = (t, .outcome (allowed path)) :: m.replies := by
      simp only [act, takeEvent, hevents, handleEvent, helperFinished]
      rw [replies_conclude]
      have hkept := congrArg Docket.replies (docket_scheduleExpiry
        ({ m with events := rest }.reload .policy) path)
      exact congrArg _ hkept
    simp [← outcome_inj hact hreply, allowed, Outcome.succeeded] at hfails

theorem failedLedger_remove {text : String} {rest : List (Ticket × Request)}
    (hrequests : m.requests = (t, .removeOverride text) :: rest)
    (hreply : (m.act .takeRequest).replies = (t, .outcome o) :: m.replies)
    (hfails : o.success = false) : m.FailedLedger .takeRequest (m.act .takeRequest).ledger := by
  have hdeed : m.deed .takeRequest = m.requestDeed (.removeOverride text) := by
    simp only [deed, hrequests]
  have hanswer := outcome_inj (replies_takeRequest_of_remove hrequests) hreply
  rw [ledger_act, hdeed]
  simp only [requestDeed, Ledger.perform]
  by_cases hmem : Text.trim text ∈ m.overrides
  · left
    have hother (p : String) : ¬ m.TakesNone .takeRequest p := by
      rintro ⟨-, hp, t', text', rest', hrequests', rfl⟩
      obtain ⟨⟨rfl, rfl⟩, rfl⟩ : (t = t' ∧ text = text') ∧ rest = rest' := by
        simpa [hrequests] using hrequests'
      exact hp hmem
    cases hresult : (m.engine.policy.removeOverride m.around.disk (Text.trim text)).result with
    | ok b =>
      obtain rfl : b = true := by
        have hhas : m.engine.policy.policy.hasOverride (Text.trim text) = true :=
          List.contains_iff_mem.mpr hmem
        simp only [PolicyStore.removeOverride, hhas, if_true, PolicyStore.persist] at hresult
        split at hresult
        · exact (Except.ok.inj hresult).symm
        · simp at hresult
      simp [← hanswer, hresult, removalOutcome, Outcome.succeeded] at hfails
    | error cause =>
      obtain ⟨disk, hstopped, hadopt⟩ :=
        exists_adopt_eq (PolicyStore.editGoes_removeOverride _ _ _) hresult
      refine ⟨disk, hstopped, ?_, hother⟩
      rw [← hadopt]
      simp [Except.isOk, Except.toBool]
  · right
    refine ⟨Text.trim text, ⟨rfl, hmem, t, text, rest, hrequests, rfl⟩, ?_⟩
    have hhas : m.engine.policy.policy.hasOverride (Text.trim text) = false := by
      simpa [SecurityPolicy.hasOverride, overrides] using hmem
    simp only [PolicyStore.removeOverride, hhas, if_false, Bool.false_eq_true]
    rfl

theorem failedLedger_clear {rest : List (Ticket × Request)}
    (hrequests : m.requests = (t, .clearOverrides) :: rest)
    (hreply : (m.act .takeRequest).replies = (t, .outcome o) :: m.replies)
    (hfails : o.success = false) : m.FailedLedger .takeRequest (m.act .takeRequest).ledger := by
  have hother := not_takesNone hrequests (by simp)
  have hdeed : m.deed .takeRequest = m.requestDeed .clearOverrides := by
    simp only [deed, hrequests]
  have hanswer := outcome_inj (replies_takeRequest_of_clear hrequests) hreply
  rw [ledger_act, hdeed]
  simp only [requestDeed, Ledger.perform]
  cases hresult : (m.engine.policy.clearOverrides m.around.disk).result with
  | ok n =>
    simp only [hresult, clearanceOutcome] at hanswer
    simp [← hanswer, Outcome.succeeded] at hfails
  | error cause =>
    obtain ⟨disk, hstopped, hadopt⟩ :=
      exists_adopt_eq (PolicyStore.editGoes_clearOverrides _ _) hresult
    refine .inl ⟨disk, hstopped, ?_, hother⟩
    rw [← hadopt]
    simp [Except.isOk, Except.toBool]

/-- The ledger after an operation that failed. -/
theorem ledger_of_fails (hop : m.Operates a t)
    (hreply : (m.act a).replies = (t, .outcome o) :: m.replies) (hfails : o.success = false) :
    m.FailedLedger a (m.act a).ledger := by
  cases hop with
  | request t text rest h => exact failedLedger_request h hreply hfails
  | helped t path result rest h => exact failedLedger_helped h hreply hfails
  | remove t text rest h => exact failedLedger_remove h hreply hfails
  | clear t rest h => exact failedLedger_clear h hreply hfails

/-- The policy after an operation that failed, in memory and in its file. -/
theorem stopped_of_fails (hop : m.Operates a t)
    (hreply : (m.act a).replies = (t, .outcome o) :: m.replies) (hfails : o.success = false) :
    (m.act a).engine.policy = m.engine.policy ∧
      AtomicWrite.Stopped m.around.disk (m.act a).around.disk m.engine.policy.path := by
  rcases ledger_of_fails hop hreply hfails with ⟨disk, hstopped, hledger, -⟩ | ⟨p, -, hledger⟩
  · have hdisk : (m.act a).around.disk = disk := congrArg Ledger.disk hledger
    exact ⟨congrArg Ledger.store hledger, hdisk ▸ hstopped⟩
  · have hdisk : (m.act a).around.disk = m.around.disk := congrArg Ledger.disk hledger
    refine ⟨congrArg Ledger.store hledger, ?_⟩
    rw [hdisk]
    exact .refl _ _

/-- What is read of the policy file after an operation that failed. -/
theorem policyFile?_of_fails (hop : m.Operates a t)
    (hreply : (m.act a).replies = (t, .outcome o) :: m.replies) (hfails : o.success = false)
    (hread : m.policyFile?.isSome ∨
      m.around.disk.IsTree ∧ m.around.disk.WithinReach m.engine.policy.path) :
    (m.act a).policyFile? = m.policyFile? := by
  obtain ⟨hstore, hstopped⟩ := stopped_of_fails hop hreply hfails
  rw [policyFile?, policyFile?, hstore]
  rcases hread with hsome | ⟨htree, hreach⟩
  · exact hstopped.keepsFile.read?_eq (.inl hsome)
  · exact (hstopped.spares htree).read?_eq hreach

/-- Only one override can be to be taken back. -/
theorem TakesNone.unique {p q : String} (hp : m.TakesNone a p) (hq : m.TakesNone a q) : q = p := by
  obtain ⟨-, -, t, text, rest, hrequests, rfl⟩ := hp
  obtain ⟨-, -, t', text', rest', hrequests', rfl⟩ := hq
  obtain ⟨⟨-, rfl⟩, -⟩ : (t = t' ∧ text = text') ∧ rest = rest' := by
    simpa [hrequests] using hrequests'
  rfl

/-- The timers of overrides after an operation that failed. -/
theorem pending?_of_fails (horderly : m.engine.expiry.Orderly) (hop : m.Operates a t)
    (hreply : (m.act a).replies = (t, .outcome o) :: m.replies) (hfails : o.success = false)
    (p : String) :
    (m.TakesNone a p → (m.act a).engine.expiry.pending? p = none) ∧
      (¬ m.TakesNone a p →
        (m.act a).engine.expiry.pending? p = m.engine.expiry.pending? p) := by
  rcases ledger_of_fails hop hreply hfails with ⟨disk, -, hledger, hnone⟩ | ⟨q, hq, hledger⟩
  · have hexpiry : (m.act a).engine.expiry = m.engine.expiry := congrArg Ledger.expiry hledger
    rw [hexpiry]
    exact ⟨fun htakes => absurd htakes (hnone p), fun _ => rfl⟩
  · have hexpiry : (m.act a).engine.expiry = (m.engine.expiry.cancel q).2 :=
      congrArg Ledger.expiry hledger
    rw [hexpiry, horderly.pending?_cancel]
    exact ⟨fun htakes => if_pos (hq.unique htakes),
      fun htakes => if_neg fun hpq : p = q => htakes (hpq ▸ hq)⟩

/-- Operations on overrides have nothing to do with records. -/
theorem Operates.front_act (hop : m.Operates a t) : (m.act a).front = m.front := by
  have hnews : m.news a = .nothing := by
    cases hop with
    | request t text rest h => simp only [news, h, requestNews]
    | helped t path result rest h => simp only [news, h, eventNews]
    | remove t text rest h => simp only [news, h, requestNews]
    | clear t rest h => simp only [news, h, requestNews]
  rw [Monitor.front_act, hnews, Front.take]

/-! ## Invalid requests -/

/-- An outcome that blames the path of the request. -/
def BlamesPath (text : String) (o : Outcome) : Prop :=
  o = .failed "Override path is empty" ∨
    o = .failed ("Override path must be absolute: " ++ Text.trim text)

/-- An edit that failed is not blamed on the path. -/
theorem not_blamesPath_editFailed (text : String) (cause : OsError) :
    ¬ BlamesPath text (editFailed cause) := by
  rintro (h | h) <;> have hfirst := congrArg (·.message.toList.head?) h <;>
    simp [editFailed, Outcome.failed] at hfirst

/-- A request for an override is rejected because of its path exactly where the path is empty, or
does not start at the root, without the space around it. -/
theorem rejected_iff {text : String} {rest : List (Ticket × Request)}
    (hrequests : m.requests = (t, .requestOverride text) :: rest) :
    (∃ o, BlamesPath text o ∧ (m.act .takeRequest).replies = (t, .outcome o) :: m.replies) ↔
      Text.trim text = "" ∨ ¬ Path.isAbsolute (Text.trim text) := by
  have hact : m.act .takeRequest = { m with requests := rest }.requestOverride text t := by
    simp only [act, takeRequest, hrequests, handleRequest]
  rw [hact]
  simp only [requestOverride]
  split
  · next hempty =>
    refine ⟨fun _ => .inl hempty, fun _ => ⟨_, .inl rfl, ?_⟩⟩
    rw [replies_conclude]
    rfl
  · next hempty =>
    split
    · next habsolute =>
      refine ⟨fun _ => .inr (by simpa using habsolute), fun _ => ⟨_, .inr rfl, ?_⟩⟩
      rw [replies_conclude]
      rfl
    · next habsolute =>
      have hvalid : ¬ (Text.trim text = "" ∨ ¬ Path.isAbsolute (Text.trim text)) := by
        simpa [hempty] using habsolute
      refine iff_of_false ?_ hvalid
      rintro ⟨o, hblames, hreply⟩
      split at hreply
      · exact absurd (congrArg List.length hreply) (by simp [replies])
      · have hanswer := outcome_inj (replies_applyOverride _ _ t) hreply
        rw [← hanswer, additionOutcome.eq_def] at hblames
        split at hblames
        · rcases hblames with h | h <;> simp [allowed, Outcome.succeeded, Outcome.failed] at h
        · exact not_blamesPath_editFailed text _ hblames

/-! ## The result -/

/-- **Operations that fail change nothing.** When an operation on overrides is reported as failed, the
policy in memory, the records and the acknowledged record are as before. So is the policy file: the
path leads where it led before, at its place there is the same file as before, or none as before, and
nothing else that existed has changed but the temporary file. What is read through the path is as
before too if the file could be read. If it could not, it still cannot, unless the path goes up through
`..` and led nowhere for a missing directory. The timers of overrides are as before, with the moments
at which they fire, but that of an override that was to be taken back though there is none is stopped.
A request for an override is rejected because of its path exactly where the path is empty or does not
start at the root, without the space around it.

**Proof sketch.** The answer to an operation tells what became of its edit. One that fails leaves the
policy in memory as it was and changes the disk at most as a write does that was stopped. -/
theorem failed_operation_changes_nothing (settings : Settings) (around : Surroundings)
    (daemonRuns : Bool) (actions : List Action) :
    let m := (start settings around daemonRuns).actAll actions
    (∀ a t o, m.Operates a t → (m.act a).replies = (t, .outcome o) :: m.replies →
      o.success = false →
      (m.act a).engine.policy = m.engine.policy ∧
      (m.act a).engine.log = m.engine.log ∧
      (m.act a).engine.acknowledged = m.engine.acknowledged ∧
      m.around.disk.KeepsFile (m.act a).around.disk m.engine.policy.path ∧
      (m.policyFile?.isSome → (m.act a).policyFile? = m.policyFile?) ∧
      (around.disk.IsTree →
        AtomicWrite.Spares m.around.disk (m.act a).around.disk m.engine.policy.path ∧
        (m.around.disk.WithinReach m.engine.policy.path →
          (m.act a).policyFile? = m.policyFile?)) ∧
      ∀ p, (m.TakesNone a p → (m.act a).engine.expiry.pending? p = none) ∧
        (¬ m.TakesNone a p →
          (m.act a).engine.expiry.pending? p = m.engine.expiry.pending? p)) ∧
    ∀ t text rest, m.requests = (t, .requestOverride text) :: rest →
      ((∃ o, BlamesPath text o ∧ (m.act .takeRequest).replies = (t, .outcome o) :: m.replies) ↔
        Text.trim text = "" ∨ ¬ Path.isAbsolute (Text.trim text)) := by
  intro m
  refine ⟨fun a t o hop hreply hfails => ?_, fun t text rest hrequests => rejected_iff hrequests⟩
  have horderly : m.engine.expiry.Orderly :=
    (orderly_actAll (orderly_start settings around daemonRuns) actions).expiry
  have htrees (htree : around.disk.IsTree) : m.around.disk.IsTree := by
    refine isTree_actAll ?_ actions
    rwa [disk_start]
  have hfront := hop.front_act
  obtain ⟨hstore, hstopped⟩ := stopped_of_fails hop hreply hfails
  exact ⟨hstore, congrArg Front.log hfront, congrArg Front.acknowledged hfront, hstopped.keepsFile,
    fun hsome => policyFile?_of_fails hop hreply hfails (.inl hsome),
    fun htree => ⟨hstopped.spares (htrees htree),
      fun hreach => policyFile?_of_fails hop hreply hfails (.inr ⟨htrees htree, hreach⟩)⟩,
    pending?_of_fails horderly hop hreply hfails⟩

/-- An override with a lifetime, a directory in place of the temporary file of the policy, and the
request to take the override back. -/
def blockedRemoval : List Action :=
  [.send (.requestOverride "/work/a"), .takeRequest, .change (.makeDirs "/p/es_policy.tmp"),
    .send (.removeOverride " /work/a ")]

/-- Where the temporary file cannot be written, the override stays with its timer, in memory and in the
file. -/
theorem blocked_removal_changes_nothing :
    let m := (start shortLived (.emptyDir "/p") false).actAll blockedRemoval
    m.overrides = ["/work/a"] ∧ (m.act .takeRequest).overrides = ["/work/a"] ∧
      (m.act .takeRequest).policyFile? = m.policyFile? ∧
      (m.act .takeRequest).engine.expiry.pending? "/work/a" = some (1, some 100) := by
  intro m
  have hrequests : m.requests = [(1, .removeOverride " /work/a ")] := by decide +kernel
  have hoverrides : m.overrides = ["/work/a"] := by decide +kernel
  obtain ⟨hpolicy, -, -, -, hfile, -, hpending⟩ :=
    (failed_operation_changes_nothing shortLived (.emptyDir "/p") false blockedRemoval).1
      .takeRequest 1 _ (.remove 1 _ [] hrequests) (replies_takeRequest_of_remove hrequests)
      (by decide +kernel)
  have htakes : ¬ m.TakesNone .takeRequest "/work/a" := fun h => h.2.1 (by simp [hoverrides])
  refine ⟨hoverrides, ?_, hfile (by decide +kernel), ?_⟩
  · rw [overrides, hpolicy]
    exact hoverrides
  · rw [(hpending "/work/a").2 htakes]
    decide +kernel

/-- The files in `/p`, with a way to the policy file through a directory that is not there. -/
def detour : Settings :=
  .ofPaths { MonitorPaths.inDir "/p" with policy := "/p/x/../es_policy.json" }

/-- A directory in place of the temporary file of the policy, and a request for an override. -/
def blockedRequest : List Action :=
  [.change (.makeDirs "/p/es_policy.tmp"), .send (.requestOverride "/work/a")]

/-- An operation that fails may create the directory for want of which the policy file could not be
reached. Then the policy is there, with the zone that it protects, where none was read before. -/
theorem policy_appears_in_failed_operation :
    ¬ ∀ (settings : Settings) (around : Surroundings) (daemonRuns : Bool) (actions : List Action)
      (a : Action) (t : Ticket) (o : Outcome), around.disk.IsTree →
      settings.daemon.overrideHelper = none →
      let m := (start settings around daemonRuns).actAll actions
      m.Operates a t → (m.act a).replies = (t, .outcome o) :: m.replies → o.success = false →
        (m.act a).policyFile? = m.policyFile? := by
  intro h
  have htree : workIsProtected.disk.IsTree := (Disk.isTree_empty.apply (.makeDirs "/p")).apply _
  have hrequests : ((start detour workIsProtected false).actAll blockedRequest).requests =
      [(0, .requestOverride "/work/a")] := by decide +kernel
  have hsame := h detour workIsProtected false blockedRequest .takeRequest 0 _ htree rfl
    (.request 0 "/work/a" [] hrequests)
    (replies_takeRequest_of_request hrequests (by decide +kernel) (by decide +kernel) rfl)
    (by decide +kernel)
  revert hsame
  decide +kernel

end Monitor

end DenialMonitor
