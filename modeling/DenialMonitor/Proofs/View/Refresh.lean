import DenialMonitor.Proofs.LogTail.Tailing
import DenialMonitor.Proofs.Monitor.Requests
import DenialMonitor.Proofs.View.DaemonStatus
import DenialMonitor.Proofs.View.Publication
import DenialMonitor.Proofs.View.Starting

set_option autoImplicit false

/-!
# Refreshes

A refresh loads every source, watches those that have a file and no live watch, and has the log
followed if there is one. From then on they stay watched and followed. As long as no file changes,
what a refresh is to bring about is so already, and another one does nothing but find out whether the
daemon runs.

The answer to a refresh is what is published when that is known. It is the same for another refresh
as long as nothing else is taken in between that is shown. Lines of the log are taken in: those that
were written before a refresh may be read after it.

## Main definitions

* `Monitor.WatchesOver` — a source has a live watch, which has the source loaded.
* `Monitor.Refreshed` — what a refresh is to bring about is so already.
* `Monitor.Uneventful` — an action that takes in nothing new.
* `Monitor.Calm` — an action that changes no file, in which no timer fires.

## Main results

* `Monitor.Regular.refreshed_act_of_refresh` — what a refresh brings about.
* `Monitor.Refreshed.refresh_eq` — what another refresh does then.
* `Monitor.second_refresh_changes_nothing` — a refresh restores coverage, and another one changes
  nothing.
* `Monitor.refreshes_may_differ` — lines that were written before both are in one snapshot only.
-/

namespace DenialMonitor

/-- Loading the denial log a second time changes nothing, and nothing has arrived. -/
theorem DenialLog.reload_reload (log : DenialLog) (content : Option (List UInt8)) :
    (log.reload content).2.reload content = (none, (log.reload content).2) := by
  cases content with
  | none => rfl
  | some bytes => simp [reload]

/-- Whether an event tells nothing new where no file has changed and `b` is known to be the answer
whether the daemon runs. -/
def Event.isStale (b : Bool) : Event → Bool
  | .changed _ => true
  | .runningState b' _ => b' = b
  | _ => false

/-- Whether an event tells that a timer has fired. -/
def Event.isExpiry : Event → Bool
  | .overrideExpired _ _ | .outcomeExpired _ => true
  | _ => false

namespace Monitor

variable {m : Monitor} {a : Action} {source : Source} {t : Ticket} {b : Bool}

/-! ## Coverage -/

/-- The file of a source has a live watch, which is armed or about to be armed again. When it fires,
the source is queued to be loaded. -/
def WatchesOver (m : Monitor) (source : Source) : Prop :=
  ∃ i e, m.watcher.entries[i]? = some e ∧
    Watcher.isLive (source.path m.settings.paths) e ∧ e.watch.state ≠ .stopped ∧
    ∀ eager, (m.act (.runWatch i eager)).events = m.events ++
      if (e.watch.step m.watcher.delays e.path m.around eager).1 then [.changed source] else []

theorem Regular.watchesOver (h : m.Regular) (hapart : m.settings.paths.SourcesApart)
    (hrun : m.running) (hw : ∃ w, m.watch? source = some w) : m.WatchesOver source := by
  obtain ⟨w, hw⟩ := hw
  obtain ⟨e, he, rfl⟩ := Watcher.exists_of_find? hw
  have hmem := List.mem_of_find?_eq_some he
  have hlive : Watcher.isLive (source.path m.settings.paths) e = true := List.find?_some he
  obtain ⟨i, hi⟩ := List.mem_iff_getElem?.mp hmem
  -- the live watch on the path of the source is that of the source
  have htag : e.tag = source := by
    apply hapart
    rw [← (h.live hrun).path_eq e hmem]
    simp only [Watcher.isLive, Bool.and_eq_true] at hlive
    exact hlive.1
  refine ⟨i, e, hi, hlive, ?_, fun eager => ?_⟩
  · have hended := (h.live hrun).not_ended e hmem
    simp only [Watch.hasEnded, decide_eq_false_iff_not] at hended
    unfold Watch.state
    split <;> simp_all
  · have hfired : (m.watcher.run m.around i eager).1 =
        if (e.watch.step m.watcher.delays e.path m.around eager).1 then some source else none := by
      simp [Watcher.run, hi, htag]
    simp only [Monitor.act, runWatch, hfired]
    cases (e.watch.step m.watcher.delays e.path m.around eager).1 with
    | false => simp
    | true => simp [post, hrun]

/-! ## What a refresh is to bring about -/

/-- What a refresh is to bring about is so already: all sources are loaded, those that have a file have
a live watch, and the log is followed if there is one. -/
structure Refreshed (m : Monitor) : Prop where
  policy : m.engine.Holds (m.content? .policy) .policy
  denials : m.engine.log.reload (m.content? .denials) = (none, m.engine.log)
  lastDenial : m.engine.Holds (m.content? .lastDenial) .lastDenial
  watched : ∀ source : Source, (m.around.file? (source.path m.settings.paths)).isSome →
    ∃ w, m.watch? source = some w
  tailed : (m.around.disk.entry m.settings.paths.log).isOk → m.tailer.isTailing

/-- The queues of the owning task have nothing to do with it. -/
theorem Refreshed.queues (hr : m.Refreshed) (requests : List (Ticket × Request))
    (events : List Event) :
    ({ m with requests := requests, events := events } : Monitor).Refreshed :=
  ⟨hr.policy, hr.denials, hr.lastDenial, hr.watched, hr.tailed⟩

theorem Regular.queues (h : m.Regular) (requests : List (Ticket × Request)) (events : List Event) :
    ({ m with requests := requests, events := events } : Monitor).Regular :=
  ⟨h.tidy, h.path_eq, h.upToDate, h.live⟩

/-- A source that is loaded again changes nothing. -/
theorem Refreshed.reload_eq (hr : m.Refreshed) (hpath : m.engine.policy.path = m.settings.paths.policy)
    (source : Source) : m.reload source = m := by
  cases source with
  | policy =>
    have hpolicy : m.engine.policy.policy =
        SecurityPolicy.ofFile (m.around.disk.read? m.settings.paths.policy) := hr.policy
    have hstore : m.engine.policy.reload m.around.disk = m.engine.policy := by
      rw [PolicyStore.reload, hpath, ← hpolicy, ← hpath]
    simp only [reload, update, hstore]
  | denials =>
    have hlog : m.engine.log.reload (m.around.disk.read? m.settings.paths.denials) =
        (none, m.engine.log) := hr.denials
    simp only [reload, update, hlog]
  | lastDenial =>
    have hlast : m.engine.lastDenial =
        DenialMonitor.lastDenial (m.around.disk.read? m.settings.paths.lastDenial) := hr.lastDenial
    simp only [reload, update, ← hlast]

/-- Nor does a source that is to be watched: it has a live watch, or there is no file. -/
theorem Refreshed.register_eq (hr : m.Refreshed) (h : m.Regular) (hrun : m.running)
    (source : Source) : m.register source = m := by
  simp only [register]
  split
  · rfl
  · next hidle =>
    have hnone := (h.live hrun).find?_eq_none hidle
    have hmissing : m.around.file? (source.path m.settings.paths) = none := by
      by_contra hthere
      obtain ⟨w, hw⟩ := hr.watched source (Option.isSome_iff_ne_none.mpr hthere)
      rw [watch?, hnone] at hw
      cases hw
    have hwatchable : m.around.watchable? (source.path m.settings.paths) = none := by
      simp [Surroundings.watchable?, hmissing]
    simp only [Watcher.watch, hwatchable, Watcher.stop_of_find?_eq_none hnone]

/-- Nor does the log that is to be followed. -/
theorem Refreshed.followLog_eq (hr : m.Refreshed) (hkeeps : m.tailer.Keeps m.settings.paths.log) :
    m.followLog = m := by
  simp only [followLog]
  split
  · rfl
  · next hidle => rw [hkeeps.start_eq hidle fun hthere => hidle (hr.tailed hthere)]

theorem Regular.publish_eq (h : m.Regular) : m.publish = m :=
  if_pos h.same_published

/-- **Another refresh** does nothing but find out whether the daemon runs. -/
theorem Refreshed.refresh_eq (hr : m.Refreshed) (h : m.Regular) (hrun : m.running)
    (hkeeps : m.tailer.Keeps m.settings.paths.log) (t : Ticket) :
    m.refresh t = { m with errands := m.errands ++ [.inspect t] } := by
  have hreload : m.reloadAll = m := by
    simp only [reloadAll, Source.all, List.foldl_cons, List.foldl_nil, hr.reload_eq h.path_eq]
  have hregister : m.registerAll = m := by
    simp only [registerAll, Source.all, List.foldl_cons, List.foldl_nil, hr.register_eq h hrun]
  simp only [refresh, hreload, hregister, hr.followLog_eq hkeeps, h.publish_eq]

/-! ## What keeps it so -/

theorem content?_eq_of_disk_eq {m' : Monitor} (hsettings : m'.settings = m.settings)
    (hdisk : m'.around.disk = m.around.disk) (source : Source) :
    m'.content? source = m.content? source := by
  rw [content?, content?, hsettings, hdisk]

/-- Taking a refresh leaves the files as they are. -/
theorem disk_act_of_refresh {rest : List (Ticket × Request)}
    (hrequests : m.requests = (t, .refresh) :: rest) :
    (m.act .takeRequest).around.disk = m.around.disk := by
  have hledger := ledger_act m .takeRequest
  simp only [deed, hrequests, requestDeed] at hledger
  exact congrArg Ledger.disk hledger

/-- As long as no file changes, it stays so. -/
theorem Refreshed.act (hr : m.Refreshed) (h : m.Regular) (hapart : m.settings.paths.SourcesApart)
    (hrun : (m.act a).running) (hdisk : (m.act a).around.disk = m.around.disk) :
    (m.act a).Refreshed := by
  have hcontent := content?_eq_of_disk_eq (settings_act m a) hdisk
  refine ⟨?_, ?_, ?_, fun source hthere => ?_, fun hthere => ?_⟩
  · rw [hcontent]
    exact h.holds_act hrun (hcontent .policy) hr.policy
  · rw [hcontent]
    by_cases hreads : Reads .denials m a
    · have hlog : (m.act a).intake.log = m.engine.log := by
        rcases intake_act_of_reads (by simp) hreads with ⟨rest, hload⟩ | hrefresh
        · rw [hload]
          exact congrArg Prod.snd hr.denials
        · obtain ⟨watcher, heq⟩ := m.intake.exists_refresh_eq m.settings.paths m.around
          rw [hrefresh, heq]
          exact congrArg Prod.snd hr.denials
      have hlog' : (m.act a).engine.log = m.engine.log := hlog
      rw [hlog', hr.denials]
    · rw [(loaded_act_of_not_reads hrun).1 hreads, hr.denials]
  · rw [hcontent]
    exact h.holds_act hrun (hcontent .lastDenial) hr.lastDenial
  · rw [settings_act, Surroundings.file?, hdisk] at hthere
    have hkept : ∃ w, (m.actAll [a]).watch? source = some w :=
      h.exists_watch?_actAll hapart hrun (hr.watched source hthere)
    exact hkept
  · rw [settings_act, hdisk] at hthere
    exact isTailing_act (hr.tailed hthere) hrun

/-- **What a refresh brings about**, where the operating system accepts watches. -/
theorem Regular.refreshed_act_of_refresh {rest : List (Ticket × Request)} (h : m.Regular)
    (hrun : m.running) (haccepts : m.around.refusesWatches = false)
    (hrequests : m.requests = (t, .refresh) :: rest) : (m.act .takeRequest).Refreshed := by
  have hdisk := disk_act_of_refresh hrequests
  have hcontent := content?_eq_of_disk_eq (settings_act m .takeRequest) hdisk
  have hreads (source : Source) : Reads source m .takeRequest := by
    simp [Reads, hrequests]
  have hintake := intake_takeRequest_of_refresh hrequests
  refine ⟨?_, ?_, ?_, fun source hthere => ?_, fun hthere => ?_⟩
  · rw [hcontent]
    exact h.holds_act_of_reads (hreads .policy)
  · obtain ⟨watcher, heq⟩ := m.intake.exists_refresh_eq m.settings.paths m.around
    have hlog : (m.act .takeRequest).engine.log =
        (m.engine.log.reload (m.content? .denials)).2 := by
      rw [heq] at hintake
      exact congrArg Intake.log hintake
    rw [hcontent, hlog, DenialLog.reload_reload]
  · rw [hcontent]
    exact h.holds_act_of_reads (hreads .lastDenial)
  · rw [settings_act, Surroundings.file?, hdisk] at hthere
    have hwatchable : (m.around.watchable? (source.path m.settings.paths)).isSome := by
      simpa [Surroundings.watchable?, haccepts, Surroundings.file?] using hthere
    have hlive : (Source.all.foldl (fun i source => i.load m.settings.paths m.around source)
        m.intake).watcher.Live fun source => source.path m.settings.paths := by
      simp only [Source.all, List.foldl_cons, List.foldl_nil, Intake.watcher_load]
      exact h.live hrun
    have hmem : source ∈ Source.all := by cases source <;> simp [Source.all]
    obtain ⟨w, hw⟩ := exists_find?_registerEach hlive hmem hwatchable
    have hwatcher : (m.act .takeRequest).watcher =
        (m.intake.refresh m.settings.paths m.around).watcher := congrArg Intake.watcher hintake
    refine ⟨w, ?_⟩
    rw [watch?, settings_act, hwatcher]
    exact hw
  · rw [settings_act, hdisk] at hthere
    simp only [Monitor.act, takeRequest, hrequests, handleRequest, tailer_refresh]
    split
    · assumption
    · exact LogTailer.isTailing_start hthere _

/-- An action leaves the files as they are. -/
def KeepsDisk (m : Monitor) (a : Action) : Prop :=
  (m.act a).around.disk = m.around.disk

instance (m : Monitor) (a : Action) : Decidable (m.KeepsDisk a) :=
  inferInstanceAs (Decidable (_ = _))

theorem Refreshed.actAll (hr : m.Refreshed) (h : m.Regular) (hapart : m.settings.paths.SourcesApart)
    {actions : List Action} (hrun : (m.actAll actions).running)
    (hdisk : Along KeepsDisk m actions) : (m.actAll actions).Refreshed := by
  induction actions generalizing m with
  | nil => exact hr
  | cons a actions ih =>
    have hrun' : (m.act a).running := running_of_running_actAll hrun
    have hapart' : (m.act a).settings.paths.SourcesApart := by rwa [settings_act]
    exact ih (hr.act h hapart hrun' hdisk.1) (h.act a) hapart' hrun hdisk.2

/-! ## What is taken -/

/-- Another refresh that is taken changes nothing but the queues. -/
theorem Refreshed.takeRequest_eq {rest : List (Ticket × Request)} (hr : m.Refreshed) (h : m.Regular)
    (hrun : m.running) (hkeeps : m.tailer.Keeps m.settings.paths.log)
    (hrequests : m.requests = (t, .refresh) :: rest) :
    m.act .takeRequest = { m with requests := rest, errands := m.errands ++ [.inspect t] } := by
  have hact : m.act .takeRequest = ({ m with requests := rest } : Monitor).refresh t := by
    simp only [Monitor.act, takeRequest, hrequests, handleRequest]
  rw [hact, (hr.queues rest m.events).refresh_eq (h.queues rest m.events) hrun hkeeps]

/-- A source that has changed and was loaded already changes nothing. -/
theorem Refreshed.takeEvent_eq {rest : List Event} (hr : m.Refreshed) (h : m.Regular)
    (hevents : m.events = .changed source :: rest) : m.act .takeEvent = { m with events := rest } := by
  have hregular := h.queues m.requests rest
  simp only [Monitor.act, takeEvent, hevents, handleEvent,
    (hr.queues m.requests rest).reload_eq hregular.path_eq, hregular.publish_eq]

/-- A refresh is answered with what is published then. -/
theorem replies_takeEvent_of_runningState {rest : List Event}
    (hevents : m.events = .runningState b t :: rest) :
    (m.act .takeEvent).replies =
      (t, .snapshot (m.act .takeEvent).engine.published) :: m.replies := by
  have hpublish (m : Monitor) : m.publish.replies = m.replies :=
    congrArg Docket.replies (docket_publish m)
  have hanswer (m : Monitor) (r : Reply) : (m.answer t r).replies = (t, r) :: m.replies := rfl
  simp only [act, takeEvent, hevents, handleEvent, hanswer, hpublish]
  rfl

/-- The answer whether the daemon runs leaves the ledger alone. -/
theorem ledger_takeEvent_of_runningState {rest : List Event}
    (hevents : m.events = .runningState b t :: rest) : (m.act .takeEvent).ledger = m.ledger := by
  simp only [ledger_act, deed, hevents, eventDeed, Ledger.perform]

/-- If the answer whether the daemon runs is known already, nothing else changes. -/
theorem Regular.takeEvent_eq {rest : List Event} (h : m.Regular) (hb : m.engine.daemonRunning = b)
    (hevents : m.events = .runningState b t :: rest) :
    m.act .takeEvent =
      { m with
        events := rest
        outputs := (m.around.now, .reply t (.snapshot m.engine.published)) :: m.outputs } := by
  have hregular := h.queues m.requests rest
  have hupdate : (({ m with events := rest } : Monitor).update
      fun e => { e with daemonRunning := b }) = { m with events := rest } := by
    rw [← hb]
    rfl
  simp only [Monitor.act, takeEvent, hevents, handleEvent, hupdate, hregular.publish_eq, answer, tell]

/-! ## Runs in which nothing new is taken in -/

/-- What was told but answers, latest first. -/
def announcements (m : Monitor) : List (Nat × Output) :=
  m.outputs.filter (·.2.reply?.isNone)

/-- What is published, and what was told but answers. -/
def display (m : Monitor) : Snapshot × List (Nat × Output) :=
  (m.engine.published, m.announcements)

/-- The owning task takes in nothing new: only refreshes, sources that have changed, and the answer `b`
whether the daemon runs. -/
def TakesNothingNew (b : Bool) (m : Monitor) : Action → Prop
  | .takeRequest => ∀ x ∈ m.requests.head?, x.2 = .refresh
  | .takeEvent => ∀ e ∈ m.events.head?, e.isStale b
  | _ => True

instance (b : Bool) (m : Monitor) : ∀ a, Decidable (m.TakesNothingNew b a)
  | .takeRequest => inferInstanceAs (Decidable (∀ x ∈ m.requests.head?, x.2 = .refresh))
  | .takeEvent => inferInstanceAs (Decidable (∀ e ∈ m.events.head?, e.isStale b))
  | .change _ | .refuseWatches _ | .signal _ _ | .send _ | .release | .pass _ | .finish _ _
  | .runWatch _ _ | .runReader _ | .fireExpiry _ | .fireOutcome _ | .endWait _ | .retire =>
    inferInstanceAs (Decidable True)

/-- An action leaves the files as they are and the monitor running, and takes in nothing new. -/
def Uneventful (b : Bool) (m : Monitor) (a : Action) : Prop :=
  m.KeepsDisk a ∧ (m.act a).running ∧ m.TakesNothingNew b a

instance (b : Bool) (m : Monitor) (a : Action) : Decidable (Uneventful b m a) :=
  inferInstanceAs (Decidable (_ ∧ _ ∧ _))

theorem Uneventful.hears (h : Uneventful b m a) : Hears b m a := by
  cases a with
  | takeEvent =>
    intro b' hheard
    obtain ⟨e, hfirst, hruns⟩ := Option.bind_eq_some_iff.mp hheard
    have hstale : e.isStale b = true := h.2.2 e hfirst
    cases e with
    | runningState b'' t =>
      obtain rfl : b'' = b' := Option.some.inj hruns
      simpa [Event.isStale] using hstale
    | changed source => cases hruns
    | _ => cases hstale
  | _ => exact fun _ hnone => nomatch hnone

theorem display_post (m : Monitor) (e : Event) : (m.post e).display = m.display := by
  unfold post
  split <;> rfl

/-- Only what the owning task takes changes the display, as long as the monitor runs. -/
theorem display_act (hrun : (m.act a).running) (hrequest : a ≠ .takeRequest)
    (hevent : a ≠ .takeEvent) : (m.act a).display = m.display := by
  cases a with
  | send r =>
    have hrun' : m.running := running_of_running_act hrun
    simp only [act, send, hrun', if_true]
    rfl
  | finish i answer =>
    simp only [act, finishErrand]
    split
    · rfl
    · split
      · rw [display_post]
        rfl
      · rfl
  | runWatch i eager =>
    simp only [act, runWatch]
    split
    · rfl
    · rw [display_post]
      rfl
  | runReader i =>
    simp only [act, runReader]
    split
    · rfl
    · rw [display_post]
      rfl
  | fireExpiry generation =>
    simp only [act, fireExpiry]
    split
    · rfl
    · rw [display_post]
      rfl
  | fireOutcome generation =>
    simp only [act, fireOutcome]
    split
    · rfl
    · rw [display_post]
      rfl
  | endWait i =>
    simp only [act, endWait]
    split
    · split <;> rfl
    · rfl
  | takeRequest => exact absurd rfl hrequest
  | takeEvent => exact absurd rfl hevent
  | retire =>
    have hclose := (deed_ne_close hrun).2
    simp only [deed] at hclose
    split at hclose
    · exact absurd rfl hclose
    · next hretire =>
      simp only [act]
      rw [if_neg hretire]
  | _ => rfl

/-- An uneventful action leaves the display as it is. -/
theorem Refreshed.display_act (hr : m.Refreshed) (h : m.Regular)
    (hkeeps : m.tailer.Keeps m.settings.paths.log) (hb : m.engine.daemonRunning = b)
    (hidle : m.Uneventful b a) : (m.act a).display = m.display := by
  obtain ⟨-, hrun, hnew⟩ := hidle
  have hrun' : m.running := running_of_running_act hrun
  -- the owning task alone changes what is shown, so only what it takes matters
  by_cases hrequest : a = .takeRequest
  · subst hrequest
    cases hrequests : m.requests with
    | nil => simp only [Monitor.act, takeRequest, hrequests]
    | cons x rest =>
      obtain ⟨t, r⟩ := x
      obtain rfl : r = .refresh := hnew (t, r) (by simp [hrequests])
      rw [hr.takeRequest_eq h hrun' hkeeps hrequests]
      rfl
  by_cases hevent : a = .takeEvent
  · subst hevent
    cases hevents : m.events with
    | nil => simp only [Monitor.act, takeEvent, hevents]
    | cons e rest =>
      have hstale : e.isStale b = true := hnew e (by simp [hevents])
      cases e with
      | changed source =>
        rw [hr.takeEvent_eq h hevents]
        rfl
      | runningState b' t =>
        obtain rfl : b' = b := by simpa [Event.isStale] using hstale
        rw [h.takeEvent_eq hb hevents]
        simp [display, announcements, Output.reply?]
      | _ => cases hstale
  exact Monitor.display_act hrun hrequest hevent

/-- So does an uneventful run. -/
theorem Refreshed.display_actAll (hr : m.Refreshed) (h : m.Regular)
    (hapart : m.settings.paths.SourcesApart) (hkeeps : m.tailer.Keeps m.settings.paths.log)
    (hb : m.engine.daemonRunning = b) {actions : List Action}
    (hidle : Along (Uneventful b) m actions) : (m.actAll actions).display = m.display := by
  induction actions generalizing m with
  | nil => rfl
  | cons a actions ih =>
    obtain ⟨hfirst, hrest⟩ := hidle
    have hdisplay := hr.display_act h hkeeps hb hfirst
    have hb' := daemonRunning_act_of_hears hb hfirst.hears
    have hapart' : (m.act a).settings.paths.SourcesApart := by rwa [settings_act]
    exact (ih (hr.act h hapart hfirst.2.1 hfirst.1) (h.act a) hapart' (keeps_act hkeeps hfirst.2.1) hb'
      hrest).trans hdisplay

/-! ## The result -/

/-- **A refresh restores coverage, and another one changes nothing.** Let a refresh be taken in a run from
the start, where the operating system accepts watches and the paths of the sources say different things.
From then on, as long as the monitor runs, every source that has a file at that moment has a live watch
which has the source loaded when it fires, and the log is followed if there is one at that moment.

As long as no file changes, another refresh that is taken only has it found out whether the daemon runs:
nothing is told, published or written, no watch is set up and no log is followed anew. If the answer is the
one that the first refresh was given, and nothing else has been heard of the daemon since, all that is done
then is to answer with what is published. That is the snapshot with which the first one was answered, where
nothing else is taken in between but refreshes and sources that have changed; and nothing is told in between
then but answers.

**Proof sketch.** After a refresh everything is so already that a refresh is to bring about. This is kept
as long as no file changes, and while it is so, loading a source, setting its watch up, following the log
and publishing change nothing. -/
theorem second_refresh_changes_nothing (settings : Settings) (around : Surroundings)
    (daemonRuns : Bool) (hapart : settings.paths.SourcesApart) (before : List Action) (t : Ticket)
    (rest : List (Ticket × Request)) :
    let m := (start settings around daemonRuns).actAll before
    let refreshed := m.act .takeRequest
    m.running → m.around.refusesWatches = false → m.requests = (t, .refresh) :: rest →
    (∀ later, (refreshed.actAll later).running →
      (∀ source : Source, (m.around.file? (source.path settings.paths)).isSome →
        (refreshed.actAll later).WatchesOver source) ∧
      ((m.around.disk.entry settings.paths.log).isOk →
        (refreshed.actAll later).tailer.path? = some settings.paths.log)) ∧
    ∀ between, Along KeepsDisk refreshed between → (refreshed.actAll between).running →
      let m₁ := refreshed.actAll between
      (∀ t₁ rest₁, m₁.requests = (t₁, .refresh) :: rest₁ →
        m₁.act .takeRequest =
          { m₁ with requests := rest₁, errands := m₁.errands ++ [.inspect t₁] }) ∧
      ∀ b rest₁, m₁.events = .runningState b t :: rest₁ →
        let m₂ := m₁.act .takeEvent
        m₂.replies = (t, .snapshot m₂.engine.published) :: m₁.replies ∧
        ∀ after, Along (Hears b) m₂ after →
          let m₃ := m₂.actAll after
          (∀ t₂ rest₂, m₃.events = .runningState b t₂ :: rest₂ →
            m₃.act .takeEvent =
              { m₃ with
                events := rest₂
                outputs :=
                  (m₃.around.now, .reply t₂ (.snapshot m₃.engine.published)) :: m₃.outputs }) ∧
          (Along (Uneventful b) m₂ after →
            m₃.engine.published = m₂.engine.published ∧ m₃.announcements = m₂.announcements) := by
  obtain ⟨hm, hsettings⟩ := regular_actAll_start settings around daemonRuns before
  have hfollows := @follows_actAll _ before (keeps_start settings around daemonRuns)
  generalize (start settings around daemonRuns).actAll before = m at hm hsettings hfollows
  subst hsettings
  intro _ refreshed hrun haccepts hrequests
  have hkeeps : m.tailer.Keeps m.settings.paths.log := (hfollows hrun).1
  have hdisk : refreshed.around.disk = m.around.disk := disk_act_of_refresh hrequests
  have hregular : refreshed.Regular := hm.act .takeRequest
  have hr : refreshed.Refreshed := hm.refreshed_act_of_refresh hrun haccepts hrequests
  have hsettings : refreshed.settings = m.settings := settings_act m .takeRequest
  have hapart' : refreshed.settings.paths.SourcesApart := by rwa [hsettings]
  have hkeeps' (hrun' : refreshed.running) : refreshed.tailer.Keeps refreshed.settings.paths.log :=
    keeps_act hkeeps hrun'
  refine ⟨fun later hlater => ⟨fun source hthere => ?_, fun hthere => ?_⟩,
    fun between hbetween hrun₁ => ?_⟩
  · rw [Surroundings.file?, ← hsettings, ← hdisk] at hthere
    refine (hregular.actAll later).watchesOver ?_ hlater
      (hregular.exists_watch?_actAll hapart' hlater (hr.watched source hthere))
    rwa [settings_actAll]
  · rw [← hsettings, ← hdisk] at hthere
    obtain ⟨hkeepsLater, htails⟩ :=
      follows_actAll (hkeeps' (running_of_running_actAll hlater)) hlater
    have hpath := hkeepsLater.path?_eq (htails (hr.tailed hthere))
    rwa [settings_actAll, hsettings] at hpath
  · intro m₁
    have hm₁ : m₁.Regular := hregular.actAll between
    have hr₁ : m₁.Refreshed := hr.actAll hregular hapart' hrun₁ hbetween
    have hapart₁ : m₁.settings.paths.SourcesApart := by rwa [settings_actAll]
    have hkeeps₁ : m₁.tailer.Keeps m₁.settings.paths.log :=
      (follows_actAll (hkeeps' (running_of_running_actAll hrun₁)) hrun₁).1
    refine ⟨fun t₁ rest₁ hrequests₁ => hr₁.takeRequest_eq hm₁ hrun₁ hkeeps₁ hrequests₁,
      fun b rest₁ hevents₁ => ?_⟩
    intro m₂
    have hb : m₂.engine.daemonRunning = b := by
      rw [daemonRunning_act, heard?, hevents₁]
      rfl
    have hm₂ : m₂.Regular := hm₁.act .takeEvent
    refine ⟨replies_takeEvent_of_runningState hevents₁, fun after hears => ?_⟩
    intro m₃
    refine ⟨fun t₂ rest₂ hevents₃ =>
      (hm₂.actAll after).takeEvent_eq (daemonRunning_actAll hb hears) hevents₃, fun hidle => ?_⟩
    have hledger := ledger_takeEvent_of_runningState hevents₁
    have hdisk₂ : m₂.around.disk = m₁.around.disk := congrArg Ledger.disk hledger
    have hrun₂ : m₂.running := (congrArg Ledger.running hledger).trans hrun₁
    have hdisplay : m₃.display = m₂.display :=
      (hr₁.act hm₁ hapart₁ hrun₂ hdisk₂).display_actAll hm₂ (by rwa [settings_act])
        (keeps_act hkeeps₁ hrun₂) hb hidle
    exact ⟨congrArg Prod.fst hdisplay, congrArg Prod.snd hdisplay⟩

/-- Surroundings with a policy file and a log in which nothing has been written yet. -/
def emptyFiles : Surroundings :=
  { Surroundings.emptyDir "/p" with
    disk := ((Surroundings.emptyDir "/p").disk.applyAll
      [.write "/p/es_policy.json" [], .write "/p/codex-es-guard.log" []]).1 }

/-- The answer whether the daemon runs, and the request that it belongs to. -/
def nextAnswer? (m : Monitor) : Option (Bool × Ticket) :=
  match m.events with
  | .runningState b t :: _ => some (b, t)
  | _ => none

theorem events_eq_of_nextAnswer? (h : m.nextAnswer? = some (b, t)) :
    ∃ rest, m.events = .runningState b t :: rest := by
  unfold nextAnswer? at h
  split at h
  · next b' t' rest hevents =>
    obtain ⟨rfl, rfl⟩ := Prod.mk.inj (Option.some.inj h)
    exact ⟨rest, hevents⟩
  · cases h

/-- Two refreshes of a monitor that finds out by the first one that the daemon runs. -/
theorem refreshed_twice :
    let asked := (start (.ofPaths (.inDir "/p")) emptyFiles false).actAll [.send .refresh]
    let m₁ := (asked.act .takeRequest).actAll [.finish 0 (.running true)]
    let m₂ := m₁.act .takeEvent
    let m₃ := m₂.actAll [.send .refresh, .takeRequest, .finish 0 (.running true)]
    m₂.WatchesOver .policy ∧ m₂.tailer.path? = some "/p/codex-es-guard.log" ∧
      m₂.replies = (0, .snapshot m₂.engine.published) :: m₁.replies ∧
      m₃.announcements = m₂.announcements ∧
      (m₃.act .takeEvent).replies = (1, .snapshot m₂.engine.published) :: m₃.replies := by
  have hfacts :
      let asked := (start (.ofPaths (.inDir "/p")) emptyFiles false).actAll [.send .refresh]
      let m₁ := (asked.act .takeRequest).actAll [.finish 0 (.running true)]
      let m₂ := m₁.act .takeEvent
      let m₃ := m₂.actAll [.send .refresh, .takeRequest, .finish 0 (.running true)]
      (asked.running ∧ asked.around.refusesWatches = false ∧ asked.requests = [(0, .refresh)] ∧
        (asked.around.file? (Source.policy.path (MonitorPaths.inDir "/p"))).isSome ∧
        (asked.around.disk.entry "/p/codex-es-guard.log").isOk) ∧
      (m₁.running ∧ (asked.act .takeRequest).KeepsDisk (.finish 0 (.running true)) ∧
        m₁.nextAnswer? = some (true, 0)) ∧
      m₂.running ∧
      Along (Hears true) m₂ [.send .refresh, .takeRequest, .finish 0 (.running true)] ∧
      Along (Uneventful true) m₂ [.send .refresh, .takeRequest, .finish 0 (.running true)] ∧
      m₃.nextAnswer? = some (true, 1) := by
    decide +kernel
  have hresult := second_refresh_changes_nothing (.ofPaths (.inDir "/p")) emptyFiles false
    sourcesApart_inDir [.send .refresh] 0 []
  generalize (start (.ofPaths (.inDir "/p")) emptyFiles false).actAll [.send .refresh] = asked
    at hfacts hresult ⊢
  obtain ⟨⟨hrun, haccepts, hrequests, hpolicy, hlog⟩, ⟨hrun₁, hdisk, hnext₁⟩, hrun₂, hears, hidle,
    hnext₃⟩ := hfacts
  obtain ⟨rest₁, hevents₁⟩ := events_eq_of_nextAnswer? hnext₁
  obtain ⟨rest₃, hevents₃⟩ := events_eq_of_nextAnswer? hnext₃
  obtain ⟨hcovered, hidempotent⟩ := hresult hrun haccepts hrequests
  obtain ⟨hwatches, htails⟩ := hcovered [.finish 0 (.running true), .takeEvent] hrun₂
  have hlogPath : (Settings.ofPaths (.inDir "/p")).paths.log = "/p/codex-es-guard.log" := by decide
  rw [hlogPath] at htails
  obtain ⟨-, hanswered⟩ := hidempotent [.finish 0 (.running true)] ⟨hdisk, trivial⟩ hrun₁
  obtain ⟨hreplies, hlater⟩ := hanswered true rest₁ hevents₁
  obtain ⟨hanswer, hsame⟩ := hlater [.send .refresh, .takeRequest, .finish 0 (.running true)] hears
  obtain ⟨hpublished, htold⟩ := hsame hidle
  refine ⟨hwatches .policy hpolicy, htails hlog, hreplies, htold, ?_⟩
  rw [← hpublished]
  exact congrArg replies (hanswer 1 rest₃ hevents₃)

/-- A user asks for a refresh, and it is answered when it is known whether the daemon runs. -/
def askedToRefresh (b : Bool) : List Action :=
  [.send .refresh, .takeRequest, .finish 0 (.running b), .takeEvent]

/-- A line is written to the log, and its reader is told. -/
def lineWritten : List Action :=
  [.change (.append "/p/codex-es-guard.log" (Utf8.encode "late\n")),
    .signal "/p/codex-es-guard.log" (.notice (.modified .content))]

/-- The reader takes its wake-up and reads, and what it has read is taken. -/
def lineTaken : List Action :=
  [.runReader 0, .runReader 0, .takeEvent]

/-- The snapshot with which a request was answered. -/
def snapshotFor (m : Monitor) (t : Ticket) : Option Snapshot :=
  m.replies.findSome? fun x =>
    match x with
    | (t', .snapshot s) => if t' = t then some s else none
    | _ => none

/-- Whether a timer fires in an action, or its firing is taken. -/
def expires (m : Monitor) : Action → Bool
  | .fireExpiry _ | .fireOutcome _ => true
  | .takeEvent => m.events.head?.any Event.isExpiry
  | _ => false

/-- An action changes no file, no timer fires in it, and nothing is heard of the daemon but `b`. -/
def Calm (b : Bool) (m : Monitor) (a : Action) : Prop :=
  m.KeepsDisk a ∧ m.expires a = false ∧ Hears b m a

instance (b : Bool) (m : Monitor) (a : Action) : Decidable (Calm b m a) :=
  inferInstanceAs (Decidable (_ ∧ _ ∧ _))

/-- The snapshots of two refreshes may differ though no file changes in between, no timer fires, and the
daemon is said to run or not to run both times: a line of the log that was written before the first
refresh, and of which the reader was told, may be read after it. -/
theorem refreshes_may_differ :
    ¬ ∀ (settings : Settings) (around : Surroundings) (daemonRuns : Bool)
      (before between : List Action) (b : Bool) (s s' : Snapshot),
      let m := (start settings around daemonRuns).actAll before
      let m₁ := m.actAll (askedToRefresh b)
      let m₂ := m₁.actAll between
      settings.paths.SourcesApart → m.running → m.around.refusesWatches = false →
      m₁.snapshotFor m.sent = some s → Along (Calm b) m₁ between →
      (m₂.actAll (askedToRefresh b)).snapshotFor m₂.sent = some s' → s' = s := by
  intro h
  have hfacts :
      let m := (start (.ofPaths (.inDir "/p")) emptyFiles false).actAll lineWritten
      let m₁ := m.actAll (askedToRefresh false)
      let m₂ := m₁.actAll lineTaken
      m.running ∧ m.around.refusesWatches = false ∧
      (m₁.snapshotFor m.sent).map (·.logLinesReceived) = some 0 ∧ Along (Calm false) m₁ lineTaken ∧
      ((m₂.actAll (askedToRefresh false)).snapshotFor m₂.sent).map (·.logLinesReceived) = some 1 := by
    decide +kernel
  obtain ⟨hrun, haccepts, hfirst, hcalm, hsecond⟩ := hfacts
  obtain ⟨s, hs, hnone⟩ := Option.map_eq_some_iff.mp hfirst
  obtain ⟨s', hs', hone⟩ := Option.map_eq_some_iff.mp hsecond
  have hsame := h (.ofPaths (.inDir "/p")) emptyFiles false lineWritten lineTaken false s s'
    sourcesApart_inDir hrun haccepts hs hcalm hs'
  rw [hsame, hnone] at hone
  cases hone

end Monitor

end DenialMonitor
