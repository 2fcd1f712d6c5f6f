import DenialMonitor.Proofs.LogTail.Wakeups
import DenialMonitor.Proofs.View.Loading

set_option autoImplicit false

/-!
# The log that a monitor follows

A monitor follows one log only, that of its settings. It starts to follow the log when it is started
or refreshed and does not follow it already, and gives it up when it ends. A reader that was not asked
to stop goes on reading, whatever becomes of the log meanwhile.

## Main definitions

* `LogTailer.Keeps` — every reader is one of the given log, and has not ended.
* `Monitor.TailerGoes` — what an action can do to the tailer.

## Main results

* `LogTailer.isTailing_start` — a log is followed if it can be opened.
* `Monitor.tailerGoes_act` — what an action of a monitor that runs does to its tailer.
* `Monitor.keeps_start`, `Monitor.follows_actAll` — the tailer of a monitor reads its log and no other,
  and a log that is followed is followed as long as the monitor runs.
-/

namespace DenialMonitor

open FollowedLog (cancelled_deliver cancelled_step)

/-! ## Readers -/

namespace LogReader

@[simp]
theorem path_deliver (r : LogReader) (path : String) (s : Signal) :
    (r.deliver path s).cursor.path = r.cursor.path := by
  unfold deliver wake
  repeat' split
  all_goals rfl

@[simp]
theorem path_step (r : LogReader) (s : Surroundings) : (r.step s).2.cursor.path = r.cursor.path := by
  unfold step
  split
  · exact TailCursor.path_poll _ _
  · split
    · rfl
    · unfold takeWakeUp?
      repeat' split
      all_goals rfl

/-- A reader that is opened is one of the log, and was not asked to stop. -/
theorem openAt_eq_ok {path : String} {s : Surroundings} {interval : Nat} {r : LogReader}
    (h : openAt path s interval = .ok r) : r.cursor.path = path ∧ r.cancelled = false := by
  unfold openAt TailCursor.atEnd at h
  cases he : s.disk.entry path with
  | error e =>
    rw [he] at h
    cases h
  | ok e =>
    rw [he] at h
    obtain rfl := Except.ok.inj h
    exact ⟨rfl, rfl⟩

/-- A log can be opened if there is something at its path. -/
theorem isOk_openAt (path : String) (s : Surroundings) (interval : Nat) :
    (openAt path s interval).isOk = (s.disk.entry path).isOk := by
  unfold openAt TailCursor.atEnd
  cases s.disk.entry path <;> rfl

end LogReader

/-! ## Tailers -/

namespace LogTailer

variable {t : LogTailer} {path : String}

/-- Every reader is one of the given log, and has not ended. -/
structure Keeps (t : LogTailer) (path : String) : Prop where
  path_eq : ∀ r ∈ t.readers, r.cursor.path = path
  not_ended : ∀ r ∈ t.readers, r.hasEnded = false

theorem keeps_new (interval : Nat) (path : String) : (LogTailer.new interval).Keeps path :=
  ⟨by simp [new], by simp [new]⟩

theorem Keeps.stop (h : t.Keeps path) : t.stop.Keeps path := by
  refine ⟨fun r hr => ?_, fun r hr => ?_⟩ <;> obtain ⟨hr, hended⟩ := List.mem_filter.mp hr
  · obtain ⟨r₀, hr₀, rfl⟩ := List.mem_map.mp hr
    exact h.path_eq r₀ hr₀
  · simpa using hended

theorem Keeps.start (h : t.Keeps path) (s : Surroundings) : (t.start path s).2.Keeps path := by
  unfold LogTailer.start
  split
  · exact h.stop
  · next reader hopened =>
    obtain ⟨hpath, hcancelled⟩ := LogReader.openAt_eq_ok hopened
    refine ⟨fun r hr => ?_, fun r hr => ?_⟩ <;>
      rcases List.mem_append.mp hr with hr | hr
    · exact h.stop.path_eq r hr
    · rw [List.mem_singleton.mp hr, hpath]
    · exact h.stop.not_ended r hr
    · rw [List.mem_singleton.mp hr, LogReader.hasEnded, hcancelled, Bool.false_and]

theorem Keeps.deliver (h : t.Keeps path) (about : String) (s : Signal) :
    (t.deliver about s).Keeps path := by
  refine ⟨fun r hr => ?_, fun r hr => ?_⟩ <;> obtain ⟨r₀, hr₀, rfl⟩ := List.mem_map.mp hr
  · rw [LogReader.path_deliver, h.path_eq r₀ hr₀]
  · rw [LogReader.hasEnded_deliver, h.not_ended r₀ hr₀]

theorem Keeps.run (h : t.Keeps path) (s : Surroundings) (i : Nat) : (t.run s i).2.Keeps path := by
  unfold LogTailer.run
  split
  · exact h
  · next reader hreader =>
    refine ⟨fun r hr => ?_, fun r hr => ?_⟩ <;> obtain ⟨hr, hended⟩ := List.mem_filter.mp hr
    · rcases List.mem_or_eq_of_mem_set hr with hr | rfl
      · exact h.path_eq r hr
      · rw [LogReader.path_step, h.path_eq reader (List.mem_of_getElem? hreader)]
    · simpa using hended

/-- A log is followed if some reader was not asked to stop. -/
theorem isTailing_iff : t.isTailing ↔ ∃ r ∈ t.readers, r.cancelled = false := by
  simp [isTailing, active?, List.find?_isSome]

/-- The log that is followed is the one that the readers read. -/
theorem Keeps.path?_eq (h : t.Keeps path) (htailing : t.isTailing) : t.path? = some path := by
  obtain ⟨r, hr⟩ := Option.isSome_iff_exists.mp htailing
  rw [path?, hr, Option.map_some, h.path_eq r (List.mem_of_find?_eq_some hr)]

theorem isTailing_deliver (h : t.isTailing) (about : String) (s : Signal) :
    (t.deliver about s).isTailing := by
  obtain ⟨r, hr, hcancelled⟩ := isTailing_iff.mp h
  exact isTailing_iff.mpr
    ⟨r.deliver about s, List.mem_map.mpr ⟨r, hr, rfl⟩, by rw [cancelled_deliver, hcancelled]⟩

theorem isTailing_run (h : t.isTailing) (s : Surroundings) (i : Nat) : (t.run s i).2.isTailing := by
  obtain ⟨r, hr, hcancelled⟩ := isTailing_iff.mp h
  unfold run
  split
  · exact h
  · next reader hreader =>
    -- the reader itself, or what has become of it if it was the one that ran
    obtain ⟨r', hr', hcancelled'⟩ :
        ∃ r' ∈ t.readers.set i (reader.step s).2, r'.cancelled = false := by
      obtain ⟨k, hk⟩ := List.mem_iff_getElem?.mp hr
      by_cases hki : i = k
      · subst hki
        obtain rfl : reader = r := Option.some.inj (hreader.symm.trans hk)
        have hi := (List.getElem?_eq_some_iff.mp hreader).1
        exact ⟨_, List.mem_set hi _, by rw [cancelled_step, hcancelled]⟩
      · exact ⟨r, List.mem_of_getElem? (i := k) (by rw [List.getElem?_set_ne hki, hk]), hcancelled⟩
    refine isTailing_iff.mpr ⟨r', List.mem_filter.mpr ⟨hr', ?_⟩, hcancelled'⟩
    rw [LogReader.hasEnded, hcancelled', Bool.false_and, Bool.not_false]

/-- Where no log is followed there is nothing to give up. -/
theorem Keeps.stop_eq (h : t.Keeps path) (hidle : ¬ t.isTailing) : t.stop = t := by
  have hcancelled : ∀ r ∈ t.readers, r.cancelled = true := fun r hr => by
    by_contra hnot
    exact hidle (isTailing_iff.mpr ⟨r, hr, by simpa using hnot⟩)
  have hmap : t.readers.map LogReader.cancel = t.readers := by
    refine (List.map_congr_left fun r hr => ?_).trans (List.map_id t.readers)
    rw [LogReader.cancel, ← hcancelled r hr, id]
  have hfilter : t.readers.filter (!·.hasEnded) = t.readers := by
    rw [List.filter_eq_self]
    intro r hr
    simp [h.not_ended r hr]
  rw [LogTailer.stop, hmap, hfilter]

/-- A log that can be opened is followed. -/
theorem isTailing_start {s : Surroundings} (hthere : (s.disk.entry path).isOk) (t : LogTailer) :
    (t.start path s).2.isTailing := by
  rw [← LogReader.isOk_openAt path s t.interval] at hthere
  unfold start
  split
  · next hfailed => simp [hfailed, Except.isOk, Except.toBool] at hthere
  · next reader hopened =>
    exact isTailing_iff.mpr ⟨reader, by simp, (LogReader.openAt_eq_ok hopened).2⟩

/-- Where no log is followed, one that cannot be opened changes nothing. -/
theorem Keeps.start_eq (h : t.Keeps path) (hidle : ¬ t.isTailing) {s : Surroundings}
    (hmissing : ¬ (s.disk.entry path).isOk) : (t.start path s).2 = t := by
  rw [← LogReader.isOk_openAt path s t.interval] at hmissing
  unfold LogTailer.start
  split
  · exact h.stop_eq hidle
  · next reader hopened => simp [hopened, Except.isOk, Except.toBool] at hmissing

end LogTailer

/-! ## The tailer of a monitor -/

namespace Monitor

/-- What an action can do to the tailer of a monitor that runs. -/
inductive TailerGoes (m : Monitor) : LogTailer → Prop where
  | stays : TailerGoes m m.tailer
  /-- The readers hear a signal. -/
  | hears (path : String) (s : Signal) : TailerGoes m (m.tailer.deliver path s)
  /-- A reader gets to run. -/
  | runs (i : Nat) : TailerGoes m (m.tailer.run m.around i).2
  /-- The log is followed from now on, if it can be opened. -/
  | starts (idle : ¬ m.tailer.isTailing) :
    TailerGoes m (m.tailer.start m.settings.paths.log m.around).2

variable {m : Monitor} {a : Action}

@[simp]
theorem tailer_answer (m : Monitor) (t : Ticket) (r : Reply) : (m.answer t r).tailer = m.tailer :=
  rfl

@[simp]
theorem tailer_publish (m : Monitor) : m.publish.tailer = m.tailer := by
  unfold publish
  split <;> rfl

@[simp]
theorem tailer_report (m : Monitor) (o : Outcome) : (m.report o).tailer = m.tailer := by
  simp only [report, tailer_publish]
  rfl

@[simp]
theorem tailer_conclude (m : Monitor) (t : Ticket) (o : Outcome) :
    (m.conclude t o).tailer = m.tailer :=
  tailer_report m o

@[simp]
theorem tailer_adopt {α : Type} (m : Monitor) (e : PolicyStore.Edit α) :
    (m.adopt e).tailer = m.tailer :=
  rfl

@[simp]
theorem tailer_scheduleExpiry (m : Monitor) (path : String) :
    (m.scheduleExpiry path).tailer = m.tailer := by
  unfold scheduleExpiry
  split <;> rfl

@[simp]
theorem tailer_reload (m : Monitor) (source : Source) : (m.reload source).tailer = m.tailer := by
  cases source with
  | denials =>
    simp only [reload]
    split <;> rfl
  | _ => rfl

@[simp]
theorem tailer_register (m : Monitor) (source : Source) : (m.register source).tailer = m.tailer := by
  simp only [register]
  split <;> rfl

@[simp]
theorem tailer_post (m : Monitor) (e : Event) : (m.post e).tailer = m.tailer := by
  unfold post
  split <;> rfl

/-- A refresh has the log followed. -/
theorem tailer_refresh (m : Monitor) (t : Ticket) :
    (m.refresh t).tailer =
      if m.tailer.isTailing then m.tailer
      else (m.tailer.start m.settings.paths.log m.around).2 := by
  have hrefresh : (m.refresh t).tailer = (m.reloadAll.registerAll.followLog.publish).tailer := by
    simp only [refresh]
  have hbefore : m.reloadAll.registerAll.tailer = m.tailer := by
    simp [reloadAll, registerAll, Source.all]
  have hsettings : m.reloadAll.registerAll.settings = m.settings := by
    simp only [reloadAll, registerAll, Source.all, List.foldl_cons, List.foldl_nil, settings_register,
      settings_reload]
  have haround : m.reloadAll.registerAll.around = m.around := by
    simp only [reloadAll, registerAll, Source.all, List.foldl_cons, List.foldl_nil, around_register,
      around_reload]
  rw [hrefresh, tailer_publish, followLog, hbefore, hsettings, haround]
  split
  · exact hbefore
  · rfl

/-- Other requests leave the tailer alone, as long as the monitor runs. -/
theorem tailer_handleRequest (m : Monitor) (t : Ticket) {r : Request} (hrefresh : r ≠ .refresh)
    (hshutdown : r ≠ .shutdown) : (m.handleRequest t r).tailer = m.tailer := by
  cases r with
  | refresh => exact absurd rfl hrefresh
  | acknowledge =>
    simp only [handleRequest, acknowledge]
    split
    · rfl
    · rw [tailer_answer, tailer_publish]
      simp only [update]
  | requestOverride text =>
    simp only [handleRequest, requestOverride, applyOverride]
    repeat' split
    all_goals first | rfl | simp
  | removeOverride text =>
    simp only [handleRequest, removeOverride]
    split <;> rw [tailer_conclude] <;> rfl
  | clearOverrides =>
    simp only [handleRequest, clearOverrides]
    split <;> rw [tailer_conclude] <;> rfl
  | restartDaemon => rfl
  | shutdown => exact absurd rfl hshutdown

theorem tailer_handleEvent (m : Monitor) (e : Event) : (m.handleEvent e).tailer = m.tailer := by
  cases e with
  | changed source => rw [handleEvent, tailer_publish, tailer_reload]
  | logLines lines =>
    rw [handleEvent, tailer_publish]
    simp only [update]
  | runningState running t =>
    simp only [handleEvent, tailer_answer, tailer_publish]
    rfl
  | overrideExpired path generation =>
    simp only [handleEvent, expireOverride]
    split
    · rfl
    · split
      · exact tailer_report ..
      · rfl
      · exact tailer_report ..
  | outcomeExpired generation =>
    simp only [handleEvent]
    split
    · rfl
    · exact tailer_publish _
  | helperFinished path result t =>
    simp only [handleEvent, helperFinished]
    split
    · rw [tailer_conclude, tailer_scheduleExpiry, tailer_reload]
    · exact tailer_conclude ..
  | restartFinished result running t => exact tailer_conclude ..

theorem tailerGoes_takeRequest (hclose : m.deed .takeRequest ≠ .close) :
    m.TailerGoes (m.act .takeRequest).tailer := by
  cases hrequests : m.requests with
  | nil =>
    simp only [act, takeRequest, hrequests]
    exact .stays
  | cons x rest =>
    obtain ⟨t, r⟩ := x
    simp only [act, takeRequest, hrequests]
    by_cases hrefresh : r = .refresh
    · subst hrefresh
      rw [handleRequest, tailer_refresh]
      split
      · exact .stays
      · next hidle => exact .starts hidle
    · have hshutdown : r ≠ .shutdown := by
        rintro rfl
        simp [deed, hrequests, requestDeed] at hclose
      rw [tailer_handleRequest _ t hrefresh hshutdown]
      exact .stays

/-- What an action of a monitor that runs does to its tailer. -/
theorem tailerGoes_act (hrun : (m.act a).running) : m.TailerGoes (m.act a).tailer := by
  obtain ⟨-, hclose⟩ := deed_ne_close hrun
  cases a with
  | signal path s => exact .hears path s
  | send r =>
    simp only [act, send]
    split <;> exact .stays
  | finish i answer =>
    simp only [act, finishErrand]
    split
    · exact .stays
    · split
      · rw [tailer_post]
        exact .stays
      · exact .stays
  | runWatch i eager =>
    simp only [act, runWatch]
    split
    · exact .stays
    · rw [tailer_post]
      exact .stays
  | runReader i =>
    simp only [act, runReader]
    split
    · exact .runs i
    · rw [tailer_post]
      exact .runs i
  | fireExpiry generation =>
    simp only [act, fireExpiry]
    split
    · exact .stays
    · rw [tailer_post]
      exact .stays
  | fireOutcome generation =>
    simp only [act, fireOutcome]
    split
    · exact .stays
    · rw [tailer_post]
      exact .stays
  | endWait i =>
    simp only [act, endWait]
    split
    · split <;> exact .stays
    · exact .stays
  | takeRequest => exact tailerGoes_takeRequest hclose
  | takeEvent =>
    simp only [act, takeEvent]
    split
    · exact .stays
    · rw [tailer_handleEvent]
      exact .stays
  | retire =>
    simp only [deed] at hclose
    split at hclose
    · exact absurd rfl hclose
    · next hretire =>
      simp only [act, hretire]
      exact .stays
  | _ => exact .stays

/-- The tailer goes on to read the log of the monitor and no other. -/
theorem keeps_act (h : m.tailer.Keeps m.settings.paths.log) (hrun : (m.act a).running) :
    (m.act a).tailer.Keeps (m.act a).settings.paths.log := by
  have hgoes := tailerGoes_act hrun
  rw [settings_act]
  generalize (m.act a).tailer = t at hgoes
  cases hgoes with
  | stays => exact h
  | hears path s => exact h.deliver path s
  | runs i => exact h.run m.around i
  | starts idle => exact h.start m.around

/-- A log that is followed is followed as long as the monitor runs. -/
theorem isTailing_act (h : m.tailer.isTailing) (hrun : (m.act a).running) :
    (m.act a).tailer.isTailing := by
  have hgoes := tailerGoes_act hrun
  generalize (m.act a).tailer = t at hgoes
  cases hgoes with
  | stays => exact h
  | hears path s => exact LogTailer.isTailing_deliver h path s
  | runs i => exact LogTailer.isTailing_run h m.around i
  | starts idle => exact absurd h idle

/-- The tailer of a monitor reads its log and no other, and a log that is followed is followed as long
as the monitor runs. -/
theorem follows_actAll {actions : List Action} (h : m.tailer.Keeps m.settings.paths.log)
    (hrun : (m.actAll actions).running) :
    (m.actAll actions).tailer.Keeps (m.actAll actions).settings.paths.log ∧
      (m.tailer.isTailing → (m.actAll actions).tailer.isTailing) := by
  induction actions generalizing m with
  | nil => exact ⟨h, fun htailing => htailing⟩
  | cons a actions ih =>
    have hrun' : (m.act a).running := running_of_running_actAll hrun
    obtain ⟨hkeeps, htails⟩ := ih (keeps_act h hrun') hrun
    exact ⟨hkeeps, fun htailing => htails (isTailing_act htailing hrun')⟩

theorem keeps_startStep (h : m.tailer.Keeps m.settings.paths.log) (step : StartStep) :
    (m.startStep step).tailer.Keeps (m.startStep step).settings.paths.log := by
  cases step with
  | loadAcknowledgement => exact h
  | reload source => rwa [startStep, tailer_reload, settings_reload]
  | noteRunning running => exact h
  | registerWatches =>
    simp only [startStep, registerAll, Source.all, List.foldl_cons, List.foldl_nil, tailer_register,
      settings_register]
    exact h
  | followLog =>
    simp only [startStep, followLog]
    split
    · exact h
    · exact h.start m.around
  | publish =>
    have hsettings : m.publish.settings = m.settings := congrArg Ledger.settings (ledger_publish m)
    rwa [startStep, tailer_publish, hsettings]

theorem keeps_start (settings : Settings) (around : Surroundings) (daemonRuns : Bool) :
    (start settings around daemonRuns).tailer.Keeps
      (start settings around daemonRuns).settings.paths.log := by
  have hsteps (steps : List StartStep) (m : Monitor) (h : m.tailer.Keeps m.settings.paths.log) :
      (steps.foldl startStep m).tailer.Keeps (steps.foldl startStep m).settings.paths.log := by
    induction steps generalizing m with
    | nil => exact h
    | cons step steps ih => exact ih _ (keeps_startStep h step)
  have hboot : (boot settings around).tailer.Keeps (boot settings around).settings.paths.log :=
    LogTailer.keeps_new settings.tailPollInterval settings.paths.log
  rw [start]
  exact hsteps (startSteps daemonRuns) _ hboot

end Monitor

end DenialMonitor
