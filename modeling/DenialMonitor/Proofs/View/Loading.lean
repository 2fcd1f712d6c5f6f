import DenialMonitor.Proofs.Monitor.Intake
import DenialMonitor.Proofs.Overrides.Agreement
import DenialMonitor.Proofs.View.Published

set_option autoImplicit false

/-!
# What is shown of a source

A monitor keeps in memory what it has loaded of its sources last, and shows it in its snapshot. What
it keeps of a source changes when the source is loaded anew; the policy is also edited, but an edit
that leaves the file as it is leaves a policy alone that is the one of the file. A source is loaded
when its change is taken from the queue or the user asks for a refresh, and the policy also when the
helper has come to its end.

## Main definitions

* `Engine.Holds`, `Snapshot.Shows` — what is kept, or shown, of a source is what its content says.
* `Monitor.Reads` — an action loads a source.
* `Monitor.Regular` — what holds all along in a run from the start.

## Main results

* `Monitor.Regular.shows_of_holds` — what is kept is shown.
* `Monitor.Regular.holds_act_of_reads`, `Monitor.Regular.holds_act` — what is kept is what the file
  says after the source was loaded, and as long as the file stays as it is.
* `Monitor.Regular.watch?_act`, `Monitor.Regular.fires_of_changed_mem` — what an action does to the
  watch of a source, and what a change in the queue says of it.
-/

namespace DenialMonitor

/-- The records of the denial log with the given content, `none` if it cannot be read. -/
def DenialLog.recordsOf (content : Option (List UInt8)) : List DenialRecord :=
  (content.map DenialLog.window).getD []

/-- What is kept of a source is what its content says. -/
def Engine.Holds (e : Engine) (content : Option (List UInt8)) : Source → Prop
  | .policy => e.policy.policy = SecurityPolicy.ofFile content
  | .denials => e.log.records = DenialLog.recordsOf content ∧
      e.log.stats = AgentStats.ofRecords (DenialLog.recordsOf content)
  | .lastDenial => e.lastDenial = DenialMonitor.lastDenial content

/-- What is shown of a source is what its content says. -/
def Snapshot.Shows (s : Snapshot) (content : Option (List UInt8)) : Source → Prop
  | .policy => s.policy.same (SecurityPolicy.ofFile content) = true
  | .denials => s.records = DenialLog.recordsOf content ∧
      s.agentStats = AgentStats.ofRecords (DenialLog.recordsOf content)
  | .lastDenial => s.lastDenial = DenialMonitor.lastDenial content

instance (s : Snapshot) (content : Option (List UInt8)) (source : Source) :
    Decidable (s.Shows content source) := by
  cases source <;> unfold Snapshot.Shows <;> infer_instance

/-- The paths of the sources say different things. -/
def MonitorPaths.SourcesApart (paths : MonitorPaths) : Prop :=
  ∀ source source' : Source, Path.same (source.path paths) (source'.path paths) → source = source'

/-- Loading the denial log keeps what its content says. -/
theorem DenialLog.reload_eq (log : DenialLog) (content : Option (List UInt8)) :
    (log.reload content).2.records = DenialLog.recordsOf content ∧
      (log.reload content).2.stats = AgentStats.ofRecords (DenialLog.recordsOf content) := by
  cases content with
  | none => exact ⟨rfl, by simp [DenialLog.reload, DenialLog.recordsOf]⟩
  | some bytes => exact ⟨rfl, rfl⟩

/-- Whether an event that is taken loads a source. -/
def Event.loads (source : Source) : Event → Bool
  | .changed other => other = source
  | .helperFinished _ (.ok _) _ => source = .policy
  | _ => false

namespace Monitor

variable {m : Monitor} {a : Action} {source : Source} {content : Option (List UInt8)}

/-- What the file of a source holds, if it can be read. -/
def content? (m : Monitor) (source : Source) : Option (List UInt8) :=
  m.around.disk.read? (source.path m.settings.paths)

/-- What is shown of a source is what the content says. -/
def Shows (m : Monitor) (source : Source) (content : Option (List UInt8)) : Prop :=
  m.engine.published.Shows content source

instance (m : Monitor) (source : Source) (content : Option (List UInt8)) :
    Decidable (m.Shows source content) :=
  inferInstanceAs (Decidable (Snapshot.Shows _ _ _))

/-- The live watch of a source. -/
def watch? (m : Monitor) (source : Source) : Option Watch :=
  m.watcher.find? (source.path m.settings.paths)

/-- An action loads a source. -/
def Reads (source : Source) (m : Monitor) : Action → Prop
  | .takeRequest => m.requests.head?.map (·.2) = some .refresh
  | .takeEvent => (m.events.head?.any (·.loads source)) = true
  | _ => False

instance (m : Monitor) : ∀ a, Decidable (Reads source m a)
  | .takeRequest => inferInstanceAs (Decidable (m.requests.head?.map (·.2) = some .refresh))
  | .takeEvent => inferInstanceAs (Decidable (m.events.head?.any (·.loads source) = true))
  | .change _ | .refuseWatches _ | .signal _ _ | .send _ | .release | .pass _ | .finish _ _
  | .runWatch _ _ | .runReader _ | .fireExpiry _ | .fireOutcome _ | .endWait _ | .retire =>
    inferInstanceAs (Decidable False)

/-! ## Loading -/

/-- The policy is loaded where the ledger says so. -/
theorem reads_policy_iff : Reads .policy m a ↔ m.Loads a := by
  unfold Loads
  cases a with
  | takeRequest =>
    simp only [Reads, deed]
    cases m.requests with
    | nil => simp [Deed.loads]
    | cons x rest =>
      obtain ⟨t, r⟩ := x
      cases r with
      | acknowledge =>
        simp only [requestDeed]
        split <;> simp [Deed.loads]
      | requestOverride text =>
        simp only [requestDeed]
        split <;> simp [Deed.loads]
      | _ => simp [requestDeed, Deed.loads]
  | takeEvent =>
    simp only [Reads, deed]
    cases m.events with
    | nil => simp [Deed.loads]
    | cons e rest =>
      cases e with
      | changed source => cases source <;> simp [Event.loads, eventDeed, Deed.loads]
      | overrideExpired path generation =>
        simp only [eventDeed]
        split <;> simp [Event.loads, Deed.loads]
      | helperFinished path result t => cases result <;> simp [Event.loads, eventDeed, Deed.loads]
      | _ => simp [Event.loads, eventDeed, Deed.loads]
  | retire =>
    simp only [Reads, deed]
    split <;> simp [Deed.loads]
  | _ => simp [Reads, deed, Deed.loads]

/-- An action that loads another source than the policy takes its change or is a refresh. -/
theorem intake_act_of_reads (hsource : source ≠ .policy) (hreads : Reads source m a) :
    (∃ rest, (m.act a).intake =
      { m.intake with events := rest }.load m.settings.paths m.around source) ∨
    (m.act a).intake = m.intake.refresh m.settings.paths m.around := by
  cases a with
  | takeRequest =>
    obtain ⟨⟨t, r⟩, hhead, rfl⟩ := Option.map_eq_some_iff.mp hreads
    obtain ⟨rest, hrequests⟩ := List.head?_eq_some_iff.mp hhead
    exact .inr (intake_takeRequest_of_refresh hrequests)
  | takeEvent =>
    obtain ⟨e, hhead, hloads⟩ := (Option.any_eq_true _ _).mp hreads
    obtain ⟨rest, hevents⟩ := List.head?_eq_some_iff.mp hhead
    cases e with
    | changed other =>
      obtain rfl : other = source := by simpa [Event.loads] using hloads
      exact .inl ⟨rest, intake_takeEvent_of_changed hevents⟩
    | helperFinished path result t => cases result <;> simp [Event.loads, hsource] at hloads
    | _ => simp [Event.loads] at hloads
  | _ => exact hreads.elim

/-- What was loaded of the other sources stays unless they are loaded again. -/
theorem loaded_act_of_not_reads (hrun : (m.act a).running) :
    (¬ Reads .denials m a → (m.act a).engine.log = m.engine.log) ∧
      (¬ Reads .lastDenial m a → (m.act a).engine.lastDenial = m.engine.lastDenial) := by
  have hturn := turn_act hrun
  have hlog : (m.act a).engine.log = (m.act a).intake.log := rfl
  have hlast : (m.act a).engine.lastDenial = (m.act a).intake.lastDenial := rfl
  rw [hlog, hlast]
  generalize (m.act a).intake = i at hturn
  cases hturn with
  | load source rest h =>
    cases source <;> simp [Reads, h, Event.loads, Intake.load, intake]
  | refresh t rest h => simp [Reads, h]
  | _ => exact ⟨fun _ => rfl, fun _ => rfl⟩

/-! ## What holds all along -/

/-- What holds all along in a run from the start. -/
structure Regular (m : Monitor) : Prop where
  tidy : m.engine.policy.policy.Tidy
  path_eq : m.engine.policy.path = m.settings.paths.policy
  upToDate : m.engine.UpToDate
  live : m.running → m.watcher.Live fun source => source.path m.settings.paths

theorem settings_act (m : Monitor) (a : Action) : (m.act a).settings = m.settings := by
  have hsettings := Ledger.settings_perform m.ledger (m.deed a)
  rw [← ledger_act] at hsettings
  exact hsettings

theorem running_of_running_act (hrun : (m.act a).running) : m.running :=
  (deed_ne_close hrun).1

theorem live_register {i : Intake} {paths : MonitorPaths} {around : Surroundings}
    (h : i.watcher.Live fun source => source.path paths) (source : Source) :
    (i.register paths around source).watcher.Live fun source => source.path paths := by
  unfold Intake.register
  split
  · exact h
  · next hactive => exact h.watch hactive around

theorem live_refresh {i : Intake} {paths : MonitorPaths} {around : Surroundings}
    (h : i.watcher.Live fun source => source.path paths) :
    (i.refresh paths around).watcher.Live fun source => source.path paths := by
  simp only [Intake.refresh, Source.all, List.foldl_cons, List.foldl_nil]
  refine live_register (live_register (live_register ?_ _) _) _
  simp only [Intake.watcher_load]
  exact h

/-- What holds all along is kept by every action. -/
theorem Regular.act (h : m.Regular) (a : Action) : (m.act a).Regular := by
  have hallow := allows_deed m a
  have htidy := Ledger.tidy_perform h.tidy hallow
  have hpath := Ledger.path_perform hallow
  rw [← ledger_act] at htidy hpath
  refine ⟨htidy, ?_, upToDate_act h.upToDate a, fun hrun => ?_⟩
  · rw [settings_act, ← h.path_eq]
    exact hpath
  · have hlive := h.live (running_of_running_act hrun)
    have hturn := turn_act hrun
    rw [settings_act]
    show (m.act a).intake.watcher.Live _
    generalize (m.act a).intake = i at hturn
    cases hturn with
    | signal path s => exact hlive.deliver path s
    | runWatch i eager => exact hlive.run m.around i eager
    | load source rest h =>
      rw [Intake.watcher_load]
      exact hlive
    | refresh t rest h => exact live_refresh hlive
    | _ => exact hlive

theorem Regular.actAll (h : m.Regular) (actions : List Action) : (m.actAll actions).Regular := by
  induction actions generalizing m with
  | nil => exact h
  | cons a actions ih => exact ih (h.act a)

theorem live_startStep (h : m.watcher.Live fun source => source.path m.settings.paths)
    (step : StartStep) :
    (m.startStep step).watcher.Live fun source => source.path (m.startStep step).settings.paths := by
  cases step with
  | loadAcknowledgement => exact h
  | reload source =>
    show (m.reload source).intake.watcher.Live fun s => s.path (m.reload source).settings.paths
    rw [settings_reload, intake_reload, Intake.watcher_load]
    exact h
  | noteRunning running => exact h
  | registerWatches =>
    show m.registerAll.intake.watcher.Live fun s => s.path m.registerAll.settings.paths
    simp only [registerAll, Source.all, List.foldl_cons, List.foldl_nil, intake_register,
      settings_register, around_register]
    exact live_register (live_register (live_register h _) _) _
  | followLog =>
    have hsettings : m.followLog.settings = m.settings := congrArg (·.settings) (ledger_followLog m)
    show m.followLog.intake.watcher.Live fun s => s.path m.followLog.settings.paths
    rw [hsettings, intake_followLog]
    exact h
  | publish =>
    have hsettings : m.publish.settings = m.settings := congrArg (·.settings) (ledger_publish m)
    show m.publish.intake.watcher.Live fun s => s.path m.publish.settings.paths
    rw [hsettings, intake_publish]
    exact h

theorem live_foldl_startStep (steps : List StartStep) {m : Monitor}
    (h : m.watcher.Live fun source => source.path m.settings.paths) :
    (steps.foldl startStep m).watcher.Live fun source =>
      source.path (steps.foldl startStep m).settings.paths := by
  induction steps generalizing m with
  | nil => exact h
  | cons step steps ih => exact ih (live_startStep h step)

theorem live_start (settings : Settings) (around : Surroundings) (daemonRuns : Bool) :
    (start settings around daemonRuns).watcher.Live fun source =>
      source.path (start settings around daemonRuns).settings.paths := by
  have hboot : (boot settings around).watcher.Live fun source =>
      source.path (boot settings around).settings.paths := Watcher.live_new _
  rw [start]
  exact live_foldl_startStep (startSteps daemonRuns) hboot

theorem regular_start (settings : Settings) (around : Surroundings) (daemonRuns : Bool) :
    (start settings around daemonRuns).Regular := by
  have hledger := ledger_start settings around daemonRuns
  have hstore : (start settings around daemonRuns).engine.policy =
      (PolicyStore.new settings.paths.policy).reload around.disk := by
    rw [← store_ledger, hledger]
  have hsettings : (start settings around daemonRuns).settings = settings := by
    rw [← settings_ledger, hledger]
  refine ⟨?_, ?_, upToDate_start settings around daemonRuns,
    fun _ => live_start settings around daemonRuns⟩
  · rw [hstore]
    exact SecurityPolicy.tidy_ofFile _
  · rw [hstore, hsettings]
    rfl

/-- A run from the start, and the settings of it. -/
theorem regular_actAll_start (settings : Settings) (around : Surroundings) (daemonRuns : Bool)
    (actions : List Action) :
    ((start settings around daemonRuns).actAll actions).Regular ∧
      ((start settings around daemonRuns).actAll actions).settings = settings := by
  refine ⟨(regular_start settings around daemonRuns).actAll actions, ?_⟩
  rw [settings_actAll, ← settings_ledger, ledger_start]

/-! ## What is kept and what is shown -/

/-- What is kept of a source is shown. -/
theorem Regular.shows_of_holds (h : m.Regular) (hh : m.engine.Holds content source) :
    m.Shows source content := by
  obtain ⟨hrecords, hstats, hlast, hpolicy⟩ := h.upToDate.parts
  cases source with
  | policy =>
    have hloaded : m.engine.policy.policy = SecurityPolicy.ofFile content := hh
    show m.engine.published.policy.same (SecurityPolicy.ofFile content) = true
    rw [hloaded] at hpolicy
    rcases hpolicy with heq | hsame
    · rw [heq]
      exact (SecurityPolicy.tidy_ofFile content).same_self
    · exact hsame
  | denials => exact ⟨hrecords.trans hh.1, hstats.trans hh.2⟩
  | lastDenial => exact hlast.trans hh

/-- What is shown of a file that is missing is what is kept of it: no other policy is the same as the
empty one. -/
theorem Regular.shows_none_iff (h : m.Regular) : m.Shows source none ↔ m.engine.Holds none source := by
  refine ⟨fun hshows => ?_, h.shows_of_holds⟩
  obtain ⟨hrecords, hstats, hlast, hpolicy⟩ := h.upToDate.parts
  cases source with
  | policy =>
    have hempty : m.engine.published.policy = .empty := SecurityPolicy.same_empty_iff.mp hshows
    show m.engine.policy.policy = .empty
    rw [hempty] at hpolicy
    rcases hpolicy with heq | hsame
    · exact heq.symm
    · exact SecurityPolicy.empty_same_iff.mp hsame
  | denials => exact ⟨hrecords.symm.trans hshows.1, hstats.symm.trans hshows.2⟩
  | lastDenial => exact hlast.symm.trans hshows

/-- The policy file is the file of the policy. -/
theorem Regular.policyFile?_eq (h : m.Regular) : m.policyFile? = m.content? .policy := by
  rw [policyFile?, h.path_eq]
  rfl

/-- What is kept of a source that was loaded is what its file says. -/
theorem Regular.holds_act_of_reads (h : m.Regular) (hreads : Reads source m a) :
    (m.act a).engine.Holds (m.content? source) source := by
  cases source with
  | policy =>
    have hstate := state_act_of_loads (reads_policy_iff.mp hreads)
    have hpolicy : (m.act a).engine.policy.policy = SecurityPolicy.ofFile m.policyFile? :=
      congrArg (·.store.policy) hstate
    rw [h.policyFile?_eq] at hpolicy
    exact hpolicy
  | denials =>
    have hlog : (m.act a).intake.log = (m.engine.log.reload (m.content? .denials)).2 := by
      rcases intake_act_of_reads (by simp) hreads with ⟨rest, hload⟩ | hrefresh
      · rw [hload]
        rfl
      · obtain ⟨watcher, heq⟩ := m.intake.exists_refresh_eq m.settings.paths m.around
        rw [hrefresh, heq]
        rfl
    have hboth := m.engine.log.reload_eq (m.content? .denials)
    rw [← hlog] at hboth
    exact hboth
  | lastDenial =>
    show (m.act a).intake.lastDenial = _
    rcases intake_act_of_reads (by simp) hreads with ⟨rest, hload⟩ | hrefresh
    · rw [hload]
      rfl
    · obtain ⟨watcher, heq⟩ := m.intake.exists_refresh_eq m.settings.paths m.around
      rw [hrefresh, heq]
      rfl

/-- What is kept of a source is what its file says, as long as the file stays as it is.

**Proof sketch.** Loading the source again leaves it so. The policy may also be edited; an edit that
succeeds without changing the file has nothing to change. -/
theorem Regular.holds_act (h : m.Regular) (hrun : (m.act a).running)
    (hcontent : (m.act a).content? source = m.content? source)
    (hh : m.engine.Holds (m.content? source) source) :
    (m.act a).engine.Holds (m.content? source) source := by
  by_cases hreads : Reads source m a
  · exact h.holds_act_of_reads hreads
  have hloaded := loaded_act_of_not_reads hrun
  cases source with
  | denials => rwa [Engine.Holds, hloaded.1 hreads]
  | lastDenial => rwa [Engine.Holds, hloaded.2 hreads]
  | policy =>
    rw [← (h.act a).policyFile?_eq, ← h.policyFile?_eq] at hcontent
    have hagrees : m.ledger.state.store.policy = SecurityPolicy.ofFile m.ledger.state.file? := by
      rw [file?_state, h.policyFile?_eq]
      exact hh
    suffices hsame : (m.act a).engine.policy.policy = m.engine.policy.policy by
      rw [Engine.Holds, hsame]
      exact hh
    cases he : (m.deed a).edit? with
    | some e =>
      have hstate := state_act_of_edit? he
      rw [← file?_state, ← file?_state, hstate] at hcontent
      rw [← policy_state, hstate]
      exact StoreState.policy_edit_of_file?_eq h.tidy hagrees hcontent
    | none =>
      have hstore : (m.act a).ledger.store = m.ledger.store := by
        rw [ledger_act]
        exact Ledger.store_perform he (mt reads_policy_iff.mpr hreads)
      exact congrArg (·.policy) hstore

/-! ## The watch of a source -/

/-- Where sources are watched that have no live watch, those with a live one keep it. -/
theorem find?_register {i : Intake} {paths : MonitorPaths} {around : Surroundings} {p : String}
    {w : Watch} (h : i.watcher.Live fun source => source.path paths) (hw : i.watcher.find? p = some w)
    (source : Source) : (i.register paths around source).watcher.find? p = some w := by
  unfold Intake.register
  split
  · exact hw
  · next hactive => exact h.find?_watch hactive hw source around

theorem find?_refresh {i : Intake} {paths : MonitorPaths} {around : Surroundings} {p : String}
    {w : Watch} (h : i.watcher.Live fun source => source.path paths)
    (hw : i.watcher.find? p = some w) : (i.refresh paths around).watcher.find? p = some w := by
  simp only [Intake.refresh, Source.all, List.foldl_cons, List.foldl_nil]
  have hloaded (i : Intake) (h : i.watcher.Live fun source => source.path paths) (source : Source) :
      (i.register paths around source).watcher.Live fun source => source.path paths :=
    live_register h source
  refine find?_register (hloaded _ (hloaded _ ?_ _) _)
    (find?_register (hloaded _ ?_ _) (find?_register ?_ ?_ _) _) _
  all_goals simp only [Intake.watcher_load]
  · exact h
  · exact h
  · exact h
  · exact hw

/-- Where one of the watches gets to run, it is the one of a given source, or the one of the source
stays as it is and the change of the source does not come of it. -/
theorem find?_run {watcher : Watcher Source} {paths : MonitorPaths} {w : Watch}
    (h : watcher.Live fun source => source.path paths) (hapart : paths.SourcesApart)
    (hw : watcher.find? (source.path paths) = some w) (around : Surroundings) (i : Nat)
    (eager : Bool) :
    (watcher.run around i eager).2.find? (source.path paths) = some w ∧
        (watcher.run around i eager).1 ≠ some source ∨
      let r := w.step watcher.delays (source.path paths) around eager
      (watcher.run around i eager).2.find? (source.path paths) = some r.2 ∧
        (watcher.run around i eager).1 = if r.1 then some source else none := by
  obtain ⟨e, he, hlive, hrun⟩ := h.find?_run hw around i eager
  -- the live watch on the path of the source is that of the source
  obtain rfl : e.tag = source := by
    apply hapart
    rw [← h.path_eq e he]
    simp only [Watcher.isLive, Bool.and_eq_true] at hlive
    exact hlive.1
  rwa [h.path_eq e he] at hrun

/-- What an action does to the watch of a source: nothing, or the watch hears a signal, or it gets to
run, and where it fires then the change of the source is queued. -/
theorem Regular.watch?_act {w : Watch} (h : m.Regular) (hapart : m.settings.paths.SourcesApart)
    (hrun : (m.act a).running) (hw : m.watch? source = some w) :
    (m.act a).watch? source = some w ∨
    (∃ path s, a = .signal path s ∧ (s = .closed → Path.same path (source.path m.settings.paths)) ∧
      (m.act a).watch? source = some (w.deliver s)) ∨
    (∃ i eager, a = .runWatch i eager ∧
      let r := w.step m.watcher.delays (source.path m.settings.paths) m.around eager
      (m.act a).watch? source = some r.2 ∧
        (r.1 = true → .changed source ∈ (m.act a).events)) := by
  have hlive := h.live (running_of_running_act hrun)
  have hturn := turn_act hrun
  have hwatcher : (m.act a).watch? source =
      (m.act a).intake.watcher.find? (source.path m.settings.paths) := by
    rw [watch?, settings_act]
    rfl
  have hevents : (m.act a).events = (m.act a).intake.events := rfl
  rw [hwatcher, hevents]
  generalize (m.act a).intake = i at hturn
  cases hturn with
  | signal path s =>
    rcases Watcher.find?_deliver hw path s with hsame | ⟨hclosed, hheard⟩
    · exact .inl hsame
    · exact .inr (.inl ⟨path, s, rfl, hclosed, hheard⟩)
  | runWatch i eager =>
    rcases find?_run hlive hapart hw m.around i eager with ⟨hsame, -⟩ | ⟨hstep, hfired⟩
    · exact .inl hsame
    · right; right
      refine ⟨i, eager, rfl, hstep, fun hfires => ?_⟩
      rw [if_pos hfires] at hfired
      simp [hfired]
  | load other rest hhead =>
    left
    rw [Intake.watcher_load]
    exact hw
  | refresh t rest hhead => exact .inl (find?_refresh hlive hw)
  | _ => exact .inl hw

/-- The change of a source is not queued unless a watch fires for it. -/
theorem fired_of_changed_mem (hrun : (m.act a).running)
    (hqueued : Event.changed source ∈ (m.act a).events) :
    Event.changed source ∈ m.events ∨
      ∃ i eager, (m.watcher.run m.around i eager).1 = some source := by
  have hturn := turn_act hrun
  replace hqueued : Event.changed source ∈ (m.act a).intake.events := hqueued
  generalize (m.act a).intake = i at hturn hqueued
  cases hturn with
  | signal path s => exact .inl hqueued
  | runWatch i eager =>
    rcases List.mem_append.mp hqueued with hqueued | hfired
    · exact .inl hqueued
    · right
      refine ⟨i, eager, ?_⟩
      simpa [eq_comm] using hfired
  | load other rest hhead =>
    left
    rw [Intake.events_load] at hqueued
    rw [hhead]
    exact List.mem_cons_of_mem _ hqueued
  | refresh t rest hhead =>
    left
    obtain ⟨watcher, heq⟩ := m.intake.exists_refresh_eq m.settings.paths m.around
    rw [heq] at hqueued
    exact hqueued
  | drop e rest hevents he =>
    left
    rw [hevents]
    exact List.mem_cons_of_mem _ hqueued
  | queue a e he =>
    left
    rcases List.mem_append.mp hqueued with hqueued | hnew
    · exact hqueued
    · obtain rfl : .changed source = e := by simpa using hnew
      simp [Event.changed?] at he
  | idle a => exact .inl hqueued

/-- That watch is the one of the source. -/
theorem Regular.fires_of_changed_mem {w : Watch} (h : m.Regular)
    (hapart : m.settings.paths.SourcesApart) (hrun : (m.act a).running)
    (hw : m.watch? source = some w) (hqueued : Event.changed source ∈ (m.act a).events) :
    Event.changed source ∈ m.events ∨
      ∃ eager, (w.step m.watcher.delays (source.path m.settings.paths) m.around eager).1 = true := by
  have hlive := h.live (running_of_running_act hrun)
  refine (fired_of_changed_mem hrun hqueued).imp_right fun ⟨i, eager, hfired⟩ => ⟨eager, ?_⟩
  rcases find?_run hlive hapart hw m.around i eager with ⟨-, hnot⟩ | ⟨-, hfires⟩
  · exact absurd hfired hnot
  · by_contra hnot
    simp [hfired, hnot] at hfires

end Monitor

end DenialMonitor
