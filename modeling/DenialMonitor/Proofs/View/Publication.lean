import DenialMonitor.Proofs.View.Loading
import DenialMonitor.Proofs.View.News

set_option autoImplicit false

/-!
# Publications

An action publishes one snapshot at most, as the last thing that it does to what is shown, and none
that is the same as the one before. So whatever was published is what was to be shown after some
action of the run, and what is said of the published snapshot after every action is said of every
publication: its records are a window of the denial log with the counts of these very records, its
lines are the newest ones of all that were received, and it tells whether the newest record has been
acknowledged.

## Main definitions

* `Monitor.publications` — the snapshots that were published.
* `Monitor.Publishes` — what an action can do to them.
* `Front.Sound` — what holds of the front after the lines that were received.
* `Snapshot.Tells` — what a snapshot tells of the lines that were received and of the acknowledged
  record.

## Main results

* `Monitor.publishes_act` — an action publishes one snapshot at most, and no repetition.
* `Monitor.sound_actAll` — what holds of the front after a run.
* `Monitor.acknowledged_act` — who changes the acknowledged record.
* `Monitor.publications_are_consistent` — every published snapshot is consistent and current.
-/

namespace DenialMonitor

/-! ## Equal snapshots -/

/-- Snapshots that are the same differ in their policies at most. -/
theorem Snapshot.eq_of_same {a b : Snapshot} (h : a.same b) : a = { b with policy := a.policy } := by
  simp only [same, Bool.and_eq_true, beq_iff_eq] at h
  obtain ⟨⟨⟨⟨⟨⟨⟨⟨hrecords, hstats⟩, -⟩, hlast⟩, htail⟩, hreceived⟩, hrunning⟩, hunack⟩, houtcome⟩ := h
  rw [← hrecords, ← hstats, ← hlast, ← htail, ← hreceived, ← hrunning, ← hunack, ← houtcome]

/-- A snapshot of a policy that is the same as itself is the same as itself. -/
theorem Snapshot.same_self {s : Snapshot} (h : s.policy.same s.policy) : s.same s := by
  simp [same, h]

/-! ## The front -/

/-- What holds of the front after the given lines were received. -/
structure Front.Sound (f : Front) (lines : List LogLine) : Prop where
  records_le : f.log.records.length ≤ maxRecords
  stats_eq : f.log.stats = AgentStats.ofRecords f.log.records
  logTail_eq : f.logTail = lines.drop (lines.length - maxLogLines)
  received_eq : f.logLinesReceived = lines.length

/-- The newest lines stay the newest ones when others come. -/
theorem drop_append_drop {α : Type} (xs ys : List α) (n : Nat) :
    (xs.drop (xs.length - n) ++ ys).drop ((xs.drop (xs.length - n) ++ ys).length - n) =
      (xs ++ ys).drop ((xs ++ ys).length - n) := by
  rw [← List.drop_append_of_le_length (Nat.sub_le _ _), List.drop_drop, List.length_drop,
    List.length_append]
  congr 1
  omega

theorem DenialLog.length_recordsOf_le (content : Option (List UInt8)) :
    (recordsOf content).length ≤ maxRecords := by
  cases content with
  | none => exact Nat.zero_le _
  | some bytes =>
    refine Nat.le_trans (List.length_filterMap_le _ _) ?_
    rw [List.length_take]
    exact Nat.min_le_left _ _

/-- News keep it that way. -/
theorem Front.Sound.take {f : Front} {lines : List LogLine} (h : f.Sound lines) (n : News) :
    (f.take n).Sound (lines ++ n.received) := by
  obtain ⟨hrecords, hstats, htail, hreceived⟩ := h
  cases n with
  | nothing =>
    simp only [Front.take, News.received, List.append_nil]
    exact ⟨hrecords, hstats, htail, hreceived⟩
  | denials content =>
    obtain ⟨hrecords', hstats'⟩ := f.log.reload_eq content
    simp only [Front.take, News.received, List.append_nil]
    refine ⟨?_, ?_, htail, hreceived⟩
    · rw [hrecords']
      exact DenialLog.length_recordsOf_le content
    · rw [hrecords', hstats']
  | lines batch =>
    refine ⟨hrecords, hstats, ?_, ?_⟩
    · simp only [Front.take, News.received, htail]
      exact drop_append_drop lines batch maxLogLines
    · simp only [Front.take, News.received, hreceived, List.length_append]
  | acknowledge =>
    simp only [Front.take, News.received, List.append_nil]
    split <;> exact ⟨hrecords, hstats, htail, hreceived⟩

theorem Front.Sound.foldl_take {f : Front} {lines : List LogLine} (h : f.Sound lines)
    (news : List News) :
    (news.foldl Front.take f).Sound (lines ++ news.flatMap News.received) := by
  induction news generalizing f lines with
  | nil => simpa using h
  | cons n news ih =>
    rw [List.flatMap_cons, ← List.append_assoc]
    exact ih (h.take n)

/-- What a snapshot tells when the given lines were received and the given record is the
acknowledged one. -/
structure Snapshot.Tells (s : Snapshot) (lines : List LogLine) (acknowledged : Option RecordId) :
    Prop where
  records_le : s.records.length ≤ maxRecords
  agentStats_eq : s.agentStats = AgentStats.ofRecords s.records
  logTail_eq : s.logTail = lines.drop (lines.length - maxLogLines)
  length_logTail : s.logTail.length = min maxLogLines s.logLinesReceived
  received_eq : s.logLinesReceived = lines.length
  unacknowledged_iff : s.unacknowledged ↔
    ∃ newest, s.records.head? = some newest ∧ acknowledged ≠ some newest.id

/-- The snapshot that an output publishes. -/
def Output.published? : Output → Option Snapshot
  | .published s => some s
  | _ => none

namespace Monitor

/-- The snapshots that were published, latest first. -/
def publications (m : Monitor) : List Snapshot :=
  m.outputs.filterMap (·.2.published?)

/-- The publications, and the snapshot that is kept as the last one of them. -/
def shown (m : Monitor) : List Snapshot × Snapshot :=
  (m.publications, m.engine.published)

/-- Nothing is published, or one snapshot that is not the same as the one before. -/
def Publishes (m m' : Monitor) : Prop :=
  m'.shown = m.shown ∨
    ∃ s, m.engine.published.same s = false ∧ m'.shown = (s :: m.publications, s)

variable {m m' m'' : Monitor}

theorem Publishes.of_eq (h : m'.shown = m.shown) : Publishes m m' :=
  .inl h

theorem Publishes.trans_eq (h : Publishes m m') (heq : m''.shown = m'.shown) : Publishes m m'' := by
  unfold Publishes
  rw [heq]
  exact h

theorem Publishes.eq_trans (heq : m'.shown = m.shown) (h : Publishes m' m'') : Publishes m m'' := by
  have hpublications : m'.publications = m.publications := congrArg Prod.fst heq
  have hpublished : m'.engine.published = m.engine.published := congrArg Prod.snd heq
  unfold Publishes at h ⊢
  rw [← heq, ← hpublications, ← hpublished]
  exact h

theorem publishes_publish (h : m'.shown = m.shown) : Publishes m m'.publish := by
  have hpublished : m'.engine.published = m.engine.published := congrArg Prod.snd h
  have hpublications : m'.publications = m.publications := congrArg Prod.fst h
  unfold publish
  split
  · exact .inl h
  · next hdiffers =>
    refine .inr ⟨m'.engine.snapshot, ?_, ?_⟩
    · rw [← hpublished]
      exact Bool.eq_false_of_not_eq_true hdiffers
    · rw [← hpublications]
      rfl

theorem publishes_report (h : m'.shown = m.shown) (o : Outcome) : Publishes m (m'.report o) :=
  publishes_publish h

theorem publishes_conclude (h : m'.shown = m.shown) (t : Ticket) (o : Outcome) :
    Publishes m (m'.conclude t o) :=
  (publishes_report h o).trans_eq rfl

/-! ## What publishes nothing -/

theorem shown_reload (m : Monitor) (source : Source) : (m.reload source).shown = m.shown := by
  cases source with
  | denials =>
    simp only [reload]
    split <;> rfl
  | _ => rfl

theorem shown_register (m : Monitor) (source : Source) : (m.register source).shown = m.shown := by
  simp only [register]
  split <;> rfl

theorem shown_followLog (m : Monitor) : m.followLog.shown = m.shown := by
  simp only [followLog]
  split <;> rfl

theorem shown_adopt {α : Type} (m : Monitor) (e : PolicyStore.Edit α) : (m.adopt e).shown = m.shown :=
  rfl

theorem shown_tell_overrideExpired (m : Monitor) (path : String) :
    (m.tell (.overrideExpired path)).shown = m.shown :=
  rfl

theorem shown_update {f : Engine → Engine} (h : (f m.engine).published = m.engine.published) :
    (m.update f).shown = m.shown :=
  congrArg (Prod.mk m.publications) h

theorem shown_scheduleExpiry (m : Monitor) (path : String) :
    (m.scheduleExpiry path).shown = m.shown := by
  unfold scheduleExpiry
  split <;> rfl

theorem shown_post (m : Monitor) (e : Event) : (m.post e).shown = m.shown := by
  unfold post
  split <;> rfl

theorem shown_close (m : Monitor) : m.close.shown = m.shown := by
  rw [close_eq]
  simp [shown, publications, Output.published?]

theorem shown_reloadAll (m : Monitor) : m.reloadAll.shown = m.shown := by
  simp only [reloadAll, Source.all, List.foldl_cons, List.foldl_nil, shown_reload]

theorem shown_registerAll (m : Monitor) : m.registerAll.shown = m.shown := by
  simp only [registerAll, Source.all, List.foldl_cons, List.foldl_nil, shown_register]

/-! ## Requests and events -/

theorem publishes_requestOverride (m : Monitor) (text : String) (t : Ticket) :
    Publishes m (m.requestOverride text t) := by
  simp only [requestOverride]
  split
  · exact publishes_conclude rfl ..
  · split
    · exact publishes_conclude rfl ..
    · split
      · exact .of_eq rfl
      · simp only [applyOverride]
        split
        · exact publishes_conclude ((shown_scheduleExpiry ..).trans (shown_adopt ..)) ..
        · exact publishes_conclude (shown_adopt ..) ..

theorem publishes_acknowledge (m : Monitor) (t : Ticket) : Publishes m (m.acknowledge t) := by
  simp only [acknowledge]
  split
  · exact .of_eq rfl
  · refine Publishes.trans_eq (publishes_publish ?_) rfl
    simp only [shown, publications, update]

theorem publishes_refresh (m : Monitor) (t : Ticket) : Publishes m (m.refresh t) := by
  have hrefresh : (m.refresh t).shown = (m.reloadAll.registerAll.followLog.publish).shown := by
    simp only [refresh, shown, publications]
  refine Publishes.trans_eq (publishes_publish ?_) hrefresh
  rw [shown_followLog, shown_registerAll, shown_reloadAll]

theorem publishes_removeOverride (m : Monitor) (text : String) (t : Ticket) :
    Publishes m (m.removeOverride text t) := by
  have hcancelled (path : String) (e : PolicyStore.Edit Bool) :
      ((m.adopt e).cancelExpiry path).shown = m.shown := rfl
  simp only [removeOverride]
  split
  · exact publishes_conclude (hcancelled ..) ..
  · exact publishes_conclude (hcancelled ..) ..
  · exact publishes_conclude (shown_adopt ..) ..

theorem publishes_clearOverrides (m : Monitor) (t : Ticket) : Publishes m (m.clearOverrides t) := by
  simp only [clearOverrides]
  split
  · exact publishes_conclude ((shown_update rfl).trans (shown_adopt ..)) ..
  · exact publishes_conclude (shown_adopt ..) ..

theorem publishes_handleRequest (m : Monitor) (t : Ticket) (r : Request) :
    Publishes m (m.handleRequest t r) := by
  cases r with
  | refresh => exact publishes_refresh m t
  | acknowledge => exact publishes_acknowledge m t
  | requestOverride text => exact publishes_requestOverride m text t
  | removeOverride text => exact publishes_removeOverride m text t
  | clearOverrides => exact publishes_clearOverrides m t
  | restartDaemon => exact .of_eq rfl
  | shutdown => exact .of_eq (shown_close m)

theorem publishes_expireOverride (m : Monitor) (path : String) (generation : Nat) :
    Publishes m (m.expireOverride path generation) := by
  have hadopted (expiry : KeyedTimers String) (e : PolicyStore.Edit Bool) :
      ((m.update fun engine => { engine with expiry }).adopt e).shown = m.shown := rfl
  simp only [expireOverride]
  split
  · exact .of_eq rfl
  · split
    · exact publishes_report ((shown_tell_overrideExpired ..).trans (hadopted ..)) _
    · exact .of_eq (hadopted ..)
    · exact publishes_report (hadopted ..) _

theorem publishes_handleEvent (m : Monitor) (e : Event) : Publishes m (m.handleEvent e) := by
  cases e with
  | changed source => exact publishes_publish (shown_reload m source)
  | logLines lines =>
    exact publishes_publish (shown_update (by simp only [Engine.receive]))
  | runningState running t => exact (publishes_publish (shown_update rfl)).trans_eq rfl
  | overrideExpired path generation => exact publishes_expireOverride m path generation
  | outcomeExpired generation =>
    simp only [handleEvent]
    split
    · exact .of_eq rfl
    · exact publishes_publish (shown_update rfl)
  | helperFinished path result t =>
    simp only [handleEvent, helperFinished]
    split
    · exact publishes_conclude ((shown_scheduleExpiry ..).trans (shown_reload m .policy)) ..
    · exact publishes_conclude rfl ..
  | restartFinished result running t => exact publishes_conclude (shown_update rfl) ..

/-! ## Runs -/

/-- An action publishes one snapshot at most, and none that is the same as the one before. -/
theorem publishes_act (m : Monitor) (a : Action) : Publishes m (m.act a) := by
  cases a with
  | send r =>
    simp only [act, send]
    split <;> exact .of_eq rfl
  | finish i answer =>
    simp only [act, finishErrand]
    split
    · exact .of_eq rfl
    · split
      · exact .of_eq (shown_post ..)
      · exact .of_eq rfl
  | runWatch i eager =>
    simp only [act, runWatch]
    split
    · exact .of_eq rfl
    · exact .of_eq (shown_post ..)
  | runReader i =>
    simp only [act, runReader]
    split
    · exact .of_eq rfl
    · exact .of_eq (shown_post ..)
  | fireExpiry generation =>
    simp only [act, fireExpiry]
    split
    · exact .of_eq (shown_update rfl)
    · exact .of_eq ((shown_post ..).trans (shown_update rfl))
  | fireOutcome generation =>
    simp only [act, fireOutcome]
    split
    · exact .of_eq (shown_update rfl)
    · exact .of_eq ((shown_post ..).trans (shown_update rfl))
  | endWait i =>
    simp only [act, endWait]
    split
    · split <;> exact .of_eq rfl
    · exact .of_eq rfl
  | takeRequest =>
    simp only [act, takeRequest]
    split
    · exact .of_eq rfl
    · next t r rest _ =>
      have htaken : ({ m with requests := rest } : Monitor).shown = m.shown := rfl
      exact .eq_trans htaken (publishes_handleRequest _ t r)
  | takeEvent =>
    simp only [act, takeEvent]
    split
    · exact .of_eq rfl
    · next e rest _ =>
      have htaken : ({ m with events := rest } : Monitor).shown = m.shown := rfl
      exact .eq_trans htaken (publishes_handleEvent _ e)
  | retire =>
    simp only [act]
    split
    · exact .of_eq (shown_close m)
    · exact .of_eq rfl
  | _ => exact .of_eq rfl

/-- The start publishes one snapshot at most. -/
theorem publishes_start (settings : Settings) (around : Surroundings) (daemonRuns : Bool) :
    Publishes (boot settings around) (start settings around daemonRuns) := by
  have hrunning (m : Monitor) (b : Bool) :
      (m.update fun e => { e with daemonRunning := b }).shown = m.shown := rfl
  have hacknowledged (m : Monitor) (acknowledged : Option RecordId) :
      (m.update fun e => { e with acknowledged }).shown = m.shown := rfl
  simp only [start, startSteps, Source.all, List.map_cons, List.map_nil, List.cons_append,
    List.nil_append, List.foldl_cons, List.foldl_nil, startStep]
  refine publishes_publish ?_
  simp only [shown_followLog, shown_registerAll, shown_reload, hrunning, hacknowledged]

theorem published_of_mem_publications_start {settings : Settings} {around : Surroundings}
    {daemonRuns : Bool} {s : Snapshot} (hs : s ∈ (start settings around daemonRuns).publications) :
    (start settings around daemonRuns).engine.published = s := by
  have hboot : (boot settings around).publications = [] := rfl
  have hpublishes := publishes_start settings around daemonRuns
  generalize start settings around daemonRuns = m at hs hpublishes
  unfold Publishes at hpublishes
  rw [hboot] at hpublishes
  rcases hpublishes with hshown | ⟨s', -, hshown⟩
  · have hpublications : m.publications = (boot settings around).publications :=
      congrArg Prod.fst hshown
    simp [hpublications, hboot] at hs
  · have hpublications : m.publications = [s'] := congrArg Prod.fst hshown
    obtain rfl : s = s' := by simpa [hpublications] using hs
    exact congrArg Prod.snd hshown

/-- No publication is the same as the one before, the first one not the same as the empty snapshot,
and the latest one is kept. -/
structure Unrepeated (m : Monitor) : Prop where
  chain : (m.publications ++ [Snapshot.initial]).IsChain fun newer older => older.same newer = false
  head?_eq : (m.publications ++ [Snapshot.initial]).head? = some m.engine.published

theorem Publishes.unrepeated (h : Publishes m m') (hm : m.Unrepeated) : m'.Unrepeated := by
  rcases h with hshown | ⟨s, hdiffers, hshown⟩
  · have hpublications : m'.publications = m.publications := congrArg Prod.fst hshown
    have hpublished : m'.engine.published = m.engine.published := congrArg Prod.snd hshown
    exact ⟨hpublications ▸ hm.chain, by rw [hpublications, hpublished]; exact hm.head?_eq⟩
  · have hpublications : m'.publications = s :: m.publications := congrArg Prod.fst hshown
    have hpublished : m'.engine.published = s := congrArg Prod.snd hshown
    obtain ⟨rest, hrest⟩ := List.head?_eq_some_iff.mp hm.head?_eq
    refine ⟨?_, by rw [hpublications, hpublished]; rfl⟩
    have hchain := hm.chain
    rw [hpublications, List.cons_append, hrest, List.isChain_cons_cons]
    rw [hrest] at hchain
    exact ⟨hdiffers, hchain⟩

theorem unrepeated_boot (settings : Settings) (around : Surroundings) :
    (boot settings around).Unrepeated :=
  ⟨List.isChain_singleton _, rfl⟩

theorem unrepeated_actAll (hm : m.Unrepeated) (actions : List Action) :
    (m.actAll actions).Unrepeated := by
  induction actions generalizing m with
  | nil => exact hm
  | cons a actions ih => exact ih ((publishes_act m a).unrepeated hm)

/-- What is published in a run is what is kept as published after one of its parts. -/
theorem exists_prefix_of_mem_publications {s : Snapshot} {actions : List Action}
    (hs : s ∈ (m.actAll actions).publications) :
    s ∈ m.publications ∨
      ∃ before, before <+: actions ∧ (m.actAll before).engine.published = s := by
  induction actions generalizing m with
  | nil => exact .inl hs
  | cons a actions ih =>
    rcases ih hs with hmem | ⟨before, hprefix, heq⟩
    · rcases publishes_act m a with hshown | ⟨s', -, hshown⟩
      · have hpublications : (m.act a).publications = m.publications := congrArg Prod.fst hshown
        exact .inl (hpublications ▸ hmem)
      · have hpublications : (m.act a).publications = s' :: m.publications :=
          congrArg Prod.fst hshown
        have hpublished : (m.act a).engine.published = s' := congrArg Prod.snd hshown
        rcases List.mem_cons.mp (hpublications ▸ hmem) with rfl | hmem
        · exact .inr ⟨[a], by simp, hpublished⟩
        · exact .inl hmem
    · exact .inr ⟨a :: before, List.cons_prefix_cons.mpr ⟨rfl, hprefix⟩, heq⟩

/-- In a run from the start, this is so for everything that was published. -/
theorem exists_part_of_mem_publications {settings : Settings} {around : Surroundings}
    {daemonRuns : Bool} {s : Snapshot} {actions : List Action}
    (hs : s ∈ ((start settings around daemonRuns).actAll actions).publications) :
    ∃ before, before <+: actions ∧
      ((start settings around daemonRuns).actAll before).engine.published = s := by
  rcases exists_prefix_of_mem_publications hs with hmem | hlater
  · refine ⟨[], List.nil_prefix, ?_⟩
    rw [actAll_nil]
    exact published_of_mem_publications_start hmem
  · exact hlater

/-! ## What publications tell -/

/-- What is published is the same as what is to be shown. -/
theorem Regular.same_published (h : m.Regular) : m.engine.published.same m.engine.snapshot := by
  rcases h.upToDate with heq | hsame
  · rw [heq]
    exact Snapshot.same_self h.tidy.same_self
  · exact hsame

theorem isUnacknowledged_iff (e : Engine) : e.isUnacknowledged ↔
    ∃ newest, e.log.records.head? = some newest ∧ e.acknowledged ≠ some newest.id := by
  unfold Engine.isUnacknowledged
  cases e.log.records.head? with
  | none => simp
  | some newest => simp

/-- What is published tells what holds of the front. -/
theorem Regular.tells_published (h : m.Regular) {lines : List LogLine} (hsound : m.front.Sound lines) :
    m.engine.published.Tells lines m.engine.acknowledged := by
  obtain ⟨hrecords, hstats, htail, hreceived⟩ := hsound
  have hpublished := Snapshot.eq_of_same h.same_published
  generalize m.engine.published.policy = policy at hpublished
  rw [hpublished]
  refine ⟨hrecords, hstats, htail, ?_, hreceived, isUnacknowledged_iff m.engine⟩
  have hlength : m.engine.logTail.length = min maxLogLines m.engine.logLinesReceived := by
    rw [show m.engine.logTail = _ from htail, show m.engine.logLinesReceived = _ from hreceived,
      List.length_drop]
    omega
  exact hlength

theorem sound_start (settings : Settings) (around : Surroundings) (daemonRuns : Bool) :
    (start settings around daemonRuns).front.Sound [] := by
  obtain ⟨hrecords, hstats⟩ :=
    DenialLog.empty.reload_eq (around.disk.read? settings.paths.denials)
  rw [front_start]
  refine ⟨?_, ?_, rfl, rfl⟩
  · rw [hrecords]
    exact DenialLog.length_recordsOf_le _
  · rw [hrecords, hstats]

/-- The lines that a run has received. -/
def linesReceived (m : Monitor) (actions : List Action) : List LogLine :=
  (m.newsAlong actions).flatMap News.received

theorem sound_actAll (settings : Settings) (around : Surroundings) (daemonRuns : Bool)
    (actions : List Action) :
    let m := start settings around daemonRuns
    (m.actAll actions).front.Sound (m.linesReceived actions) := by
  intro m
  rw [front_actAll]
  exact (sound_start settings around daemonRuns).foldl_take (m.newsAlong actions)

theorem taken_of_news_eq_acknowledge {a : Action} (h : m.news a = .acknowledge) :
    a = .takeRequest ∧ m.requests.head?.map (·.2) = some .acknowledge := by
  cases a with
  | takeRequest =>
    simp only [news] at h
    split at h
    · cases h
    · next t r rest hrequests =>
      cases r with
      | acknowledge => exact ⟨rfl, by rw [hrequests]; rfl⟩
      | _ => cases h
  | takeEvent =>
    simp only [news] at h
    split at h
    · cases h
    · next e rest _ =>
      cases e with
      | changed source => cases source <;> cases h
      | _ => cases h
  | _ => cases h

/-- Only a user who takes note of the newest record changes the acknowledged one. -/
theorem acknowledged_act (m : Monitor) (a : Action) :
    (m.act a).engine.acknowledged = m.engine.acknowledged ∨
      a = .takeRequest ∧ m.requests.head?.map (·.2) = some .acknowledge ∧
        ∃ newest, m.engine.log.records.head? = some newest ∧
          (m.act a).engine.acknowledged = some newest.id := by
  have hfront : (m.act a).engine.acknowledged = (m.front.take (m.news a)).acknowledged :=
    congrArg (·.acknowledged) (front_act m a)
  rw [hfront]
  cases hnews : m.news a with
  | acknowledge =>
    obtain ⟨haction, hrequest⟩ := taken_of_news_eq_acknowledge hnews
    have hrecords : m.front.log.records = m.engine.log.records := rfl
    simp only [Front.take, hrecords]
    cases m.engine.log.records.head? with
    | none => exact .inl rfl
    | some newest => exact .inr ⟨haction, hrequest, newest, rfl, rfl⟩
  | _ => exact .inl rfl

/-- **Every snapshot is consistent and current.** After every action of every run, what is published
is the same as what is to be shown, and it tells of the lines that were received so far and of the
acknowledged record. No publication is the same as the one before, and each of them is what was
published after some part of the run, of which it tells. Only a user who takes note of the newest
record changes the acknowledged one. -/
theorem publications_are_consistent (settings : Settings) (around : Surroundings)
    (daemonRuns : Bool) (actions : List Action) :
    let started := start settings around daemonRuns
    let m := started.actAll actions
    m.engine.published.same m.engine.snapshot ∧
    m.engine.published.Tells (started.linesReceived actions) m.engine.acknowledged ∧
    m.Unrepeated ∧
    (∀ s ∈ m.publications, ∃ before, before <+: actions ∧
      s = (started.actAll before).engine.published ∧
      s.Tells (started.linesReceived before) (started.actAll before).engine.acknowledged) ∧
    ∀ a, (m.act a).engine.acknowledged = m.engine.acknowledged ∨
      a = .takeRequest ∧ m.requests.head?.map (·.2) = some .acknowledge ∧
        ∃ newest, m.engine.log.records.head? = some newest ∧
          (m.act a).engine.acknowledged = some newest.id := by
  intro started m
  have hregular (before : List Action) : (started.actAll before).Regular :=
    (regular_actAll_start settings around daemonRuns before).1
  have htells (before : List Action) : (started.actAll before).engine.published.Tells
      (started.linesReceived before) (started.actAll before).engine.acknowledged :=
    (hregular before).tells_published (sound_actAll settings around daemonRuns before)
  have hstarted : started.Unrepeated :=
    (publishes_start settings around daemonRuns).unrepeated (unrepeated_boot settings around)
  refine ⟨(hregular actions).same_published, htells actions, unrepeated_actAll hstarted actions, ?_,
    fun a => acknowledged_act m a⟩
  intro s hs
  obtain ⟨before, hprefix, rfl⟩ := exists_part_of_mem_publications hs
  exact ⟨before, hprefix, rfl, htells before⟩

end Monitor

end DenialMonitor
