import DenialMonitor.Journal
import DenialMonitor.Proofs.View.Publication

set_option autoImplicit false

/-!
# Observers

An observer looks at what is published from time to time. Between two looks any number of snapshots
may be published that it does not see. What it reports of the second one are the lines that arrived
since the first one, as far as they are kept: a snapshot holds the newest lines of the daemon's log
only, and the number of all of them. So the lines are cut out by how many there are, and not by what
they say.

## Main definitions

* `Monitor.looks` — what an observer sees after each part of a run.
* `Monitor.arrivals` — the lines that were received in each part.
* `Snapshot.reports` — what is reported of snapshots that are seen one after another.

## Main results

* `Snapshot.newLogLines_of_tells` — what is reported of a second snapshot after a first one.
* `Monitor.reports_looks` — what is reported along a run.
* `Monitor.exists_looks_of_sublist` — what may be seen of the publications.
* `Monitor.observers_report_each_line_once` — no line is reported twice or out of order.
-/

namespace DenialMonitor

namespace Snapshot

/-- What an observer reports who has seen the snapshot `s` and then sees the given ones. -/
def reports (s : Snapshot) : List Snapshot → List (List LogLine)
  | [] => []
  | next :: rest => newLogLines s next :: next.reports rest

variable {s₁ s₂ : Snapshot} {old new : List LogLine} {acknowledged₁ acknowledged₂ : Option RecordId}

/-- Of a second snapshot the newest lines are reported that arrived since the first one. -/
theorem newLogLines_of_tells (h₁ : s₁.Tells old acknowledged₁)
    (h₂ : s₂.Tells (old ++ new) acknowledged₂) :
    newLogLines s₁ s₂ = new.drop (new.length - maxLogLines) := by
  have hnew : new.drop (new.length - maxLogLines) =
      (old ++ new).drop (old.length + (new.length - maxLogLines)) :=
    (List.drop_length_add_append ..).symm
  have hstart : (old ++ new).length - maxLogLines +
      ((old ++ new).length - ((old ++ new).length - maxLogLines) -
        ((old ++ new).length - old.length)) = old.length + (new.length - maxLogLines) := by
    rw [List.length_append]
    omega
  rw [newLogLines, h₁.received_eq, h₂.received_eq, h₂.logTail_eq, List.drop_drop, List.length_drop,
    hstart, hnew]

end Snapshot

namespace Monitor

variable {m : Monitor}

/-! ## Looks -/

/-- The snapshots that an observer sees who looks at the end of each part of a run. -/
def looks (m : Monitor) : List (List Action) → List Snapshot
  | [] => []
  | part :: parts => (m.actAll part).engine.published :: (m.actAll part).looks parts

/-- The lines that were received in each part of a run. -/
def arrivals (m : Monitor) : List (List Action) → List (List LogLine)
  | [] => []
  | part :: parts => m.linesReceived part :: (m.actAll part).arrivals parts

theorem newsAlong_append (m : Monitor) (before after : List Action) :
    m.newsAlong (before ++ after) = m.newsAlong before ++ (m.actAll before).newsAlong after := by
  induction before generalizing m with
  | nil => rfl
  | cons a before ih =>
    rw [List.cons_append, newsAlong, newsAlong, ih, List.cons_append, actAll_cons]

theorem linesReceived_append (m : Monitor) (before after : List Action) :
    m.linesReceived (before ++ after) =
      m.linesReceived before ++ (m.actAll before).linesReceived after := by
  rw [linesReceived, newsAlong_append, List.flatMap_append]
  rfl

/-- Every line that was received was received in one part. -/
theorem flatten_arrivals (m : Monitor) (parts : List (List Action)) :
    (m.arrivals parts).flatten = m.linesReceived parts.flatten := by
  induction parts generalizing m with
  | nil => rfl
  | cons part parts ih =>
    rw [arrivals, List.flatten_cons, List.flatten_cons, ih, linesReceived_append]

/-- What was published after a part of a run from the start tells of the lines received so far. -/
theorem tells_actAll_start (settings : Settings) (around : Surroundings) (daemonRuns : Bool)
    (actions : List Action) :
    let started := start settings around daemonRuns
    (started.actAll actions).engine.published.Tells (started.linesReceived actions)
      (started.actAll actions).engine.acknowledged :=
  (regular_actAll_start settings around daemonRuns actions).1.tells_published
    (sound_actAll settings around daemonRuns actions)

/-- At the end of each part the newest lines are reported that were received in it. -/
theorem reports_looks (settings : Settings) (around : Surroundings) (daemonRuns : Bool)
    (before : List Action) (parts : List (List Action)) :
    let m := (start settings around daemonRuns).actAll before
    m.engine.published.reports (m.looks parts) =
      (m.arrivals parts).map fun lines => lines.drop (lines.length - maxLogLines) := by
  induction parts generalizing before with
  | nil => rfl
  | cons part parts ih =>
    have hold := tells_actAll_start settings around daemonRuns before
    have hnew := tells_actAll_start settings around daemonRuns (before ++ part)
    have ih := ih (before ++ part)
    simp only [actAll_append, linesReceived_append] at hnew ih
    simp only [looks, arrivals, Snapshot.reports, List.map_cons, ih,
      Snapshot.newLogLines_of_tells hold hnew]

/-! ## Publications -/

/-- Whatever is seen of the publications of a run, in their order, is seen by someone who looks at
the end of parts of the run. -/
theorem exists_looks_of_sublist (m : Monitor) (actions : List Action) :
    ∃ fresh, (m.actAll actions).publications = fresh.reverse ++ m.publications ∧
      ∀ seen, seen.Sublist fresh →
        ∃ parts after, actions = parts.flatten ++ after ∧ m.looks parts = seen := by
  induction actions generalizing m with
  | nil =>
    refine ⟨[], rfl, fun seen hseen => ⟨[], [], rfl, ?_⟩⟩
    rw [List.sublist_nil.mp hseen, looks]
  | cons a actions ih =>
    obtain ⟨fresh, hfresh, hlooks⟩ := ih (m.act a)
    -- Who sees nothing that this action publishes looks later.
    have hlater (seen : List Snapshot) (hseen : seen.Sublist fresh) :
        ∃ parts after, a :: actions = parts.flatten ++ after ∧ m.looks parts = seen := by
      obtain ⟨parts, after, rfl, rfl⟩ := hlooks seen hseen
      cases parts with
      | nil => exact ⟨[], a :: after, rfl, rfl⟩
      | cons part parts => exact ⟨(a :: part) :: parts, after, rfl, rfl⟩
    rcases publishes_act m a with hshown | ⟨s, -, hshown⟩
    · have hpublications : (m.act a).publications = m.publications := congrArg Prod.fst hshown
      exact ⟨fresh, by rw [actAll_cons, hfresh, hpublications], hlater⟩
    · have hpublications : (m.act a).publications = s :: m.publications := congrArg Prod.fst hshown
      have hpublished : (m.act a).engine.published = s := congrArg Prod.snd hshown
      refine ⟨s :: fresh, by rw [actAll_cons, hfresh, hpublications]; simp, fun seen hseen => ?_⟩
      cases hseen with
      | cons _ hseen => exact hlater seen hseen
      | cons_cons _ hseen =>
        obtain ⟨parts, after, rfl, rfl⟩ := hlooks _ hseen
        exact ⟨[a] :: parts, after, rfl, by rw [← hpublished]; rfl⟩

/-- In a run from the start, who sees publications has looked at the end of some part first. -/
theorem exists_looks_of_sublist_start {settings : Settings} {around : Surroundings}
    {daemonRuns : Bool} {actions : List Action} {s : Snapshot} {seen : List Snapshot}
    (h : (s :: seen).Sublist
      ((start settings around daemonRuns).actAll actions).publications.reverse) :
    ∃ before parts after, actions = before ++ parts.flatten ++ after ∧
      ((start settings around daemonRuns).actAll before).engine.published = s ∧
      ((start settings around daemonRuns).actAll before).looks parts = seen := by
  have hpublishes := publishes_start settings around daemonRuns
  have hboot : (boot settings around).publications = [] := rfl
  generalize start settings around daemonRuns = m at h hpublishes
  obtain ⟨fresh, hfresh, hlooks⟩ := exists_looks_of_sublist m actions
  rw [hfresh, List.reverse_append, List.reverse_reverse] at h
  have hlater (h : (s :: seen).Sublist fresh) : ∃ before parts after,
      actions = before ++ parts.flatten ++ after ∧ (m.actAll before).engine.published = s ∧
      (m.actAll before).looks parts = seen := by
    obtain ⟨parts, after, rfl, hseen⟩ := hlooks _ h
    cases parts with
    | nil => cases hseen
    | cons before parts =>
      obtain ⟨rfl, rfl⟩ := List.cons.inj hseen
      exact ⟨before, parts, after, rfl, rfl, rfl⟩
  unfold Publishes at hpublishes
  rw [hboot] at hpublishes
  rcases hpublishes with hshown | ⟨s', -, hshown⟩
  · have hpublications : m.publications = [] := (congrArg Prod.fst hshown).trans hboot
    rw [hpublications] at h
    exact hlater h
  · have hpublications : m.publications = [s'] := congrArg Prod.fst hshown
    have hpublished : m.engine.published = s' := congrArg Prod.snd hshown
    rw [hpublications] at h
    cases h with
    | cons _ h => exact hlater h
    | cons_cons _ h =>
      obtain ⟨parts, after, rfl, rfl⟩ := hlooks _ h
      exact ⟨[], parts, after, rfl, hpublished, rfl⟩

/-! ## Reports -/

/-- What is reported at the end of some parts are lines that were received in them, in their
order. -/
theorem flatten_newest_sublist (batches : List (List LogLine)) :
    (batches.map fun lines => lines.drop (lines.length - maxLogLines)).flatten.Sublist
      batches.flatten := by
  induction batches with
  | nil => exact List.Sublist.slnil
  | cons lines batches ih => exact (List.drop_sublist _ lines).append ih

/-- They are all of them where none is too long. -/
theorem map_newest_eq_self {batches : List (List LogLine)}
    (h : ∀ lines ∈ batches, lines.length ≤ maxLogLines) :
    (batches.map fun lines => lines.drop (lines.length - maxLogLines)) = batches := by
  have hwhole : ∀ lines ∈ batches, lines.drop (lines.length - maxLogLines) = lines := by
    intro lines hlines
    rw [Nat.sub_eq_zero_of_le (h lines hlines), List.drop_zero]
  rw [List.map_congr_left hwhole, List.map_id']

/-- **Observers report each line once.** Of a snapshot that was published later in a run than
another one, the newest lines are reported that were received in between, as many as a snapshot
holds. The number of lines has grown by these lines, and they stand at the end of the lines that the
later snapshot holds.

So who looks at the end of some parts of a run reports of each part its newest lines: what is
reported are received lines in their order, none of them twice, and all of them where no part has
more lines than a snapshot holds. Who sees any publications of the run in their order is such an
observer. -/
theorem observers_report_each_line_once (settings : Settings) (around : Surroundings)
    (daemonRuns : Bool) :
    let started := start settings around daemonRuns
    (∀ before between,
      let previous := (started.actAll before).engine.published
      let current := (started.actAll (before ++ between)).engine.published
      let lines := (started.actAll before).linesReceived between
      previous.newLogLines current = lines.drop (lines.length - maxLogLines) ∧
      current.logLinesReceived = previous.logLinesReceived + lines.length ∧
      previous.newLogLines current <:+ current.logTail) ∧
    (∀ before parts,
      let m := started.actAll before
      let reported := m.engine.published.reports (m.looks parts)
      (m.arrivals parts).flatten = m.linesReceived parts.flatten ∧
      (reported = (m.arrivals parts).map fun lines => lines.drop (lines.length - maxLogLines)) ∧
      reported.flatten.Sublist (m.linesReceived parts.flatten) ∧
      ((∀ lines ∈ m.arrivals parts, lines.length ≤ maxLogLines) →
        reported.flatten = m.linesReceived parts.flatten)) ∧
    ∀ actions s seen, (s :: seen).Sublist (started.actAll actions).publications.reverse →
      ∃ before parts after, actions = before ++ parts.flatten ++ after ∧
        (started.actAll before).engine.published = s ∧
        (started.actAll before).looks parts = seen := by
  intro started
  refine ⟨fun before between => ?_, fun before parts => ?_, fun actions s seen h =>
    exists_looks_of_sublist_start h⟩
  · have hold := tells_actAll_start settings around daemonRuns before
    have hnew := tells_actAll_start settings around daemonRuns (before ++ between)
    simp only [linesReceived_append] at hnew
    refine ⟨Snapshot.newLogLines_of_tells hold hnew, ?_, List.drop_suffix ..⟩
    rw [hnew.received_eq, hold.received_eq, List.length_append]
  · have hreports := reports_looks settings around daemonRuns before parts
    intro m reported
    rw [← flatten_arrivals m parts]
    refine ⟨rfl, hreports, ?_, fun hshort => ?_⟩
    · rw [show reported = _ from hreports]
      exact flatten_newest_sublist (m.arrivals parts)
    · rw [show reported = _ from hreports, map_newest_eq_self hshort]

/-- Surroundings in which the daemon has an empty log. -/
def emptyLog : Surroundings :=
  { Surroundings.emptyDir "/p" with
    disk := ((Surroundings.emptyDir "/p").disk.apply (.write "/p/codex-es-guard.log" [])).1 }

/-- A line is written to the log, read and handled. -/
def denialLogged : List Action :=
  [.change (.append "/p/codex-es-guard.log" (Utf8.encode "[DENY] x\n")),
    .signal "/p/codex-es-guard.log" (.notice (.modified .content)),
    .runReader 0, .runReader 0, .takeEvent]

/-- Two lines with the same text are both reported. -/
theorem repeated_line_is_reported :
    let m := (start (.ofPaths (.inDir "/p")) emptyLog false).actAll []
    (m.engine.published.reports (m.looks [denialLogged, denialLogged])).flatten =
      [.classify "[DENY] x", .classify "[DENY] x"] := by
  obtain ⟨-, hreports, -⟩ :=
    observers_report_each_line_once (.ofPaths (.inDir "/p")) emptyLog false
  obtain ⟨-, -, -, hall⟩ := hreports [] [denialLogged, denialLogged]
  exact (hall (by decide +kernel)).trans (by decide +kernel)

end Monitor

end DenialMonitor
