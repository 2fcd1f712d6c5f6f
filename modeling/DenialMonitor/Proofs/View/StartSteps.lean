import DenialMonitor.Proofs.View.Convergence

set_option autoImplicit false

/-!
# Steps of the start

The start recalls the acknowledged record, loads each source, asks whether the daemon runs, sets the
watches up, follows the log and publishes, one step after the other. A step loads one source at most
and keeps what was loaded of the others, and no step gives a live watch up. So what is due to a source
stays due while the start goes on.

## Main definitions

* `Monitor.registerEach` — the watches of some sources are set up, one after the other.

## Main results

* `Monitor.ledger_startStep`, `Monitor.intake_startStep` — what a step does to the ledger and to the
  intake.
* `Monitor.exists_find?_registerEach` — a source whose file may be watched has a live watch then.
* `Monitor.holds_startStep`, `Monitor.holds_startStep_reload` — what is kept of the sources after a
  step.
* `Monitor.Due.startStep` — what is due stays due.
-/

namespace DenialMonitor.Monitor

variable {m : Monitor} {source : Source} {P : Watch → Prop}

/-! ## Setting the watches up -/

/-- Sets up the watch of each of some sources. -/
def registerEach (i : Intake) (paths : MonitorPaths) (around : Surroundings)
    (sources : List Source) : Intake :=
  sources.foldl (fun i source => i.register paths around source) i

section

variable {i : Intake} {paths : MonitorPaths} {around : Surroundings}

/-- Setting watches up changes nothing else of the intake. -/
theorem exists_registerEach_eq (i : Intake) (paths : MonitorPaths) (around : Surroundings)
    (sources : List Source) :
    ∃ watcher, registerEach i paths around sources = { i with watcher } := by
  induction sources generalizing i with
  | nil => exact ⟨i.watcher, rfl⟩
  | cons source sources ih =>
    obtain ⟨watcher, heq⟩ := i.exists_register_eq paths around source
    obtain ⟨watcher', heq'⟩ := ih { i with watcher }
    refine ⟨watcher', ?_⟩
    rw [registerEach, List.foldl_cons, heq]
    exact heq'

theorem live_registerEach (h : i.watcher.Live fun source => source.path paths)
    (sources : List Source) :
    (registerEach i paths around sources).watcher.Live fun source => source.path paths := by
  induction sources generalizing i with
  | nil => exact h
  | cons source sources ih => exact ih (live_register h source)

/-- A path that has a live watch keeps it. -/
theorem find?_registerEach {path : String} {w : Watch}
    (h : i.watcher.Live fun source => source.path paths) (hw : i.watcher.find? path = some w)
    (sources : List Source) :
    (registerEach i paths around sources).watcher.find? path = some w := by
  induction sources generalizing i with
  | nil => exact hw
  | cons source sources ih => exact ih (live_register h source) (find?_register h hw source)

/-- A source whose file may be watched has a live watch when its watch is set up. -/
theorem exists_find?_register {source : Source}
    (h : i.watcher.Live fun source => source.path paths)
    (hthere : (around.watchable? (source.path paths)).isSome) :
    ∃ w, (i.register paths around source).watcher.find? (source.path paths) = some w := by
  obtain ⟨file, hfile⟩ := Option.isSome_iff_exists.mp hthere
  unfold Intake.register
  split
  · next hactive => exact Watcher.exists_find?_of_isActive hactive
  · next hactive =>
    have hnone := h.find?_eq_none hactive
    have hold : i.watcher.entries.find? (Watcher.isLive (source.path paths)) = none := by
      simpa [Watcher.find?] using hnone
    refine ⟨.arm file, ?_⟩
    simp [Watcher.watch, Watcher.stop_of_find?_eq_none hnone, hfile, Watcher.find?, hold,
      Watcher.isLive, Watch.arm, Path.same]

/-- It has one when the watches of some sources are set up, its own among them. -/
theorem exists_find?_registerEach {source : Source} {sources : List Source}
    (h : i.watcher.Live fun source => source.path paths) (hmem : source ∈ sources)
    (hthere : (around.watchable? (source.path paths)).isSome) :
    ∃ w, (registerEach i paths around sources).watcher.find? (source.path paths) = some w := by
  obtain ⟨early, late, rfl⟩ := List.append_of_mem hmem
  have hearly : (registerEach i paths around early).watcher.Live fun source => source.path paths :=
    live_registerEach h early
  obtain ⟨w, hw⟩ := exists_find?_register hearly hthere
  refine ⟨w, ?_⟩
  rw [registerEach, List.foldl_append, List.foldl_cons]
  exact find?_registerEach (live_register hearly source) hw late

end

/-! ## Steps of the start -/

/-- A step of the start loads the policy or leaves the ledger alone. -/
theorem ledger_startStep (m : Monitor) (s : StartStep) :
    (m.startStep s).ledger =
      if s = .reload .policy then { m.ledger with store := m.engine.policy.reload m.around.disk }
      else m.ledger := by
  cases s with
  | reload source =>
    simp only [startStep, ledger_reload, StartStep.reload.injEq]
  | registerWatches => exact ledger_registerAll m
  | followLog => exact ledger_followLog m
  | publish => exact ledger_publish m
  | _ => rfl

/-- A step of the start loads a source, sets the watches up or leaves the intake alone. -/
theorem intake_startStep (m : Monitor) (s : StartStep) :
    (m.startStep s).intake =
      match s with
      | .reload source => m.intake.load m.settings.paths m.around source
      | .registerWatches => registerEach m.intake m.settings.paths m.around Source.all
      | _ => m.intake := by
  cases s with
  | reload source => exact intake_reload m source
  | registerWatches =>
    simp only [startStep, registerAll, registerEach, Source.all, List.foldl_cons, List.foldl_nil,
      intake_register, settings_register, around_register]
  | followLog => exact intake_followLog m
  | publish => exact intake_publish m
  | _ => rfl

theorem settings_startStep (m : Monitor) (s : StartStep) :
    (m.startStep s).settings = m.settings := by
  rw [← settings_ledger, ledger_startStep]
  split <;> rfl

theorem running_startStep (m : Monitor) (s : StartStep) : (m.startStep s).running = m.running := by
  show (m.startStep s).ledger.running = _
  rw [ledger_startStep]
  split <;> rfl

theorem around_startStep (m : Monitor) (s : StartStep) : (m.startStep s).around = m.around := by
  cases s with
  | reload source => exact around_reload m source
  | registerWatches =>
    simp only [startStep, registerAll, Source.all, List.foldl_cons, List.foldl_nil, around_register]
  | followLog =>
    simp only [startStep, followLog]
    split <;> rfl
  | publish =>
    simp only [startStep, publish]
    split <;> rfl
  | _ => rfl

theorem content?_startStep (m : Monitor) (s : StartStep) (source : Source) :
    (m.startStep s).content? source = m.content? source := by
  rw [content?, around_startStep, settings_startStep]
  rfl

theorem events_startStep (m : Monitor) (s : StartStep) : (m.startStep s).events = m.events := by
  show (m.startStep s).intake.events = m.intake.events
  rw [intake_startStep]
  split
  · exact Intake.events_load ..
  · obtain ⟨watcher, heq⟩ := exists_registerEach_eq m.intake m.settings.paths m.around Source.all
    rw [heq]
  · rfl

/-- What was loaded of the other sources stays unless they are loaded. -/
theorem loaded_startStep (m : Monitor) (s : StartStep) :
    (s ≠ .reload .denials → (m.startStep s).engine.log = m.engine.log) ∧
      (s ≠ .reload .lastDenial → (m.startStep s).engine.lastDenial = m.engine.lastDenial) := by
  show (s ≠ .reload .denials → (m.startStep s).intake.log = m.intake.log) ∧
    (s ≠ .reload .lastDenial → (m.startStep s).intake.lastDenial = m.intake.lastDenial)
  rw [intake_startStep]
  split
  · next source => cases source <;> simp [Intake.load]
  · obtain ⟨watcher, heq⟩ := exists_registerEach_eq m.intake m.settings.paths m.around Source.all
    rw [heq]
    exact ⟨fun _ => rfl, fun _ => rfl⟩
  · exact ⟨fun _ => rfl, fun _ => rfl⟩

/-- What is kept of a source stays unless the step loads it. -/
theorem holds_startStep {content : Option (List UInt8)} {s : StartStep} (hs : s ≠ .reload source)
    (h : m.engine.Holds content source) : (m.startStep s).engine.Holds content source := by
  cases source with
  | policy =>
    have hstore : (m.startStep s).ledger.store = m.ledger.store := by
      rw [ledger_startStep, if_neg hs]
    have hpolicy : (m.startStep s).engine.policy.policy = m.engine.policy.policy :=
      congrArg (·.policy) hstore
    rwa [Engine.Holds, hpolicy]
  | denials => rwa [Engine.Holds, (m.loaded_startStep s).1 hs]
  | lastDenial => rwa [Engine.Holds, (m.loaded_startStep s).2 hs]

/-- What is kept of a source that the step loads is what its file says. -/
theorem holds_startStep_reload (hpath : m.engine.policy.path = m.settings.paths.policy)
    (source : Source) :
    (m.startStep (.reload source)).engine.Holds (m.content? source) source := by
  have hintake := m.intake_startStep (.reload source)
  cases source with
  | policy =>
    show SecurityPolicy.ofFile (m.around.disk.read? m.engine.policy.path) = _
    rw [hpath]
    rfl
  | denials =>
    have hlog : (m.startStep (.reload .denials)).engine.log =
        (m.engine.log.reload (m.content? .denials)).2 := congrArg (·.log) hintake
    rw [Engine.Holds, hlog]
    exact m.engine.log.reload_eq (m.content? .denials)
  | lastDenial => exact congrArg (·.lastDenial) hintake

/-- A source that has a live watch keeps it. -/
theorem watch?_startStep {w : Watch}
    (h : m.watcher.Live fun source => source.path m.settings.paths)
    (hw : m.watch? source = some w) (s : StartStep) : (m.startStep s).watch? source = some w := by
  replace hw : m.intake.watcher.find? (source.path m.settings.paths) = some w := hw
  show (m.startStep s).intake.watcher.find? (source.path (m.startStep s).settings.paths) = some w
  rw [settings_startStep, intake_startStep]
  split
  · rw [Intake.watcher_load]
    exact hw
  · exact find?_registerEach h hw Source.all
  · exact hw

/-- What is due stays due when the start takes a step. -/
theorem Due.startStep (hdue : m.Due P source)
    (hpath : m.engine.policy.path = m.settings.paths.policy)
    (hlive : m.watcher.Live fun source => source.path m.settings.paths) (s : StartStep) :
    (m.startStep s).Due P source := by
  unfold Due
  rw [content?_startStep, events_startStep]
  rcases hdue with hholds | hqueued | ⟨w, hw, hP⟩
  · left
    by_cases hs : s = .reload source
    · subst hs
      exact holds_startStep_reload hpath source
    · exact holds_startStep hs hholds
  · exact .inr (.inl hqueued)
  · exact .inr (.inr ⟨w, watch?_startStep hlive hw s, hP⟩)

end DenialMonitor.Monitor
