import DenialMonitor.Proofs.Disk.Parents

set_option autoImplicit false

/-!
# The stages of an atomic write

A write that is stopped before its temporary file is renamed has come to one of two stages: directories
were created on the way to the document, or beyond that the temporary file holds the pieces that were
written so far. In both of them the document is as it was, unless it is the temporary file itself.

## Main definitions

* `AtomicWrite.Stage` — what a write has come to before the renaming.
* `Disk.ChangesOnly` — whatever exists is as it was, but for the files at given paths.
* `AtomicWrite.Spares` — a write has come to nothing.
* `AtomicWrite.Stopped` — a write was stopped before it could change the document.

## Main results

* `AtomicWrite.stage_run_take` — the stage of a write after any number of steps.
* `AtomicWrite.run_steps` — how a write ends.
* `AtomicWrite.Stage.spares` — before the renaming the document is as it was.
* `AtomicWrite.Stage.of_rename` — what the renaming does.
-/

namespace DenialMonitor

namespace Disk

variable {d d' d'' : Disk} {l m : Location} {e e' : Option Entry} {p : String}
  {steps : List String}

/-! ## Where paths lead -/

/-- Setting an entry twice is setting it once. -/
theorem Sets.trans (h : d.Sets d' m e) (h' : d'.Sets d'' m e') : d.Sets d'' m e' := by
  intro l hl
  rw [h' l hl]
  split
  · rfl
  · next hne => exact h.elsewhere hne

/-- Setting a file makes no directory. -/
theorem Sets.keeps_back {id : FileId} {content : List UInt8}
    (h : d.Sets d' m (some ⟨id, .file content⟩)) (hm : m ≠ .root) : d'.Keeps d := by
  rintro l ⟨k, hk⟩
  have hlm : l ≠ m := by
    rintro rfl
    simp [h.here hm] at hk
  exact ⟨k, by rw [← h.elsewhere hlm, hk]⟩

/-- Where directories were added, a path leads where it led before, or where it led nowhere for a
missing directory. -/
theorem walk_of_grows (h : d.Grows d') {t : Target} (hw : d'.walk l steps = .ok t) :
    d.walk l steps = .ok t ∨ d.walk l steps = .error .notFound := by
  induction steps generalizing l with
  | nil => exact .inl (by simpa using hw)
  | cons name steps ih =>
    by_cases hdot : name = "."
    · subst hdot
      rw [walk_dot] at hw ⊢
      exact ih hw
    by_cases hup : name = ".."
    · subst hup
      rw [walk_up] at hw ⊢
      exact ih hw
    by_cases hsteps : steps = []
    · subst hsteps
      rw [walk_last hdot hup] at hw ⊢
      exact .inl hw
    · obtain ⟨hsize, hdir, hrest⟩ := (walk_name hdot hup hsteps).mp hw
      have hname : d.walk l (name :: steps) =
          match d.at? (l.child name) with
          | none => .error .notFound
          | some ⟨_, .file _⟩ => .error .notADirectory
          | some ⟨_, .directory⟩ => d.walk (l.child name) steps := by
        rw [walk.eq_5 d l name steps hdot hup (by simpa using hsteps), lookup_eq hsize]
        rcases d.at? (l.child name) with _ | ⟨_, _ | _⟩ <;> rfl
      rw [hname]
      rcases h (l.child name) with hsame | ⟨hnone, -⟩
      · obtain ⟨id, hid⟩ := hdir
        rw [← hsame, hid]
        exact ih hrest
      · rw [hnone]
        exact .inr rfl

theorem follow_of_grows (h : d.Grows d') {t : Target} (hp : d'.follow p = .ok t) :
    d.follow p = .ok t ∨ d.follow p = .error .notFound := by
  obtain ⟨hfollow, hwalk⟩ := walk_of_follow hp
  rw [hfollow]
  exact walk_of_grows h hwalk

/-- What a path names depends on where it leads and on the entry there. -/
theorem entry_congr {t : Target} (hp : d.follow p = .ok t) (hp' : d'.follow p = .ok t)
    (hat : d'.at? t.place = d.at? t.place) : d'.entry p = d.entry p := by
  cases t with
  | dots l =>
    simp only [Target.place] at hat
    simp only [entry, hp, hp', bind, Except.bind, hat]
  | named l name =>
    have hlookup : d'.lookup l name = d.lookup l name := by
      unfold lookup
      split
      · rfl
      · exact congrArg Except.ok hat
    simp only [entry, hp, hp', bind, Except.bind, hlookup]

theorem entry_of_follow_error {e : OsError} (hp : d.follow p = .error e) : d.entry p = .error e := by
  simp only [entry, hp, bind, Except.bind]

/-- A path that names anything leads there. -/
theorem exists_follow_of_entry {x : Entry} (h : d.entry p = .ok x) :
    ∃ t, d.follow p = .ok t ∧ d.at? t.place = some x := by
  unfold entry at h
  match hp : d.follow p with
  | .error e => simp [hp, bind, Except.bind] at h
  | .ok (.dots l) =>
    refine ⟨_, rfl, ?_⟩
    simp only [hp, bind, Except.bind] at h
    split at h
    · next hat => exact hat.trans (congrArg some (Except.ok.inj h))
    · simp at h
  | .ok (.named l name) =>
    refine ⟨_, rfl, ?_⟩
    simp only [hp, bind, Except.bind] at h
    split at h
    · simp at h
    next y hlookup =>
    have hat := (lookup_eq_ok hlookup).2
    split at h
    · simp at h
    · exact hat.trans (congrArg some (Except.ok.inj h))
    · split at h
      · simp at h
      · exact hat.trans (congrArg some (Except.ok.inj h))

/-- Through a path that ends in a slash a file is not named. -/
theorem entry_toOption_of_slash {l : Location} {name : String} (hp : d.follow p = .ok (.named l name))
    (hslash : Path.endsInSlash p = true) (hfile : ¬ d.IsDirectory (l.child name)) :
    (d.entry p).toOption = none := by
  simp only [entry, hp, bind, Except.bind]
  rcases hlookup : d.lookup l name with e | _ | ⟨id, _ | content⟩
  · rfl
  · rfl
  · exact absurd ⟨id, (lookup_eq_ok hlookup).2⟩ hfile
  · simp [hslash, Except.toOption]

/-- What is read through a path depends on what it names. -/
theorem read?_congr (h : (d'.entry p).toOption = (d.entry p).toOption) : d'.read? p = d.read? p := by
  unfold read? read
  cases hd : d.entry p with
  | error e =>
    cases hd' : d'.entry p with
    | error e' => rfl
    | ok x' =>
      rw [hd, hd'] at h
      cases h
  | ok x =>
    cases hd' : d'.entry p with
    | error e' =>
      rw [hd, hd'] at h
      cases h
    | ok x' =>
      rw [hd, hd'] at h
      cases h
      rfl

/-- Where nothing is, a path that leads there names nothing. -/
theorem Leads.identity?_eq_none (h : d.Leads p m) (hm : d.at? m = none) : d.identity? p = none := by
  obtain ⟨l, name, hp, -, rfl⟩ := h
  unfold identity?
  cases hentry : d.entry p with
  | error e => rfl
  | ok x =>
    obtain ⟨t, ht, hat⟩ := exists_follow_of_entry hentry
    obtain rfl := Except.ok.inj (hp.symm.trans ht)
    rw [Target.place, hm] at hat
    cases hat

/-! ## Changes of given files -/

/-- Directories stay, and everything stays as it is but for the files to which the given paths lead,
and for directories that are added where nothing was. -/
structure ChangesOnly (d d' : Disk) (paths : List String) : Prop where
  keeps : d.Keeps d'
  elsewhere : ∀ l, (∀ p ∈ paths, ¬ d'.Leads p l) →
    d'.at? l = d.at? l ∨ d.at? l = none ∧ d'.IsDirectory l

/-- What exists apart from the given files is as it was. -/
theorem ChangesOnly.at?_eq {paths : List String} (h : d.ChangesOnly d' paths)
    (hl : ∀ p ∈ paths, ¬ d'.Leads p l) (hthere : d.at? l ≠ none) : d'.at? l = d.at? l :=
  (h.elsewhere l hl).resolve_right fun hnone => hthere hnone.1

/-- A document at another place than the given files is kept. -/
theorem ChangesOnly.keepsFile {paths : List String} {q : String} (h : d.ChangesOnly d' paths)
    (hq : ∀ p ∈ paths, Path.Distinct q p) : d.KeepsFile d' q := by
  refine ⟨fun _ hl => hl.of_keeps h.keeps, fun _ l hl => ?_⟩
  have hother : ∀ p ∈ paths, ¬ d'.Leads p l := fun p hp hleads => hq p hp l hl hleads.place?_eq
  exact fileAt?_eq_of_grown (h.elsewhere l hother)

end Disk

namespace AtomicWrite

variable {d d' : Disk} {l m : Location} {p q : String} {pieces : List (List UInt8)}
  {written : List UInt8}

/-! ## Runs -/

theorem run_cons_of_done {s : Step} (h : s.perform d = (d', none)) (ss : List Step) :
    run d (s :: ss) = run d' ss := by
  rw [run, h]

theorem run_cons_of_failed {s : Step} {e : OsError} (h : s.perform d = (d', some e))
    (ss : List Step) : run d (s :: ss) = (d', some e) := by
  rw [run, h]

theorem run_singleton (d : Disk) (s : Step) : run d [s] = s.perform d := by
  cases h : s.perform d with
  | mk d' e =>
    cases e with
    | none => exact run_cons_of_done h []
    | some e => exact run_cons_of_failed h []

/-- Steps that follow others are performed where those did not fail. -/
theorem run_append (d : Disk) (ss ts : List Step) :
    run d (ss ++ ts) = if (run d ss).2 = none then run (run d ss).1 ts else run d ss := by
  induction ss generalizing d with
  | nil => rfl
  | cons s ss ih =>
    cases h : s.perform d with
    | mk d' e =>
      cases e with
      | none => rw [List.cons_append, run_cons_of_done h, run_cons_of_done h, ih]
      | some e => rw [List.cons_append, run_cons_of_failed h, run_cons_of_failed h, if_neg (by simp)]

/-- Writing pieces behind the end of a file succeeds. -/
theorem run_map_append {id : FileId} (hleads : d.Leads q m)
    (hat : d.at? m = some ⟨id, .file written⟩) (hslash : Path.endsInSlash q = false)
    (pieces : List (List UInt8)) :
    ∃ d', run d (pieces.map (.append q)) = (d', none) ∧
      d.Sets d' m (some ⟨id, .file (written ++ pieces.flatten)⟩) := by
  induction pieces generalizing d written with
  | nil =>
    refine ⟨d, rfl, fun l hl => ?_⟩
    split
    · next h => rw [h, hat, List.flatten_nil, List.append_nil]
    · rfl
  | cons piece pieces ih =>
    obtain ⟨d₁, happend⟩ : ∃ d₁, d.append q piece = .ok d₁ := Disk.append_eq_ok hleads hat hslash
    obtain ⟨m', id', old, hleads', hat', hsets⟩ := Disk.sets_of_append happend
    obtain rfl := hleads'.unique hleads
    obtain ⟨rfl, rfl⟩ : id = id' ∧ written = old := by simpa using hat.symm.trans hat'
    have hkeeps := hsets.keeps (by simp [Disk.IsDirectory, hat])
    obtain ⟨d', hrun, hsets'⟩ := ih (hleads.of_keeps hkeeps) (hsets.here hleads.ne_root)
    have hperform : (Step.append q piece).perform d = (d₁, none) := by
      simp only [Step.perform, Disk.attempt, happend]
    refine ⟨d', by simpa only [List.map_cons, run, hperform] using hrun, ?_⟩
    rw [List.flatten_cons, ← List.append_assoc]
    exact hsets.trans hsets'

/-! ## Stages -/

/-- What a write of the document at `p` has come to before the renaming: directories above it were
created, and, if `written` is given, the temporary file holds that. -/
inductive Stage (d : Disk) (p : String) : Option (List UInt8) → Disk → Prop
  | early {d₁ : Disk} (prepares : d.Prepares d₁ p) : Stage d p none d₁
  | late {d₁ d₂ : Disk} {m : Location} {id : FileId} {written : List UInt8}
    (prepares : d.Prepares d₁ p) (leads : d₁.Leads (temporary p) m)
    (slash : Path.endsInSlash (temporary p) = false) (free : ¬ d₁.IsDirectory m)
    (sets : d₁.Sets d₂ m (some ⟨id, .file written⟩)) : Stage d p (some written) d₂

/-- A write without the renaming: it fails before the temporary file is there, or writes all pieces to
it.

**Proof sketch.** Once the temporary file was emptied, pieces can be written to it. -/
theorem stage_run_pieces (d : Disk) (p : String) (pieces : List (List UInt8)) :
    let r := run d (.makeDirs (Path.parent p) :: .truncate (temporary p) ::
      pieces.map (.append (temporary p)))
    (r.2 ≠ none ∧ Stage d p none r.1) ∨ (r.2 = none ∧ Stage d p (some pieces.flatten) r.1) := by
  have hprepares := Disk.prepares_perform d p
  rcases hmade : (Step.makeDirs (Path.parent p)).perform d with ⟨d₁, _ | e⟩
  · rw [hmade] at hprepares
    simp only [run_cons_of_done hmade]
    rcases htruncate : (Step.truncate (temporary p)).perform d₁ with ⟨d₂, _ | e⟩
    · simp only [run_cons_of_done htruncate]
      rw [Step.perform] at htruncate
      obtain ⟨m, id, hleads, hslash, hfree, hempty⟩ :=
        Disk.sets_of_write (Disk.attempt_eq_none htruncate)
      obtain ⟨d₃, hrun, hsets⟩ := run_map_append (hleads.of_keeps (hempty.keeps hfree))
        (hempty.here hleads.ne_root) hslash pieces
      rw [hrun]
      rw [List.nil_append] at hsets
      exact .inr ⟨rfl, .late hprepares hleads hslash hfree (hempty.trans hsets)⟩
    · simp only [run_cons_of_failed htruncate]
      rw [Step.perform] at htruncate
      obtain ⟨-, rfl⟩ := Disk.attempt_eq_some htruncate
      exact .inl ⟨by simp, .early hprepares⟩
  · rw [hmade] at hprepares
    simp only [run_cons_of_failed hmade]
    exact .inl ⟨by simp, .early hprepares⟩

/-- The stage of a write that is stopped before the renaming. -/
theorem stage_run_take {n : Nat} (hn : n < pieces.length + 3) :
    let r := run d ((steps p pieces).take n)
    ((n < 2 ∨ r.2 ≠ none) ∧ Stage d p none r.1) ∨
      (2 ≤ n ∧ r.2 = none ∧ Stage d p (some (pieces.take (n - 2)).flatten) r.1) := by
  rcases n with _ | _ | k
  · exact .inl ⟨.inl (by decide), .early (d.prepares_refl p)⟩
  · have hprepares := Disk.prepares_perform d p
    have hrun : run d ((steps p pieces).take 1) = (Step.makeDirs (Path.parent p)).perform d := by
      rw [steps, List.take_succ_cons, List.take_zero, run_singleton]
    simp only [hrun]
    exact .inl ⟨.inl (by decide), .early hprepares⟩
  · have htake : (steps p pieces).take (k + 2) = .makeDirs (Path.parent p) ::
        .truncate (temporary p) :: (pieces.take k).map (.append (temporary p)) := by
      have hk : k ≤ (pieces.map (Step.append (temporary p))).length := by
        rw [List.length_map]
        omega
      rw [steps, List.take_succ_cons, List.take_succ_cons, List.take_append_of_le_length hk,
        List.map_take]
    simp only [htake]
    rcases stage_run_pieces d p (pieces.take k) with ⟨hfailed, hstage⟩ | ⟨hdone, hstage⟩
    · exact .inl ⟨.inr hfailed, hstage⟩
    · exact .inr ⟨by omega, hdone, hstage⟩

/-- How a write ends: it fails before the temporary file is there, or it is as the renaming goes. -/
theorem run_steps (d : Disk) (p : String) (pieces : List (List UInt8)) :
    ((run d (steps p pieces)).2 ≠ none ∧ Stage d p none (run d (steps p pieces)).1) ∨
      ∃ d₂, Stage d p (some pieces.flatten) d₂ ∧
        run d (steps p pieces) = d₂.attempt (·.rename (temporary p) p) := by
  have hsteps : steps p pieces = (.makeDirs (Path.parent p) :: .truncate (temporary p) ::
      pieces.map (.append (temporary p))) ++ [.rename (temporary p) p] := rfl
  have hstage := stage_run_pieces d p pieces
  rw [hsteps, run_append, run_singleton]
  rcases hstage with ⟨hfailed, hearly⟩ | ⟨hdone, hlate⟩
  · rw [if_neg hfailed]
    exact .inl ⟨hfailed, hearly⟩
  · rw [if_pos hdone]
    exact .inr ⟨_, hlate, rfl⟩

/-- A write of the document at `p` has come to nothing, but for its temporary file and for directories
that are new. The document is as it was, and its path names what it named before, if that is within
reach. -/
structure Spares (d d' : Disk) (p : String) : Prop where
  document : d.KeepsFile d' p
  entry_eq : d.WithinReach p → (d'.entry p).toOption = (d.entry p).toOption
  others : d.ChangesOnly d' [temporary p]

namespace Stage

variable {w : Option (List UInt8)}

theorem keeps (h : Stage d p w d') : d.Keeps d' := by
  cases h with
  | early prepares => exact prepares.grows.keeps
  | late prepares _ _ free sets => exact prepares.grows.keeps.trans (sets.keeps free)

theorem isTree (h : Stage d p w d') (htree : d.IsTree) : d'.IsTree := by
  cases h with
  | early prepares => exact prepares.isTree htree
  | late prepares leads _ free sets =>
    exact sets.isTree (prepares.isTree htree) free fun _ => leads.isDirectory_up

/-- Only the temporary file is changed. -/
theorem changesOnly (h : Stage d p w d') : d.ChangesOnly d' [temporary p] := by
  refine ⟨h.keeps, fun l hl => ?_⟩
  cases h with
  | early prepares => exact prepares.grows l
  | @late d₁ _ m _ _ prepares leads _ free sets =>
    have hne : l ≠ m := by
      rintro rfl
      exact hl (temporary p) List.mem_cons_self (leads.of_keeps (sets.keeps free))
    rw [Disk.IsDirectory, sets.elsewhere hne]
    exact prepares.grows l

/-- The document is kept, unless it is the temporary file. -/
theorem keepsFile (h : Stage d p w d') (hw : w = none ∨ temporary p ≠ p) : d.KeepsFile d' p := by
  refine ⟨fun l hl => hl.of_keeps h.keeps, fun hslash l hl => ?_⟩
  cases h with
  | early prepares => exact Disk.fileAt?_eq_of_grown (prepares.grows l)
  | @late d₁ _ m _ _ prepares leads _ _ sets =>
    have hne : l ≠ m := by
      rintro rfl
      exact hw.resolve_left (by simp)
        (Path.temporary_eq_of_place?_eq hl leads.place?_eq hslash)
    rw [Disk.fileAt?_congr (sets.elsewhere hne)]
    exact Disk.fileAt?_eq_of_grown (prepares.grows l)

/-- What is there at a place to which the document's path leads is as the directories left it, or the
path ends in a slash and the temporary file was put there. -/
theorem at?_place (h : Stage d p w d') (hw : w = none ∨ temporary p ≠ p) :
    ∃ d₁, d.Prepares d₁ p ∧ d'.Keeps d₁ ∧ d₁.Keeps d' ∧
      ∀ t, d'.follow p = .ok t → d'.at? t.place = d₁.at? t.place ∨
        Path.endsInSlash p = true ∧ (∃ l name, t = .named l name) ∧
          ¬ d₁.IsDirectory t.place ∧ ¬ d'.IsDirectory t.place := by
  cases h with
  | early prepares => exact ⟨d', prepares, fun _ h => h, fun _ h => h, fun _ _ => .inl rfl⟩
  | @late d₁ _ m _ _ prepares leads _ free sets =>
    have hback := sets.keeps_back leads.ne_root
    refine ⟨d₁, prepares, hback, sets.keeps free, fun t ht => ?_⟩
    by_cases hm : t.place = m
    · refine .inr ?_
      have hfree : ¬ d'.IsDirectory m := fun hdir => free (hback m hdir)
      have hnamed : ∃ l name, t = .named l name := by
        cases t with
        | named l name => exact ⟨l, name, rfl⟩
        | dots l =>
          have hrooted := (Disk.rooted_of_walk .root (Disk.walk_of_follow ht).2).1 l rfl
          exact absurd (hm ▸ hrooted.isDirectory) hfree
      obtain ⟨l, name, rfl⟩ := hnamed
      refine ⟨?_, ⟨l, name, rfl⟩, hm ▸ free, hm ▸ hfree⟩
      rw [← Bool.not_eq_false]
      intro hslash
      have hplace : Path.place? p = some m := by
        rw [← hm]
        exact Disk.aim?_of_walk (Disk.walk_of_follow ht).2
      exact hw.resolve_left (by simp)
        (Path.temporary_eq_of_place?_eq hplace leads.place?_eq hslash)
    · exact .inl (sets.elsewhere hm)

/-- The document's path names what it named before, if that is within reach.

**Proof sketch.** A path that could be followed leads where it led before, and no directory was created
then. A path that could not be followed leads to a new directory now, in which there is nothing. -/
theorem entry_eq (h : Stage d p w d') (htree : d.IsTree) (hw : w = none ∨ temporary p ≠ p)
    (hreach : d.WithinReach p) : (d'.entry p).toOption = (d.entry p).toOption := by
  obtain ⟨d₁, prepares, hback, hforth, hplace⟩ := h.at?_place hw
  cases hfollow : d.follow p with
  | ok t =>
    obtain rfl := prepares.eq_of_follow t hfollow
    have hfollow' := Disk.follow_of_keeps hforth hfollow
    rcases hplace t hfollow' with hat | ⟨hslash, ⟨l, name, rfl⟩, hfree, hfree'⟩
    · rw [Disk.entry_congr hfollow hfollow' hat]
    · rw [Disk.entry_toOption_of_slash hfollow hslash hfree,
        Disk.entry_toOption_of_slash hfollow' hslash hfree']
  | error e =>
    rw [Disk.entry_of_follow_error hfollow]
    cases hentry : d'.entry p with
    | error e' => rfl
    | ok x =>
      exfalso
      obtain ⟨t, hfollow', hat'⟩ := Disk.exists_follow_of_entry hentry
      have hfollow₁ := Disk.follow_of_keeps hback hfollow'
      have hmissing := (Disk.follow_of_grows prepares.grows hfollow₁).resolve_left (by simp [hfollow])
      obtain ⟨hgone, hsame⟩ := prepares.new_of_follow htree
        (hreach.resolve_right (not_not_intro hmissing)) hfollow hfollow₁
      cases t with
      | dots l =>
        have hrooted := (Disk.rooted_of_walk .root (Disk.walk_of_follow hfollow₁).2).1 l rfl
        obtain ⟨id, hid⟩ := hrooted.isDirectory
        exact hgone ⟨id, hsame.symm.trans hid⟩
      | named l name =>
        have hnothing : d.at? (l.child name) = none := by
          by_contra hthere
          exact hgone (htree l name hthere)
        rcases hplace _ hfollow' with hat | ⟨hslash, -, -, hfree'⟩
        · rw [hat', hsame] at hat
          simp [Disk.Target.place, hnothing] at hat
        · have hslashed := Disk.entry_toOption_of_slash hfollow' hslash hfree'
          rw [hentry] at hslashed
          cases hslashed

/-- A write that is stopped before the renaming has come to nothing. -/
theorem spares (h : Stage d p w d') (htree : d.IsTree) (hw : w = none ∨ temporary p ≠ p) :
    Spares d d' p :=
  ⟨h.keepsFile hw, h.entry_eq htree hw, h.changesOnly⟩

end Stage

/-- A write of the document at `p` was stopped before the renaming, at a stage at which it has not
changed the document: if the temporary file was written, that is another file. -/
def Stopped (d d' : Disk) (p : String) : Prop :=
  ∃ w, Stage d p w d' ∧ (w = none ∨ temporary p ≠ p)

namespace Stopped

theorem refl (d : Disk) (p : String) : Stopped d d p :=
  ⟨none, .early (d.prepares_refl p), .inl rfl⟩

theorem keepsFile (h : Stopped d d' p) : d.KeepsFile d' p := by
  obtain ⟨w, hstage, hw⟩ := h
  exact hstage.keepsFile hw

theorem changesOnly (h : Stopped d d' p) : d.ChangesOnly d' [temporary p] := by
  obtain ⟨w, hstage, -⟩ := h
  exact hstage.changesOnly

theorem spares (h : Stopped d d' p) (htree : d.IsTree) : Spares d d' p := by
  obtain ⟨w, hstage, hw⟩ := h
  exact hstage.spares htree hw

end Stopped

namespace Stage

/-! ## The renaming -/

/-- A document that was written through its temporary file is there, and the temporary file is gone,
unless it is the document. -/
theorem of_rename {d₂ : Disk} (h : Stage d p (some written) d₂)
    (hok : d₂.rename (temporary p) p = .ok d') :
    d'.read? p = some written ∧
      (temporary p ≠ p → d'.identity? (temporary p) = none) ∧ d.ChangesOnly d' [p, temporary p] := by
  obtain ⟨hstay, hchanges⟩ := h.changesOnly
  cases h with
  | @late d₁ _ m id _ _ leads _ free sets =>
    have hleads : d₂.Leads (temporary p) m := leads.of_keeps (sets.keeps free)
    obtain ⟨m', n, id', content, d₃, hleads', hleadsP, hslash, hat, hn, hdrop, hset⟩ :=
      Disk.sets_of_rename hok
    obtain rfl := hleads'.unique hleads
    obtain ⟨rfl, rfl⟩ : id = id' ∧ written = content := by
      simpa using (sets.here leads.ne_root).symm.trans hat
    have hkeeps : d₂.Keeps d' :=
      (hdrop.keeps (by simp [Disk.IsDirectory, hat])).trans
        (hset.keeps (hdrop.not_isDirectory leads.ne_root hn))
    have hthere := hset.here hleadsP.ne_root
    refine ⟨Disk.read?_eq_some_iff.mpr ⟨n, id, hleadsP.of_keeps hkeeps, hthere, hslash⟩,
      fun hne => ?_, hstay.trans hkeeps, fun l hl => ?_⟩
    · have hother : m' ≠ n := by
        rintro rfl
        exact hne (Path.temporary_eq_of_place?_eq hleadsP.place?_eq leads.place?_eq hslash)
      refine (hleads.of_keeps hkeeps).identity?_eq_none ?_
      rw [hset.elsewhere hother, hdrop.here leads.ne_root]
    · have hn' : l ≠ n := by
        rintro rfl
        exact hl p List.mem_cons_self (hleadsP.of_keeps hkeeps)
      have hm' : l ≠ m' := by
        rintro rfl
        exact hl (temporary p) (by simp) (hleads.of_keeps hkeeps)
      rw [Disk.IsDirectory, hset.elsewhere hn', hdrop.elsewhere hm']
      refine hchanges l fun q hq hleadsQ => ?_
      obtain rfl := List.mem_singleton.mp hq
      exact hm' (hleadsQ.unique hleads)

/-- A renaming fails only where the temporary file is another one than the document, since a file can
be renamed over itself. -/
theorem temporary_ne_of_rename_error {d₂ : Disk} {e : OsError} (h : Stage d p (some written) d₂)
    (herror : d₂.rename (temporary p) p = .error e) : temporary p ≠ p := by
  intro hsame
  cases h with
  | late _ leads slash free sets =>
    have hleads := leads.of_keeps (sets.keeps free)
    have hthere := sets.here leads.ne_root
    rw [hsame] at hleads slash herror
    rw [Disk.rename_eq_ok hleads hleads hthere slash slash] at herror
    cases herror

end Stage

end AtomicWrite

end DenialMonitor
