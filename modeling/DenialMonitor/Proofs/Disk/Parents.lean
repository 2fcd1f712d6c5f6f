import DenialMonitor.Proofs.Disk.Operations
import DenialMonitor.Proofs.Disk.Places

set_option autoImplicit false

/-!
# The directories above a document

Before a document is written the directories above it are created. That adds directories only, and
none in the place of the document unless its path goes up through `..`. Where the path could be
followed already, nothing is added at all.

## Main definitions

* `Disk.WithinReach` — creating missing directories does not bring what a path names into reach.
* `Disk.Prepares` — a disk after the directories above a document were created, or some of them.

## Main results

* `Path.parts_parent` — the directory above a document has all its parts but the last.
* `Disk.makeDirsAlong_of_walk` — along a way that leads through directories none is created.
* `Disk.at?_makeDirsAlong` — no directory is created deeper than the way is long.
* `Disk.prepares_perform` — creating the directories above a document prepares for it.
* `Disk.Prepares.new_of_follow` — what a path without `..` leads to only then is in a new directory.
-/

namespace DenialMonitor

namespace Path

variable {p : String}

/-! ## Parts -/

/-- Without the segments at its end that say nothing a path is empty or ends in a part. -/
theorem trimEnd_eq (segs : List String) :
    trimEnd segs = [] ∨ ∃ above last, trimEnd segs = above ++ [last] ∧ isPart last = true := by
  unfold trimEnd
  cases hdrop : segs.reverse.dropWhile fun s => !isPart s with
  | nil => exact .inl rfl
  | cons last above =>
    have hlast := List.head?_dropWhile_not (fun s => !isPart s) segs.reverse
    rw [hdrop] at hlast
    exact .inr ⟨above.reverse, last, by simp, by simpa using hlast⟩

/-- The segments at the start that say nothing are no parts. -/
theorem filter_dropWhile (segs : List String) :
    (segs.dropWhile fun s => !isPart s).filter isPart = segs.filter isPart := by
  induction segs with
  | nil => rfl
  | cons s segs ih => cases hs : isPart s <;> simp [hs, ih]

/-- Nor are the segments at the end that say nothing. -/
theorem filter_trimEnd (segs : List String) : (trimEnd segs).filter isPart = segs.filter isPart := by
  rw [trimEnd, List.filter_reverse, filter_dropWhile, List.filter_reverse, List.reverse_reverse]

theorem trimEnd_subset (segs : List String) : trimEnd segs ⊆ segs := by
  intro s hs
  exact List.mem_reverse.mp ((List.dropWhile_sublist _).subset (List.mem_reverse.mp hs))

/-- The parts of the directory above a document are those of the document but for the last. -/
theorem filter_dropLast_trimEnd (segs : List String) :
    (trimEnd segs).dropLast.filter isPart = (segs.filter isPart).dropLast := by
  rw [← filter_trimEnd segs]
  rcases trimEnd_eq segs with hnil | ⟨above, last, heq, hlast⟩
  · rw [hnil]
    rfl
  · simp [heq, List.filter_append, hlast]

/-- The directory above a document has all its parts but the last. -/
theorem parts_parent (p : String) : parts (parent p) = (parts p).dropLast := by
  have hfilter : (trimEnd (trimEnd (segments p)).dropLast).filter isPart = (parts p).dropLast := by
    rw [filter_trimEnd, filter_dropLast_trimEnd, parts]
  rw [← hfilter, parent]
  split
  · next hall =>
    have hnone : (trimEnd (trimEnd (segments p)).dropLast).filter isPart = [] := by
      rw [List.filter_eq_nil_iff]
      intro s hs
      simpa using List.all_eq_true.mp hall s hs
    rw [hnone]
    split <;> decide
  · next hsome =>
    rcases trimEnd_eq (trimEnd (segments p)).dropLast with hnil | ⟨above, last, heq, -⟩
    · simp [hnil] at hsome
    · rw [parts, heq, segments_ofSegments]
      intro seg hseg
      have hmem : seg ∈ (trimEnd (segments p)).dropLast := trimEnd_subset _ (heq ▸ hseg)
      exact slash_not_mem_segments (trimEnd_subset _ (List.dropLast_subset _ hmem))

/-- The parts of a path are its steps that are not `.`. -/
theorem parts_eq_filter_steps (p : String) : parts p = (Path.steps p).filter (· != ".") := by
  rw [parts, Path.steps, List.filter_filter]
  congr 1
  funext s
  simp [isPart, Bool.and_comm]

end Path

namespace Disk

variable {d d' : Disk} {l m : Location} {p : String} {steps : List String}

/-! ## Directories that were added -/

/-- A directory that is added is no file. -/
theorem fileAt?_eq_of_grown (h : d'.at? l = d.at? l ∨ d.at? l = none ∧ d'.IsDirectory l) :
    d'.fileAt? l = d.fileAt? l := by
  rcases h with hsame | ⟨hnone, id, hid⟩
  · exact fileAt?_congr hsame
  · rw [fileAt?, fileAt?, hnone, hid]

/-- Without `..` a walk leads as deep as there are parts on the way. -/
theorem depth_of_walk {t : Target} (h : d.walk l steps = .ok t) (hnoUp : ".." ∉ steps) :
    t.place.depth = l.depth + (steps.filter (· != ".")).length := by
  induction steps generalizing l with
  | nil =>
    rw [walk_nil] at h
    rw [← Except.ok.inj h]
    rfl
  | cons name steps ih =>
    obtain ⟨hname, hrest⟩ := List.ne_and_not_mem_of_not_mem_cons hnoUp
    have hup : name ≠ ".." := fun h => hname h.symm
    by_cases hdot : name = "."
    · subst hdot
      rw [walk_dot] at h
      exact ih h hrest
    have hfilter : (name :: steps).filter (· != ".") = name :: steps.filter (· != ".") := by
      simp [hdot]
    rw [hfilter, List.length_cons]
    by_cases hsteps : steps = []
    · subst hsteps
      rw [walk_last hdot hup] at h
      rw [← Except.ok.inj h]
      rfl
    · have hchild : (l.child name).depth = l.depth + 1 := rfl
      rw [ih ((walk_name hdot hup hsteps).mp h).2.2 hrest, hchild]
      omega

/-! ## Creating directories -/

/-- Along a way that leads through directories none is created. -/
theorem makeDirsAlong_of_walk {t : Target} (h : d.walk l steps = .ok t) (endsInDot created : Bool) :
    d.makeDirsAlong l endsInDot created (steps.filter (· != ".")).dropLast = (d, none) := by
  induction steps generalizing l with
  | nil => rfl
  | cons name steps ih =>
    by_cases hdot : name = "."
    · subst hdot
      rw [walk_dot] at h
      exact ih h
    have hfilter : (name :: steps).filter (· != ".") = name :: steps.filter (· != ".") := by
      simp [hdot]
    rw [hfilter]
    by_cases hlast : steps.filter (· != ".") = []
    · rw [hlast]
      rfl
    rw [List.dropLast_cons_of_ne_nil hlast]
    by_cases hup : name = ".."
    · subst hup
      rw [walk_up] at h
      simpa [makeDirsAlong] using ih h
    · have hsteps : steps ≠ [] := by
        rintro rfl
        exact hlast rfl
      obtain ⟨hsize, ⟨id, hid⟩, hrest⟩ := (walk_name hdot hup hsteps).mp h
      simpa [makeDirsAlong, hup, lookup_eq hsize, hid] using ih hrest

/-- No directory is created deeper than the way is long. -/
theorem at?_makeDirsAlong (parts : List String) (endsInDot created : Bool)
    (hm : l.depth + parts.length < m.depth) :
    (d.makeDirsAlong l endsInDot created parts).1.at? m = d.at? m := by
  induction parts generalizing d l created with
  | nil => rfl
  | cons name parts ih =>
    rw [List.length_cons] at hm
    have hchild : (l.child name).depth + parts.length < m.depth := by
      simp only [Location.child]
      omega
    simp only [makeDirsAlong]
    split
    · refine ih created ?_
      simp only [Location.up]
      omega
    · split
      · rfl
      · exact ih created hchild
      · rfl
      · split
        · rfl
        · have hne : m ≠ l.child name := by
            rintro rfl
            omega
          rw [ih true hchild]
          exact (sets_create d (l.child name) .directory).elsewhere hne

/-! ## Preparing for a document -/

/-- Creating missing directories does not bring what a path names into reach: the path does not go up
through `..`, or it is not for a missing directory that it leads nowhere. -/
def WithinReach (d : Disk) (p : String) : Prop :=
  ".." ∉ Path.steps p ∨ d.follow p ≠ .error .notFound

/-- Directories above the document at `p` were created, all of them or some. -/
structure Prepares (d d' : Disk) (p : String) : Prop where
  grows : d.Grows d'
  isTree : d.IsTree → d'.IsTree
  eq_of_follow : ∀ t, d.follow p = .ok t → d' = d
  at?_eq : ∀ m : Location, (Path.parts p).length ≤ m.depth → d'.at? m = d.at? m

theorem prepares_refl (d : Disk) (p : String) : d.Prepares d p :=
  ⟨grows_refl d, fun h => h, fun _ _ => rfl, fun _ _ => rfl⟩

theorem prepares_makeDirs (d : Disk) (p : String) :
    d.Prepares (d.makeDirs (Path.parent p)).1 p := by
  refine ⟨grows_makeDirs d _, fun h => h.makeDirs _, fun t ht => ?_, fun m hm => ?_⟩
  · unfold makeDirs
    split
    · rfl
    · rw [Path.parts_parent, Path.parts_eq_filter_steps]
      exact congrArg Prod.fst (makeDirsAlong_of_walk (walk_of_follow ht).2 _ false)
  · unfold makeDirs
    split
    · rfl
    · rw [Path.parts_parent]
      by_cases hparts : Path.parts p = []
      · rw [hparts]
        rfl
      · refine at?_makeDirsAlong _ _ false ?_
        have hpos := List.length_pos_iff.mpr hparts
        simp only [Location.root, List.length_dropLast]
        omega

/-- The first step of a write prepares for the document. -/
theorem prepares_perform (d : Disk) (p : String) :
    d.Prepares ((AtomicWrite.Step.makeDirs (Path.parent p)).perform d).1 p := by
  simp only [AtomicWrite.Step.perform]
  split
  · exact prepares_refl d p
  · exact prepares_makeDirs d p

/-- A path without `..` that leads somewhere only since directories were created leads into a directory
that is new, and what it names there is as it was.

**Proof sketch.** If the directory had existed, all directories above it would have, and the path
would have led there. The place is as deep as the path has parts, so no directory was created at
it. -/
theorem Prepares.new_of_follow {t : Target} {e : OsError} (h : d.Prepares d' p) (htree : d.IsTree)
    (hnoUp : ".." ∉ Path.steps p) (hbefore : d.follow p = .error e) (hnow : d'.follow p = .ok t) :
    ¬ d.IsDirectory t.directory ∧ d'.at? t.place = d.at? t.place := by
  obtain ⟨hfollow, hwalk⟩ := walk_of_follow hnow
  refine ⟨fun hdirectory => ?_, h.at?_eq t.place ?_⟩
  · have hwalk' := (walk_of_walk htree hnoUp hdirectory hwalk).2
    rw [hfollow, hwalk'] at hbefore
    cases hbefore
  · rw [depth_of_walk hwalk hnoUp, Path.parts_eq_filter_steps]
    exact Nat.le_add_left _ _

end Disk

end DenialMonitor
