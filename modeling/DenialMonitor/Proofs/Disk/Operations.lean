import DenialMonitor.Disk.Change
import DenialMonitor.Proofs.Disk.Following

set_option autoImplicit false

/-!
# What operations do to a disk

An operation on a file sets one entry, which is not a directory, and creating directories adds
directories where nothing was. So directories stay directories, unless they are removed as such,
and a disk that is a tree stays one.

## Main definitions

* `Disk.Sets` — one entry is set, and the others stay.
* `Disk.Grows` — directories are added, and everything else stays.

## Main results

* `Disk.sets_of_write`, `Disk.sets_of_append`, `Disk.sets_of_rename`, `Disk.sets_of_remove` — what
  an operation on files sets.
* `Disk.grows_makeDirs` — creating directories.
* `Disk.IsTree.apply` — a disk that is a tree stays one.
-/

namespace DenialMonitor.Disk

variable {d d' : Disk} {l m n : Location} {e : Option Entry} {p q : String} {content : List UInt8}

/-! ## Entries that are set -/

/-- The entry at `m` is set to `e`, and the others stay. -/
def Sets (d d' : Disk) (m : Location) (e : Option Entry) : Prop :=
  ∀ l, l ≠ .root → d'.at? l = if l = m then e else d.at? l

theorem sets_put (d : Disk) (m : Location) (e : Entry) : d.Sets (d.put m e) m (some e) :=
  fun l hl => at?_put d l m e hl

theorem sets_create (d : Disk) (m : Location) (node : Node) :
    d.Sets (d.create m node) m (some ⟨⟨d.nextId⟩, node⟩) :=
  fun l hl => at?_create d l m node hl

theorem sets_drop (d : Disk) (m : Location) : d.Sets (d.drop m) m none :=
  fun l hl => at?_drop d l m hl

/-- The entry that was set. -/
theorem Sets.here (h : d.Sets d' m e) (hm : m ≠ .root) : d'.at? m = e := by
  rw [h m hm, if_pos rfl]

/-- An entry that was not set. -/
theorem Sets.elsewhere (h : d.Sets d' m e) (hl : l ≠ m) : d'.at? l = d.at? l := by
  by_cases hroot : l = .root
  · rw [hroot, at?_root, at?_root]
  · rw [h l hroot, if_neg hl]

/-- Setting what is no directory keeps the directories. -/
theorem Sets.keeps (h : d.Sets d' m e) (hm : ¬ d.IsDirectory m) : d.Keeps d' := by
  intro l hl
  have hne : l ≠ m := fun hlm => hm (hlm ▸ hl)
  rw [IsDirectory, h.elsewhere hne]
  exact hl

/-- Taking an entry away makes no directory. -/
theorem Sets.not_isDirectory (h : d.Sets d' m none) (hm : m ≠ .root) (hn : ¬ d.IsDirectory n) :
    ¬ d'.IsDirectory n := by
  rintro ⟨id, hid⟩
  by_cases hnm : n = m
  · simp [hnm, h.here hm] at hid
  · exact hn ⟨id, by rw [← h.elsewhere hnm, hid]⟩

/-- Setting an entry of a directory, which is no directory itself, keeps a tree a tree. -/
theorem Sets.isTree (h : d.Sets d' m e) (htree : d.IsTree) (hm : ¬ d.IsDirectory m)
    (habove : e ≠ none → d.IsDirectory m.up) : d'.IsTree := by
  intro l name hentry
  refine h.keeps hm l ?_
  by_cases hlm : l.child name = m
  · rw [← Location.up_child l name, hlm]
    refine habove ?_
    rwa [hlm, h.here (hlm ▸ Location.child_ne_root l name)] at hentry
  · rw [h.elsewhere hlm] at hentry
    exact htree l name hentry

/-- A path leads to an entry of a directory. -/
theorem Leads.isDirectory_up (h : d.Leads p m) : d.IsDirectory m.up := by
  obtain ⟨l, name, hp, -, rfl⟩ := h
  rw [Location.up_child]
  exact ((rooted_of_walk .root (walk_of_follow hp).2).2 l name rfl).isDirectory

/-! ## Operations on files -/

/-- The lookup of a name that is short enough. -/
theorem lookup_eq {name : String} (h : name.utf8ByteSize ≤ maxName) :
    d.lookup l name = .ok (d.at? (l.child name)) :=
  if_neg (Nat.not_lt.mpr h)

theorem lookup_eq_ok {name : String} {x : Option Entry} (h : d.lookup l name = .ok x) :
    name.utf8ByteSize ≤ maxName ∧ d.at? (l.child name) = x := by
  unfold lookup at h
  split at h
  · simp at h
  · next hsize => exact ⟨Nat.not_lt.mp hsize, Except.ok.inj h⟩

/-- What `attempt` leaves behind where it succeeds. -/
theorem attempt_eq_none {f : Disk → Except OsError Disk} (h : d.attempt f = (d', none)) :
    f d = .ok d' := by
  unfold attempt at h
  split at h
  · next d₁ hok => rw [hok, (Prod.mk.inj h).1]
  · simp at h

/-- What `attempt` leaves behind where it fails. -/
theorem attempt_eq_some {f : Disk → Except OsError Disk} {e : OsError}
    (h : d.attempt f = (d', some e)) : f d = .error e ∧ d' = d := by
  unfold attempt at h
  split at h
  · simp at h
  · next e' herror =>
    obtain ⟨rfl, he⟩ := Prod.mk.inj h
    exact ⟨Option.some.inj he ▸ herror, rfl⟩

/-- Writing a file sets its entry. -/
theorem sets_of_write (h : d.write p content = .ok d') :
    ∃ m id, d.Leads p m ∧ Path.endsInSlash p = false ∧ ¬ d.IsDirectory m ∧
      d.Sets d' m (some ⟨id, .file content⟩) := by
  simp only [write, bind, Except.bind] at h
  split at h
  · simp at h
  next t hp =>
  split at h
  · simp at h
  next l name =>
  split at h
  · simp at h
  next hslash =>
  split at h
  · simp at h
  next x hlookup =>
  obtain ⟨hsize, hat⟩ := lookup_eq_ok hlookup
  have hleads : d.Leads p (l.child name) := ⟨l, name, hp, hsize, rfl⟩
  split at h
  · simp at h
  · next id old =>
    obtain rfl := Except.ok.inj h
    exact ⟨_, id, hleads, by simpa using hslash, by simp [IsDirectory, hat], sets_put d _ _⟩
  · obtain rfl := Except.ok.inj h
    exact ⟨_, _, hleads, by simpa using hslash, by simp [IsDirectory, hat], sets_create d _ _⟩

/-- Writing behind the end of a file sets its entry. -/
theorem sets_of_append (h : d.append p content = .ok d') :
    ∃ m id old, d.Leads p m ∧ d.at? m = some ⟨id, .file old⟩ ∧
      d.Sets d' m (some ⟨id, .file (old ++ content)⟩) := by
  simp only [append, bind, Except.bind] at h
  split at h
  · simp at h
  next t hp =>
  split at h
  · simp at h
  next l name =>
  split at h
  · simp at h
  next x hlookup =>
  obtain ⟨hsize, hat⟩ := lookup_eq_ok hlookup
  split at h
  · simp at h
  · simp at h
  · next id old =>
    split at h
    · simp at h
    · obtain rfl := Except.ok.inj h
      exact ⟨_, id, old, ⟨l, name, hp, hsize, rfl⟩, hat, sets_put d _ _⟩

/-- A file can be written behind its end. -/
theorem append_eq_ok {id : FileId} {old : List UInt8} (hleads : d.Leads p m)
    (hat : d.at? m = some ⟨id, .file old⟩) (hslash : Path.endsInSlash p = false) :
    ∃ d', d.append p content = .ok d' := by
  obtain ⟨l, name, hp, hsize, rfl⟩ := hleads
  refine ⟨d.put (l.child name) ⟨id, .file (old ++ content)⟩, ?_⟩
  simp [append, bind, Except.bind, hp, lookup_eq hsize, hat, hslash]

/-- Renaming a file takes its entry away and sets that of the other path. -/
theorem sets_of_rename (h : d.rename p q = .ok d') :
    ∃ m n id content d₁, d.Leads p m ∧ d.Leads q n ∧ Path.endsInSlash q = false ∧
      d.at? m = some ⟨id, .file content⟩ ∧ ¬ d.IsDirectory n ∧ d.Sets d₁ m none ∧
      d₁.Sets d' n (some ⟨id, .file content⟩) := by
  simp only [rename, bind, Except.bind] at h
  split at h
  · simp at h
  next t hp =>
  split at h
  · simp at h
  next t' hq =>
  split at h
  case h_2 => simp at h
  next l a k b =>
  split at h
  · simp at h
  next x hlookup =>
  obtain ⟨hsize, hat⟩ := lookup_eq_ok hlookup
  split at h
  · simp at h
  · simp at h
  next id content =>
  split at h
  · simp at h
  next y hlookup' =>
  obtain ⟨hsize', hat'⟩ := lookup_eq_ok hlookup'
  split at h
  · simp at h
  next hslash =>
  simp only [not_or, Bool.not_eq_true] at hslash
  have hleads : d.Leads p (l.child a) := ⟨l, a, hp, hsize, rfl⟩
  have hleads' : d.Leads q (k.child b) := ⟨k, b, hq, hsize', rfl⟩
  split at h
  · simp at h
  next hfree =>
  have hdirectory : ¬ d.IsDirectory (k.child b) := by
    rintro ⟨id', hid'⟩
    exact hfree id' (hat'.symm.trans hid')
  refine ⟨l.child a, k.child b, id, content, d.drop (l.child a), hleads, hleads', hslash.2, hat,
    hdirectory, sets_drop d _, ?_⟩
  split at h
  · next hsame =>
    obtain rfl := Except.ok.inj h
    intro m hm
    rw [at?_drop d m _ hm, ← hsame]
    split
    · next hma => rw [hma, hat]
    · rfl
  · obtain rfl := Except.ok.inj h
    exact sets_put _ _ _

/-- A file can be renamed over itself. -/
theorem rename_eq_ok {id : FileId} (hleads : d.Leads p m) (hleads' : d.Leads q m)
    (hat : d.at? m = some ⟨id, .file content⟩) (hslash : Path.endsInSlash p = false)
    (hslash' : Path.endsInSlash q = false) : d.rename p q = .ok d := by
  obtain ⟨l, name, hp, hsize, rfl⟩ := hleads
  obtain ⟨l', name', hq, -, hchild⟩ := hleads'
  obtain ⟨rfl, rfl⟩ := Location.child_inj.mp hchild
  simp [rename, bind, Except.bind, hp, hq, lookup_eq hsize, hat, hslash, hslash']

/-- Removing a file takes its entry away. -/
theorem sets_of_remove (h : d.remove p = .ok d') :
    ∃ m, d.Leads p m ∧ ¬ d.IsDirectory m ∧ d.Sets d' m none := by
  simp only [remove, bind, Except.bind] at h
  split at h
  · simp at h
  next t hp =>
  split at h
  · simp at h
  next l name =>
  split at h
  · simp at h
  next x hlookup =>
  obtain ⟨hsize, hat⟩ := lookup_eq_ok hlookup
  split at h
  · simp at h
  · simp at h
  · split at h
    · simp at h
    · obtain rfl := Except.ok.inj h
      exact ⟨_, ⟨l, name, hp, hsize, rfl⟩, by simp [IsDirectory, hat], sets_drop d _⟩

/-! ## Directories -/

/-- Directories are added where nothing was, and everything else stays. -/
def Grows (d d' : Disk) : Prop :=
  ∀ l, d'.at? l = d.at? l ∨ d.at? l = none ∧ d'.IsDirectory l

theorem grows_refl (d : Disk) : d.Grows d :=
  fun _ => .inl rfl

/-- What is there stays. -/
theorem Grows.at?_eq (h : d.Grows d') (hl : d.at? l ≠ none) : d'.at? l = d.at? l :=
  (h l).resolve_right fun hnone => hl hnone.1

theorem Grows.keeps (h : d.Grows d') : d.Keeps d' := by
  rintro l ⟨id, hid⟩
  exact ⟨id, by rw [h.at?_eq (by simp [hid]), hid]⟩

theorem Grows.trans {d'' : Disk} (h : d.Grows d') (h' : d'.Grows d'') : d.Grows d'' := by
  intro l
  rcases h' l with hl | ⟨hnone, hdir⟩
  · rcases h l with hl' | ⟨hnone, hdir⟩
    · exact .inl (hl.trans hl')
    · exact .inr ⟨hnone, by rwa [IsDirectory, hl]⟩
  · rcases h l with hl' | ⟨hnone', -⟩
    · exact .inr ⟨hl' ▸ hnone, hdir⟩
    · exact .inr ⟨hnone', hdir⟩

theorem grows_create (h : d.at? m = none) : d.Grows (d.create m .directory) := by
  have hm : m ≠ .root := fun hroot => by simp [hroot] at h
  intro l
  by_cases hl : l = m
  · subst hl
    exact .inr ⟨h, _, (sets_create d l .directory).here hm⟩
  · exact .inl ((sets_create d m .directory).elsewhere hl)

theorem Rooted.of_keeps (h : d.Rooted l) (hkeeps : d.Keeps d') : d'.Rooted l := by
  induction h with
  | root => exact .root
  | child _ here ih => exact .child ih (hkeeps _ here)

/-- Creating directories along a way adds directories, and keeps a tree a tree.

**Proof sketch.** By induction on the parts that are left. The place that was reached is a
directory with directories above it, so a directory that is created there is in a directory. -/
theorem grows_makeDirsAlong (parts : List String) (hl : d.Rooted l) (endsInDot created : Bool) :
    d.Grows (d.makeDirsAlong l endsInDot created parts).1 ∧
      (d.IsTree → (d.makeDirsAlong l endsInDot created parts).1.IsTree) := by
  induction parts generalizing d l created with
  | nil => exact ⟨grows_refl d, id⟩
  | cons name parts ih =>
    simp only [makeDirsAlong]
    split
    · exact ih hl.up created
    · split
      · exact ⟨grows_refl d, id⟩
      · next id hlookup =>
        exact ih (.child hl ⟨id, (lookup_eq_ok hlookup).2⟩) created
      · exact ⟨grows_refl d, fun h => h⟩
      · next hlookup =>
        have hnone := (lookup_eq_ok hlookup).2
        split
        · exact ⟨grows_refl d, id⟩
        · have hgrows := grows_create hnone
          have hsets := sets_create d (l.child name) .directory
          have hchild : (d.create (l.child name) .directory).Rooted (l.child name) :=
            .child (hl.of_keeps hgrows.keeps) ⟨_, hsets.here (Location.child_ne_root l name)⟩
          obtain ⟨hmore, htree⟩ := ih hchild true
          refine ⟨hgrows.trans hmore, fun h => htree (hsets.isTree h ?_ fun _ => ?_)⟩
          · simp [IsDirectory, hnone]
          · rw [Location.up_child]
            exact hl.isDirectory

/-- Creating directories adds directories. -/
theorem grows_makeDirs (d : Disk) (p : String) : d.Grows (d.makeDirs p).1 := by
  unfold makeDirs
  split
  · exact grows_refl d
  · exact (grows_makeDirsAlong _ .root _ false).1

theorem IsTree.makeDirs (h : d.IsTree) (p : String) : (d.makeDirs p).1.IsTree := by
  unfold Disk.makeDirs
  split
  · exact h
  · exact (grows_makeDirsAlong _ .root _ false).2 h

/-! ## Trees -/

theorem isTree_empty : empty.IsTree := by
  intro l name h
  simp [at?, empty, Location.child_ne_root] at h

/-- An operation that may fail keeps a tree a tree if it does so where it succeeds. -/
theorem IsTree.attempt (h : d.IsTree) {f : Disk → Except OsError Disk}
    (hf : ∀ d', f d = .ok d' → d'.IsTree) : (d.attempt f).1.IsTree := by
  unfold Disk.attempt
  split
  · next d' hok => exact hf d' hok
  · exact h

theorem IsTree.write (h : d.IsTree) (hok : d.write p content = .ok d') : d'.IsTree := by
  obtain ⟨m, id, hleads, -, hm, hsets⟩ := sets_of_write hok
  exact hsets.isTree h hm fun _ => hleads.isDirectory_up

theorem IsTree.append (h : d.IsTree) (hok : d.append p content = .ok d') : d'.IsTree := by
  obtain ⟨m, id, old, hleads, hat, hsets⟩ := sets_of_append hok
  exact hsets.isTree h (by simp [IsDirectory, hat]) fun _ => hleads.isDirectory_up

theorem IsTree.rename (h : d.IsTree) (hok : d.rename p q = .ok d') : d'.IsTree := by
  obtain ⟨m, n, id, content, d₁, hleads, hleads', -, hat, hn, hdrop, hsets⟩ := sets_of_rename hok
  have hm : ¬ d.IsDirectory m := by simp [IsDirectory, hat]
  have htree : d₁.IsTree := hdrop.isTree h hm fun hne => absurd rfl hne
  exact hsets.isTree htree (hdrop.not_isDirectory hleads.ne_root hn) fun _ =>
    hdrop.keeps hm _ hleads'.isDirectory_up

theorem IsTree.remove (h : d.IsTree) (hok : d.remove p = .ok d') : d'.IsTree := by
  obtain ⟨m, -, hm, hsets⟩ := sets_of_remove hok
  exact hsets.isTree h hm fun hne => absurd rfl hne

/-- What lies below a location is taken away, and the rest stays. -/
theorem at?_clear (d : Disk) (l m : Location) (hm : m ≠ .root) :
    (d.clear l).at? m = if m = l ∨ l.holds m = false then d.at? m else none := by
  simp only [at?, hm, if_false, clear, List.find?_filter]
  split
  · next hkeep =>
    congr 2
    funext x
    by_cases hx : x.1 = m
    · rcases hkeep with rfl | hkeep <;> simp_all
    · simp [hx]
  · next hgone =>
    rw [Option.map_eq_none_iff, List.find?_eq_none]
    intro x _
    by_cases hx : x.1 = m
    · simp_all
    · simp [hx]

/-- An entry of a directory lies below whatever the directory lies below. -/
theorem holds_child (h : l.holds m = true) (name : String) : l.holds (m.child name) = true := by
  simp only [Location.holds, Location.child, List.isSuffixOf_iff_suffix] at h ⊢
  exact h.trans (List.suffix_cons _ _)

/-- A location does not lie below its own entries. -/
theorem not_holds_of_child (m : Location) (name : String) : (m.child name).holds m = false := by
  rw [← Bool.not_eq_true]
  intro h
  have hlength := (List.isSuffixOf_iff_suffix.mp h).length_le
  simp only [Location.child, List.length_cons] at hlength
  omega

/-- Clearing a directory keeps a tree a tree, and leaves nothing in it. -/
theorem IsTree.clear (h : d.IsTree) (l : Location) :
    (d.clear l).IsTree ∧ ∀ name, (d.clear l).at? (l.child name) = none := by
  have hself : l.holds l = true := List.isSuffixOf_iff_suffix.mpr (List.suffix_refl _)
  refine ⟨fun m name hentry => ?_, fun name => ?_⟩
  · have hroot := Location.child_ne_root m name
    rw [at?_clear d l _ hroot] at hentry
    split at hentry
    · next hkeep =>
      obtain ⟨id, hid⟩ := h m name hentry
      by_cases hm : m = .root
      · exact hm ▸ isDirectory_root _
      · refine ⟨id, ?_⟩
        rw [at?_clear d l m hm, if_pos ?_, hid]
        by_cases hholds : l.holds m = true
        · rcases hkeep with hkeep | hkeep
          · rw [← hkeep, not_holds_of_child] at hholds
            simp at hholds
          · simp [holds_child hholds] at hkeep
        · exact .inr (by simpa using hholds)
    · simp at hentry
  · rw [at?_clear d l _ (Location.child_ne_root l name), if_neg]
    rintro (hchild | hholds)
    · simpa [Location.child] using congrArg Location.depth hchild
    · simp [holds_child hself] at hholds

/-- Taking away an entry in which there is nothing keeps a tree a tree. -/
theorem IsTree.drop (h : d.IsTree) (hm : m ≠ .root) (hnone : ∀ name, d.at? (m.child name) = none) :
    (d.drop m).IsTree := by
  intro l name hentry
  have hsets := sets_drop d m
  by_cases hchild : l.child name = m
  · rw [hchild, hsets.here hm] at hentry
    exact absurd rfl hentry
  · rw [hsets.elsewhere hchild] at hentry
    have hlm : l ≠ m := by
      rintro rfl
      exact hentry (hnone name)
    rw [IsDirectory, hsets.elsewhere hlm]
    exact h l name hentry

theorem IsTree.removeDir (h : d.IsTree) (p : String) : (d.removeDir p).1.IsTree := by
  unfold Disk.removeDir
  split
  · exact h
  · exact h
  · exact h
  · next l name _ _ =>
    exact (h.clear _).1.drop (Location.child_ne_root l name) (h.clear _).2
  · exact (h.clear _).1

/-- A disk that is a tree stays one, whatever someone does to it. -/
theorem IsTree.apply (h : d.IsTree) (c : DiskChange) : (d.apply c).1.IsTree := by
  cases c with
  | write path content => exact h.attempt fun _ hok => h.write hok
  | append path content => exact h.attempt fun _ hok => h.append hok
  | rename source target => exact h.attempt fun _ hok => h.rename hok
  | remove path => exact h.attempt fun _ hok => h.remove hok
  | makeDirs path => exact h.makeDirs path
  | removeDir path => exact h.removeDir path

end DenialMonitor.Disk
