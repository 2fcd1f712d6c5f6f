import DenialMonitor.Disk

set_option autoImplicit false

/-!
# Where paths lead

A path is followed through directories only. So as long as directories stay directories a path
leads where it led before, and a path without `..` leads to the same place on every disk on which
it leads anywhere.

## Main definitions

* `Disk.IsDirectory`, `Disk.Keeps` — directories, and the disks on which they stay.
* `Disk.Rooted` — everything above a place is a directory.
* `Disk.Leads` — a path leads to the place of a file, which need not exist.
* `Disk.IsTree` — whatever exists is in a directory that exists.

## Main results

* `Disk.Leads.of_keeps` — paths lead where they led before.
* `Disk.read?_eq_some_iff` — what it takes to read a file.
* `Disk.IsTree.leads_of_leads` — a path without `..` leads to a file wherever the file exists.
-/

namespace DenialMonitor.Disk

/-! ## Directories -/

/-- There is a directory at a location. -/
def IsDirectory (d : Disk) (l : Location) : Prop :=
  ∃ id, d.at? l = some ⟨id, .directory⟩

/-- Directories of `d` are directories of `d'`. -/
def Keeps (d d' : Disk) : Prop :=
  ∀ l, d.IsDirectory l → d'.IsDirectory l

/-- There is a directory at a location and at every location above it. -/
inductive Rooted (d : Disk) : Location → Prop
  | root : Rooted d .root
  | child {l : Location} {name : String} (above : Rooted d l)
    (here : d.IsDirectory (l.child name)) : Rooted d (l.child name)

/-- Whatever exists is in a directory that exists. -/
def IsTree (d : Disk) : Prop :=
  ∀ l name, d.at? (l.child name) ≠ none → d.IsDirectory l

variable {d d' : Disk} {l m : Location} {p q : String} {steps : List String}

theorem isDirectory_root (d : Disk) : d.IsDirectory .root :=
  ⟨⟨0⟩, d.at?_root⟩

theorem Keeps.trans {d'' : Disk} (h : d.Keeps d') (h' : d'.Keeps d'') : d.Keeps d'' :=
  fun l hl => h' l (h l hl)

theorem Rooted.isDirectory (h : d.Rooted l) : d.IsDirectory l := by
  cases h with
  | root => exact isDirectory_root d
  | child _ here => exact here

/-- Going up from a directory leads to a directory. -/
theorem Rooted.up (h : d.Rooted l) : d.Rooted l.up := by
  cases h with
  | root => exact .root
  | child above _ =>
    rw [Location.up_child]
    exact above

/-- On a disk that is a tree everything above a directory is a directory. -/
theorem IsTree.rooted (h : d.IsTree) (hl : d.IsDirectory l) : d.Rooted l := by
  obtain ⟨depth, names, hdepth⟩ := l
  induction names generalizing depth with
  | nil =>
    have hroot : (⟨depth, [], hdepth⟩ : Location) = .root := Location.eq_of_names_eq rfl
    rw [hroot]
    exact .root
  | cons name names ih =>
    have hchild : (⟨depth, name :: names, hdepth⟩ : Location) =
        Location.child ⟨names.length, names, rfl⟩ name := Location.eq_of_names_eq rfl
    rw [hchild] at hl ⊢
    obtain ⟨id, hid⟩ := hl
    exact .child (ih names.length rfl (h _ name (by simp [hid]))) ⟨id, hid⟩

/-! ## Walks -/

@[simp]
theorem walk_nil (d : Disk) (l : Location) : d.walk l [] = .ok (.dots l) := by
  simp [walk]

@[simp]
theorem walk_dot (d : Disk) (l : Location) (steps : List String) :
    d.walk l ("." :: steps) = d.walk l steps := by
  simp [walk]

@[simp]
theorem walk_up (d : Disk) (l : Location) (steps : List String) :
    d.walk l (".." :: steps) = d.walk l.up steps := by
  simp [walk]

theorem walk_last {name : String} (hdot : name ≠ ".") (hup : name ≠ "..") (d : Disk) (l : Location) :
    d.walk l [name] = .ok (.named l name) := by
  rw [walk.eq_4 d l name hdot hup]

/-- A walk goes through a name to what lies below it if that is a directory. -/
theorem walk_name {name : String} (hdot : name ≠ ".") (hup : name ≠ "..") (hsteps : steps ≠ [])
    {t : Target} :
    d.walk l (name :: steps) = .ok t ↔
      name.utf8ByteSize ≤ maxName ∧ d.IsDirectory (l.child name) ∧
        d.walk (l.child name) steps = .ok t := by
  obtain ⟨step, steps, rfl⟩ := List.exists_cons_of_ne_nil hsteps
  rw [walk.eq_5 d l name (step :: steps) hdot hup (by simp)]
  by_cases hsize : maxName < name.utf8ByteSize
  · simp [lookup, hsize, Nat.not_le.mpr hsize]
  · simp only [lookup, hsize, if_false, Nat.not_lt.mp hsize, true_and, IsDirectory]
    match d.at? (l.child name) with
    | none => simp
    | some ⟨id, .file content⟩ => simp
    | some ⟨id, .directory⟩ => simp

/-- A walk that ends in a name leads to an entry with that name. -/
theorem eq_named_of_walk {name : String} (hdot : name ≠ ".") (hup : name ≠ "..")
    (hlast : steps.getLast? = some name) {t : Target} (hw : d.walk l steps = .ok t) :
    ∃ m, t = .named m name := by
  induction steps generalizing l with
  | nil => simp at hlast
  | cons a steps ih =>
    cases steps with
    | nil =>
      obtain rfl : a = name := by simpa using hlast
      rw [walk_last hdot hup] at hw
      exact ⟨l, (Except.ok.inj hw).symm⟩
    | cons b steps =>
      rw [List.getLast?_cons_cons] at hlast
      by_cases hadot : a = "."
      · subst hadot
        rw [walk_dot] at hw
        exact ih hlast hw
      by_cases haup : a = ".."
      · subst haup
        rw [walk_up] at hw
        exact ih hlast hw
      exact ih hlast ((walk_name hadot haup (by simp)).mp hw).2.2

/-- Where steps lead to stays the same while directories stay directories. -/
theorem walk_of_keeps (h : d.Keeps d') {t : Target} (hw : d.walk l steps = .ok t) :
    d'.walk l steps = .ok t := by
  induction steps generalizing l with
  | nil => simpa using hw
  | cons name steps ih =>
    by_cases hdot : name = "."
    · subst hdot
      rw [walk_dot] at hw ⊢
      exact ih hw
    by_cases hup : name = ".."
    · subst hup
      rw [walk_up] at hw ⊢
      exact ih hw
    by_cases hsteps : steps = []
    · subst hsteps
      rw [walk_last hdot hup] at hw ⊢
      exact hw
    · rw [walk_name hdot hup hsteps] at hw ⊢
      exact ⟨hw.1, h _ hw.2.1, ih hw.2.2⟩

/-- Steps lead through directories only. -/
theorem rooted_of_walk (hl : d.Rooted l) {t : Target} (hw : d.walk l steps = .ok t) :
    (∀ m, t = .dots m → d.Rooted m) ∧ ∀ m name, t = .named m name → d.Rooted m := by
  induction steps generalizing l with
  | nil =>
    obtain rfl : .dots l = t := by simpa using hw
    exact ⟨fun m hm => by simpa [← Target.dots.inj hm] using hl, by simp⟩
  | cons name steps ih =>
    by_cases hdot : name = "."
    · subst hdot
      rw [walk_dot] at hw
      exact ih hl hw
    by_cases hup : name = ".."
    · subst hup
      rw [walk_up] at hw
      exact ih hl.up hw
    by_cases hsteps : steps = []
    · subst hsteps
      rw [walk_last hdot hup] at hw
      obtain rfl : .named l name = t := by simpa using hw
      refine ⟨by simp, fun m a hm => ?_⟩
      obtain ⟨rfl, -⟩ := Target.named.inj hm
      exact hl
    · rw [walk_name hdot hup hsteps] at hw
      exact ih (.child hl hw.2.1) hw.2.2

/-- The place to which a walk leads. -/
def Target.place : Target → Location
  | .named l name => l.child name
  | .dots l => l

/-- The directory to which a walk leads, or in which the entry is to which it leads. -/
def Target.directory : Target → Location
  | .named l _ => l
  | .dots l => l

/-- Steps without `..` lead through directories above the one to which they lead, and lead there on
every disk that is a tree with that directory. -/
theorem walk_of_walk (htree : d.IsTree) (hnoUp : ".." ∉ steps) {t : Target}
    (ht : d.IsDirectory t.directory) (hw : d'.walk l steps = .ok t) :
    d.Rooted l ∧ d.walk l steps = .ok t := by
  induction steps generalizing l with
  | nil =>
    rw [walk_nil] at hw ⊢
    obtain rfl := Except.ok.inj hw
    exact ⟨htree.rooted ht, rfl⟩
  | cons a steps ih =>
    obtain ⟨ha, hrest⟩ := List.ne_and_not_mem_of_not_mem_cons hnoUp
    have hup : a ≠ ".." := fun h => ha h.symm
    by_cases hdot : a = "."
    · subst hdot
      rw [walk_dot] at hw ⊢
      exact ih hrest hw
    by_cases hsteps : steps = []
    · subst hsteps
      rw [walk_last hdot hup] at hw ⊢
      obtain rfl := Except.ok.inj hw
      exact ⟨htree.rooted ht, rfl⟩
    · rw [walk_name hdot hup hsteps] at hw ⊢
      obtain ⟨hbelow, hwalk⟩ := ih hrest hw.2.2
      refine ⟨?_, hw.1, hbelow.isDirectory, hwalk⟩
      have habove := hbelow.up
      rwa [Location.up_child] at habove

/-! ## Paths -/

theorem follow_eq (hp : pathError? p = none) (hne : p ≠ "") :
    d.follow p = d.walk .root (Path.steps p) := by
  simp [follow, hp, hne]

/-- A path that leads anywhere is no error in itself. -/
theorem walk_of_follow {t : Target} (h : d.follow p = .ok t) :
    (∀ d' : Disk, d'.follow p = d'.walk .root (Path.steps p)) ∧
      d.walk .root (Path.steps p) = .ok t := by
  unfold follow at h
  cases hp : pathError? p with
  | some e => simp [hp] at h
  | none =>
    by_cases hne : p = ""
    · subst hne
      simp [hp] at h
    · rw [← follow.eq_def] at h
      exact ⟨fun d' => follow_eq hp hne, follow_eq hp hne ▸ h⟩

theorem follow_of_keeps (h : d.Keeps d') {t : Target} (hp : d.follow p = .ok t) :
    d'.follow p = .ok t := by
  obtain ⟨hfollow, hwalk⟩ := walk_of_follow hp
  rw [hfollow]
  exact walk_of_keeps h hwalk

/-- A path leads to the place of a file, which need not exist. -/
def Leads (d : Disk) (p : String) (m : Location) : Prop :=
  ∃ l name, d.follow p = .ok (.named l name) ∧ name.utf8ByteSize ≤ maxName ∧ m = l.child name

/-- Paths lead where they led before. -/
theorem Leads.of_keeps (h : d.Leads p m) (hkeeps : d.Keeps d') : d'.Leads p m := by
  obtain ⟨l, name, hp, hsize, hm⟩ := h
  exact ⟨l, name, follow_of_keeps hkeeps hp, hsize, hm⟩

/-- A path leads to one place only. -/
theorem Leads.unique {n : Location} (h : d.Leads p m) (h' : d.Leads p n) : m = n := by
  obtain ⟨l, name, hp, -, rfl⟩ := h
  obtain ⟨l', name', hp', -, rfl⟩ := h'
  obtain ⟨rfl, rfl⟩ := Target.named.inj (Except.ok.inj (hp.symm.trans hp'))
  rfl

theorem Leads.ne_root (h : d.Leads p m) : m ≠ .root := by
  obtain ⟨l, name, -, -, rfl⟩ := h
  exact Location.child_ne_root l name

/-- A path without `..` leads to a file wherever the file exists, if it leads there at all. -/
theorem IsTree.leads_of_leads (htree : d.IsTree) (hnoUp : ".." ∉ Path.steps p)
    (h : d'.Leads p m) (hm : d.at? m ≠ none) : d.Leads p m := by
  obtain ⟨l, name, hp, hsize, rfl⟩ := h
  obtain ⟨hfollow, hwalk⟩ := walk_of_follow hp
  have hdirectory : d.IsDirectory (Target.named l name).directory := htree l name hm
  refine ⟨l, name, ?_, hsize, rfl⟩
  rw [hfollow]
  exact (walk_of_walk htree hnoUp hdirectory hwalk).2

/-- What is read through a path that names an entry of a directory. -/
theorem read_of_follow {name : String} (hp : d.follow p = .ok (.named l name)) :
    d.read p =
      match d.lookup l name with
      | .error e => .error e
      | .ok none => .error .notFound
      | .ok (some ⟨_, .directory⟩) => .error .isADirectory
      | .ok (some ⟨_, .file content⟩) =>
        if Path.endsInSlash p then .error .notADirectory else .ok content := by
  simp only [read, entry, hp, bind, Except.bind]
  match d.lookup l name with
  | .error e => rfl
  | .ok none => rfl
  | .ok (some ⟨_, .directory⟩) => rfl
  | .ok (some ⟨_, .file content⟩) => cases hslash : Path.endsInSlash p <;> rfl

/-- Through a path that leads to a directory nothing is read. -/
theorem read?_of_follow_dots (hp : d.follow p = .ok (.dots l)) : d.read? p = none := by
  obtain ⟨id, hid⟩ := ((rooted_of_walk .root (walk_of_follow hp).2).1 l rfl).isDirectory
  have hread : d.read p = .error .isADirectory := by
    simp only [read, entry, hp, bind, Except.bind, hid]
  rw [read?, hread]
  rfl

/-- What it takes to read a file: the path leads to one and does not end in a slash. -/
theorem read?_eq_some_iff {content : List UInt8} :
    d.read? p = some content ↔
      ∃ m id, d.Leads p m ∧ d.at? m = some ⟨id, .file content⟩ ∧ Path.endsInSlash p = false := by
  constructor
  · intro h
    cases hp : d.follow p with
    | error e =>
      have hread : d.read p = .error e := by
        simp only [read, entry, hp]
        rfl
      simp [read?, hread, Except.toOption] at h
    | ok t =>
      cases t with
      | dots l => simp [read?_of_follow_dots hp] at h
      | named l name =>
        rw [read?, read_of_follow hp] at h
        by_cases hsize : maxName < name.utf8ByteSize
        · simp [lookup, hsize, Except.toOption] at h
        · simp only [lookup, hsize, if_false] at h
          match hat : d.at? (l.child name) with
          | none => simp [hat, Except.toOption] at h
          | some ⟨id, .directory⟩ => simp [hat, Except.toOption] at h
          | some ⟨id, .file old⟩ =>
            cases hslash : Path.endsInSlash p with
            | true => simp [hat, hslash, Except.toOption] at h
            | false =>
              obtain rfl : old = content := by simpa [hat, hslash, Except.toOption] using h
              exact ⟨_, id, ⟨l, name, hp, Nat.not_lt.mp hsize, rfl⟩, hat, rfl⟩
  · rintro ⟨m, id, ⟨l, name, hp, hsize, rfl⟩, hat, hslash⟩
    rw [read?, read_of_follow hp]
    simp [lookup, Nat.not_lt.mpr hsize, hat, hslash, Except.toOption]

/-- Through a path that names nothing, nothing is read. -/
theorem read?_eq_none_of_identity?_eq_none (h : d.identity? p = none) : d.read? p = none := by
  unfold identity? at h
  unfold read? read
  cases hentry : d.entry p with
  | error e => rfl
  | ok entry => simp [hentry, Except.toOption] at h

/-- A file that is there as before, with its directories, is read as before. -/
theorem read?_of_keeps {content : List UInt8} (hkeeps : d.Keeps d') (hread : d.read? p = some content)
    (hat : ∀ m, d.Leads p m → d'.at? m = d.at? m) : d'.read? p = some content := by
  obtain ⟨m, id, hm, hid, hslash⟩ := read?_eq_some_iff.mp hread
  exact read?_eq_some_iff.mpr ⟨m, id, hm.of_keeps hkeeps, by rw [hat m hm, hid], hslash⟩

end DenialMonitor.Disk
