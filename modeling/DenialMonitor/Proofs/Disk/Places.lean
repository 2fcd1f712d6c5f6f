import DenialMonitor.Disk.AtomicWrite
import DenialMonitor.Proofs.Disk.Following
import DenialMonitor.Proofs.Text.Split

set_option autoImplicit false

/-!
# The places of files

What directories there are decides whether a path leads anywhere, but not where: a path has one place
at most, which its segments tell. So a file can be followed from one disk to the next by its place,
also while its path leads nowhere. A document and its temporary file have different places, unless
their paths are the same.

## Main definitions

* `Path.place?` — the place to which a path can lead.
* `Path.Distinct` — two paths cannot lead to the same place.
* `Disk.fileAt?` — the file at a place.
* `Disk.NoFile` — there is no file at the place of a path.
* `Disk.KeepsFile` — a path leads where it led before, and there is the same file at its place.

## Main results

* `Disk.Leads.place?_eq` — a path leads to its place.
* `Path.temporary_eq_of_place?_eq` — a temporary file in the place of the document has its path.
* `Disk.KeepsFile.read?_eq` — a file that is kept is read as before.
-/

namespace DenialMonitor

namespace Path

variable {l m : Location} {p q : String} {steps : List String}

/-! ## Segments -/

theorem ofSegments_segments (p : String) : ofSegments (segments p) = p := by
  apply String.toList_injective
  have htoList : (segments p).map String.toList = Split.pieces '/' p.toList := by
    simp [segments, Function.comp_def]
  rw [ofSegments, String.toList_intercalate, htoList]
  exact Split.intercalate_pieces '/' p.toList

theorem segments_ofSegments {segs : List String} {last : String}
    (h : ∀ seg ∈ segs ++ [last], '/' ∉ seg.toList) :
    segments (ofSegments (segs ++ [last])) = segs ++ [last] := by
  have hpieces : Split.pieces '/' (ofSegments (segs ++ [last])).toList =
      segs.map String.toList ++ [last.toList] := by
    rw [ofSegments, String.toList_intercalate, List.map_append, List.map_singleton]
    refine Split.pieces_intercalate (fun piece hpiece => ?_) (h last (by simp))
    obtain ⟨seg, hseg, rfl⟩ := List.mem_map.mp hpiece
    exact h seg (List.mem_append_left _ hseg)
  rw [segments, hpieces]
  simp [Function.comp_def]

theorem slash_not_mem_segments {seg : String} (h : seg ∈ segments p) : '/' ∉ seg.toList := by
  obtain ⟨piece, hpiece, rfl⟩ := List.mem_map.mp h
  have hcut := Split.isCut_cut '/' p.toList
  rw [String.toList_ofList]
  rcases List.mem_append.mp hpiece with hpiece | hpiece
  · exact hcut.not_mem_piece piece hpiece
  · rw [List.mem_singleton.mp hpiece]
    exact hcut.not_mem_rest

/-- A path has segments. The last one is empty only if the path is, or ends in a slash. -/
theorem exists_segments_eq (hne : p ≠ "") (hslash : endsInSlash p = false) :
    ∃ above last, segments p = above ++ [last] ∧ last ≠ "" := by
  refine ⟨(Split.cut '/' p.toList).1.map String.ofList, String.ofList (Split.cut '/' p.toList).2,
    by simp [segments, Split.pieces], fun hempty => ?_⟩
  have hcut := (Split.isCut_cut '/' p.toList).eq
  have hrest : (Split.cut '/' p.toList).2 = [] := by simpa using hempty
  rw [hrest, List.append_nil] at hcut
  rcases List.eq_nil_or_concat (Split.cut '/' p.toList).1 with hnil | ⟨pieces, piece, hpieces⟩
  · rw [hnil, List.flatMap_nil] at hcut
    exact hne (by simpa using hcut)
  · rw [hpieces, List.concat_eq_append, List.flatMap_append, List.flatMap_singleton,
      ← List.append_assoc] at hcut
    rw [endsInSlash, hcut, List.getLast?_concat] at hslash
    simp at hslash

theorem slash_not_mem_stem {name : String} (h : '/' ∉ name.toList) : '/' ∉ (stem name).toList := by
  unfold stem
  split
  · next c cs hdrop =>
    intro hmem
    have hmem' : '/' ∈ name.toList.reverse.dropWhile (· != '.') := by
      rw [hdrop, List.mem_cons]
      exact .inr (by simpa [or_comm] using hmem)
    exact h (List.mem_reverse.mp ((List.dropWhile_sublist _).subset hmem'))
  · exact h

/-! ## Places -/

/-- The place to which steps lead from `l`, where the directories on the way are there. -/
def aim? (l : Location) : List String → Option Location
  | [] => none
  | "." :: steps => aim? l steps
  | ".." :: steps => aim? l.up steps
  | [name] => some (l.child name)
  | name :: steps => aim? (l.child name) steps

/-- The place to which a path can lead, unless it ends in `.` or `..`. -/
def place? (p : String) : Option Location :=
  aim? .root (Path.steps p)

/-- Two paths cannot lead to the same place. -/
def Distinct (p q : String) : Prop :=
  ∀ m ∈ place? p, place? q ≠ some m

instance (p q : String) : Decidable (Distinct p q) :=
  inferInstanceAs (Decidable (∀ m ∈ place? p, _))

@[simp]
theorem aim?_dot (l : Location) (steps : List String) : aim? l ("." :: steps) = aim? l steps := by
  simp [aim?]

@[simp]
theorem aim?_up (l : Location) (steps : List String) : aim? l (".." :: steps) = aim? l.up steps := by
  simp [aim?]

theorem aim?_last {name : String} (hdot : name ≠ ".") (hup : name ≠ "..") (l : Location) :
    aim? l [name] = some (l.child name) := by
  rw [aim?.eq_4 l name hdot hup]

theorem aim?_name {name : String} (hdot : name ≠ ".") (hup : name ≠ "..") (hsteps : steps ≠ [])
    (l : Location) : aim? l (name :: steps) = aim? (l.child name) steps := by
  rw [aim?.eq_5 l name steps hdot hup (by simpa using hsteps)]

/-- The last step to a place is its name. -/
theorem exists_of_aim? (h : aim? l steps = some m) :
    ∃ (k : Location) (name : String),
      steps.getLast? = some name ∧ name ≠ "." ∧ name ≠ ".." ∧ m = k.child name := by
  induction steps generalizing l with
  | nil => simp [aim?] at h
  | cons name steps ih =>
    have hlater {l : Location} (h : aim? l steps = some m) :
        ∃ (k : Location) (last : String),
          (name :: steps).getLast? = some last ∧ last ≠ "." ∧ last ≠ ".." ∧ m = k.child last := by
      obtain ⟨k, last, hlast, hrest⟩ := ih h
      exact ⟨k, last, by rw [List.getLast?_cons, hlast, Option.getD_some], hrest⟩
    by_cases hdot : name = "."
    · subst hdot
      rw [aim?_dot] at h
      exact hlater h
    by_cases hup : name = ".."
    · subst hup
      rw [aim?_up] at h
      exact hlater h
    by_cases hsteps : steps = []
    · subst hsteps
      rw [aim?_last hdot hup] at h
      exact ⟨l, name, rfl, hdot, hup, (Option.some.inj h).symm⟩
    · rw [aim?_name hdot hup hsteps] at h
      exact hlater h

/-- A temporary file that has the place of the document has its path too.

**Proof sketch.** The two paths have the same segments but for the last one, which is the name at
the place. -/
theorem temporary_eq_of_place?_eq (hp : place? p = some m)
    (htemporary : place? (AtomicWrite.temporary p) = some m) (hslash : endsInSlash p = false) :
    AtomicWrite.temporary p = p := by
  obtain ⟨k, name, hname, hdot, hup, rfl⟩ := exists_of_aim? hp
  obtain ⟨k', name', hname', hdot', hup', heq⟩ := exists_of_aim? htemporary
  obtain ⟨rfl, rfl⟩ := Location.child_inj.mp heq
  have hne : p ≠ "" := by
    rintro rfl
    have hempty : place? "" = none := by decide
    simp [hempty] at hp
  obtain ⟨above, last, hsegments, hlast⟩ := exists_segments_eq hne hslash
  obtain rfl : last = name := by
    simpa [Path.steps, hsegments, List.filter_append, hlast] using hname
  have hpart : isPart last = true := by simp [isPart, hlast, hdot]
  have hfile : fileName? p = some last := by
    simp [fileName?, parts, hsegments, List.filter_append, hpart, hup]
  have habove : (trimEnd (segments p)).dropLast = above := by
    simp [hsegments, trimEnd, hpart]
  have hfree : ∀ seg ∈ above ++ [last], '/' ∉ seg.toList := fun seg hseg =>
    slash_not_mem_segments (hsegments ▸ hseg)
  -- the last step of the temporary path tells which of the two forms it has
  have hlastStep {x : String} (hx : '/' ∉ x.toList) (hxne : x ≠ "")
      (hform : AtomicWrite.temporary p = ofSegments (above ++ [x])) : x = last := by
    have hsegs : segments (ofSegments (above ++ [x])) = above ++ [x] :=
      segments_ofSegments fun seg hseg => by
        rcases List.mem_append.mp hseg with hseg | hseg
        · exact hfree seg (List.mem_append_left _ hseg)
        · rwa [List.mem_singleton.mp hseg]
    rw [hform, Path.steps, hsegs] at hname'
    simpa [List.filter_append, hxne] using hname'
  have hforms : ∃ x, '/' ∉ x.toList ∧ x ≠ "" ∧
      AtomicWrite.temporary p = ofSegments (above ++ [x]) := by
    simp only [AtomicWrite.temporary, withExtension, hfile, habove]
    split
    · exact ⟨"..", by decide, by decide, rfl⟩
    · refine ⟨_, ?_, ?_, rfl⟩
      · have hstem := slash_not_mem_stem (hfree last (by simp))
        simp [hstem]
      · intro hempty
        simpa using congrArg String.toList hempty
  obtain ⟨x, hx, hxne, hform⟩ := hforms
  rw [hform, hlastStep hx hxne hform, ← hsegments, ofSegments_segments]

end Path

namespace Disk

variable {d d' d'' : Disk} {l m : Location} {p q : String} {steps : List String}

theorem aim?_of_walk {name : String} (h : d.walk l steps = .ok (.named m name)) :
    Path.aim? l steps = some (m.child name) := by
  induction steps generalizing l with
  | nil => simp at h
  | cons a steps ih =>
    by_cases hdot : a = "."
    · subst hdot
      rw [walk_dot] at h
      rw [Path.aim?_dot]
      exact ih h
    by_cases hup : a = ".."
    · subst hup
      rw [walk_up] at h
      rw [Path.aim?_up]
      exact ih h
    by_cases hsteps : steps = []
    · subst hsteps
      rw [walk_last hdot hup] at h
      obtain ⟨rfl, rfl⟩ := Target.named.inj (Except.ok.inj h)
      exact Path.aim?_last hdot hup _
    · rw [Path.aim?_name hdot hup hsteps]
      exact ih ((walk_name hdot hup hsteps).mp h).2.2

/-- A path leads to its place, if it leads anywhere. -/
theorem Leads.place?_eq (h : d.Leads p m) : Path.place? p = some m := by
  obtain ⟨l, name, hp, -, rfl⟩ := h
  exact aim?_of_walk (walk_of_follow hp).2

/-! ## Files -/

/-- The file at a place: its identity and what it holds. -/
def fileAt? (d : Disk) (l : Location) : Option (FileId × List UInt8) :=
  match d.at? l with
  | some ⟨id, .file content⟩ => some (id, content)
  | _ => none

theorem fileAt?_eq_some_iff {id : FileId} {content : List UInt8} :
    d.fileAt? l = some (id, content) ↔ d.at? l = some ⟨id, .file content⟩ := by
  unfold fileAt?
  match d.at? l with
  | none => simp
  | some ⟨_, .directory⟩ => simp
  | some ⟨_, .file _⟩ => simp

theorem fileAt?_congr (h : d'.at? l = d.at? l) : d'.fileAt? l = d.fileAt? l := by
  rw [fileAt?, fileAt?, h]

/-- There is no file at the place of a path. A path that ends in a slash names no file. -/
def NoFile (d : Disk) (p : String) : Prop :=
  Path.endsInSlash p = false → ∀ l ∈ Path.place? p, d.fileAt? l = none

instance (d : Disk) (p : String) : Decidable (d.NoFile p) :=
  inferInstanceAs (Decidable (_ → ∀ l ∈ Path.place? p, _))

/-- Where there is no file, none is read. -/
theorem NoFile.read?_eq_none (h : d.NoFile p) : d.read? p = none := by
  cases hread : d.read? p with
  | none => rfl
  | some content =>
    obtain ⟨m, id, hm, hid, hslash⟩ := read?_eq_some_iff.mp hread
    have hfile := h hslash m hm.place?_eq
    rw [fileAt?_eq_some_iff.mpr hid] at hfile
    cases hfile

/-- A path leads where it led before, and at its place there is the same file as before, or none as
before. A path that goes up through `..` may lead to its place where it did not lead before. -/
structure KeepsFile (d d' : Disk) (p : String) : Prop where
  leads : ∀ l, d.Leads p l → d'.Leads p l
  file : Path.endsInSlash p = false → ∀ l ∈ Path.place? p, d'.fileAt? l = d.fileAt? l

theorem KeepsFile.refl (d : Disk) (p : String) : d.KeepsFile d p :=
  ⟨fun _ h => h, fun _ _ _ => rfl⟩

theorem KeepsFile.noFile (h : d.KeepsFile d' p) (hd : d.NoFile p) : d'.NoFile p :=
  fun hslash l hl => (h.file hslash l hl).trans (hd hslash l hl)

/-- A file that is kept is read as before. -/
theorem KeepsFile.read?_of_some (h : d.KeepsFile d' p) {content : List UInt8}
    (hread : d.read? p = some content) : d'.read? p = some content := by
  obtain ⟨m, id, hm, hid, hslash⟩ := read?_eq_some_iff.mp hread
  have hfile : d'.fileAt? m = some (id, content) :=
    (h.file hslash m hm.place?_eq).trans (fileAt?_eq_some_iff.mpr hid)
  exact read?_eq_some_iff.mpr ⟨m, id, h.leads m hm, fileAt?_eq_some_iff.mp hfile, hslash⟩

/-- What is read of a file that is kept is as before, if it could be read or its path does not go up
through `..`. -/
theorem KeepsFile.read?_eq (h : d.KeepsFile d' p)
    (hp : (d.read? p).isSome ∨ d.IsTree ∧ ".." ∉ Path.steps p) : d'.read? p = d.read? p := by
  cases hread : d.read? p with
  | some old => exact h.read?_of_some hread
  | none =>
    obtain ⟨htree, hnoUp⟩ := hp.resolve_left (by simp [hread])
    cases hread' : d'.read? p with
    | none => rfl
    | some new =>
      obtain ⟨m, id, hm, hid, hslash⟩ := read?_eq_some_iff.mp hread'
      have hfile : d.fileAt? m = some (id, new) :=
        (h.file hslash m hm.place?_eq).symm.trans (fileAt?_eq_some_iff.mpr hid)
      have hat := fileAt?_eq_some_iff.mp hfile
      have hleads := htree.leads_of_leads hnoUp hm (by simp [hat])
      rw [read?_eq_some_iff.mpr ⟨m, id, hleads, hat, hslash⟩] at hread
      exact absurd hread (by simp)

end Disk

end DenialMonitor
