import DenialMonitor.Proofs.Disk.Stages

set_option autoImplicit false

/-!
# What an atomic write leaves behind

A document that was written through its temporary file is read back. A write that fails leaves the
document as it was: the temporary file may be left over, and directories may have been created on
the way to it. With a path that goes up through `..` the latter can bring a document into reach
that could not be read before, so failures are told for the other paths and for documents that
could be read.

## Main definitions

* `Disk.Apart` — two paths never lead to the same file.

## Main results

* `Disk.read?_of_writeAtomically_ok` — a document that was written is read back.
* `Disk.keepsFile_of_writeAtomically_error`, `Disk.read?_of_writeAtomically_error` — a write that
  fails leaves the document as it was.
* `Disk.changesOnly_writeAtomically`, `Disk.read?_writeAtomically_of_apart` — other documents stay as
  they were.
* `Disk.write_is_all_or_nothing` — the two ways in which a write ends.
* `Disk.IsTree.writeAtomically` — a disk that is a tree stays one.
-/

namespace DenialMonitor.Disk

variable {d d' : Disk} {m : Location} {p q : String} {content : List UInt8}

/-! ## The document -/

/-- A write fails before the temporary file is there, or it is as the renaming goes. -/
theorem writeAtomically_cases (d : Disk) (p : String) (content : List UInt8) :
    ((d.writeAtomically p content).2 ≠ none ∧
        AtomicWrite.Stage d p none (d.writeAtomically p content).1) ∨
      ∃ d₂, AtomicWrite.Stage d p (some content) d₂ ∧
        d.writeAtomically p content = d₂.attempt (·.rename (AtomicWrite.temporary p) p) := by
  have hcases := AtomicWrite.run_steps d p [content]
  rw [List.flatten_singleton] at hcases
  exact hcases

/-- A write that succeeds has renamed a temporary file that holds the document. -/
theorem stage_of_writeAtomically_ok (h : d.writeAtomically p content = (d', none)) :
    ∃ d₂, AtomicWrite.Stage d p (some content) d₂ ∧
      d₂.rename (AtomicWrite.temporary p) p = .ok d' := by
  rcases writeAtomically_cases d p content with ⟨hfailed, -⟩ | ⟨d₂, hstage, hrename⟩
  · simp [h] at hfailed
  · exact ⟨d₂, hstage, attempt_eq_none (hrename.symm.trans h)⟩

/-- A write that fails has not renamed a temporary file. That file is not the document, since a file
can be renamed over itself. -/
theorem stopped_of_writeAtomically_error {e : OsError}
    (h : d.writeAtomically p content = (d', some e)) : AtomicWrite.Stopped d d' p := by
  rcases writeAtomically_cases d p content with ⟨-, hstage⟩ | ⟨d₂, hstage, hrename⟩
  · rw [h] at hstage
    exact ⟨none, hstage, .inl rfl⟩
  · obtain ⟨herror, rfl⟩ := attempt_eq_some (hrename.symm.trans h)
    exact ⟨some content, hstage, .inr (hstage.temporary_ne_of_rename_error herror)⟩

/-- A document that was written is read back. -/
theorem read?_of_writeAtomically_ok (h : d.writeAtomically p content = (d', none)) :
    d'.read? p = some content := by
  obtain ⟨d₂, hstage, hrename⟩ := stage_of_writeAtomically_ok h
  exact (hstage.of_rename hrename).1

/-- A write that fails keeps the document. -/
theorem keepsFile_of_writeAtomically_error {e : OsError}
    (h : d.writeAtomically p content = (d', some e)) : d.KeepsFile d' p :=
  (stopped_of_writeAtomically_error h).keepsFile

/-- A write that fails leaves the document as it was, if the document could be read or its path
does not go up through `..`. -/
theorem read?_of_writeAtomically_error {e : OsError}
    (h : d.writeAtomically p content = (d', some e))
    (hp : (d.read? p).isSome ∨ d.IsTree ∧ ".." ∉ Path.steps p) : d'.read? p = d.read? p :=
  (keepsFile_of_writeAtomically_error h).read?_eq hp

/-- A disk that is a tree stays one when a document is written. -/
theorem IsTree.writeAtomically (h : d.IsTree) (p : String) (content : List UInt8) :
    (d.writeAtomically p content).1.IsTree := by
  rcases writeAtomically_cases d p content with ⟨-, hstage⟩ | ⟨d₂, hstage, hrename⟩
  · exact hstage.isTree h
  · rw [hrename]
    exact (hstage.isTree h).attempt fun _ hok => (hstage.isTree h).rename hok

/-! ## Other documents -/

/-- A write changes the document and its temporary file only. -/
theorem changesOnly_writeAtomically (d : Disk) (p : String) (content : List UInt8) :
    d.ChangesOnly (d.writeAtomically p content).1 [p, AtomicWrite.temporary p] := by
  match h : d.writeAtomically p content with
  | (d', none) =>
    obtain ⟨d₂, hstage, hrename⟩ := stage_of_writeAtomically_ok h
    exact (hstage.of_rename hrename).2.2
  | (d', some e) =>
    obtain ⟨hkeeps, helsewhere⟩ := (stopped_of_writeAtomically_error h).changesOnly
    exact ⟨hkeeps, fun l hl => helsewhere l fun q hq => hl q (List.mem_cons_of_mem p hq)⟩

/-- A document that has another place than the one that is written and its temporary file is kept, also
where the write fails. -/
theorem keepsFile_writeAtomically_of_distinct (hq : Path.Distinct q p)
    (hq' : Path.Distinct q (AtomicWrite.temporary p)) :
    d.KeepsFile (d.writeAtomically p content).1 q := by
  refine (changesOnly_writeAtomically d p content).keepsFile fun r hr => ?_
  rcases List.mem_pair.mp hr with rfl | rfl
  · exact hq
  · exact hq'

/-! ## All or nothing -/

/-- **A write is all or nothing.** If it succeeds, the document holds what was written, its temporary
file is gone, unless that is the document itself, and nothing else has changed. If it fails, be it
where directories are created, where the temporary file is written or where that is renamed, it has come
to nothing: the document is as it was, and of what existed at most the temporary file has changed.
The same holds where the system stops the write after any of its steps, if the temporary file is
another one than the document. In each case directories may be new, and only a path that goes up
through `..`, and led nowhere for a missing directory, may name something that it did not name
before. -/
theorem write_is_all_or_nothing (d : Disk) (htree : d.IsTree) (p : String) :
    (∀ content, let r := d.writeAtomically p content
      (r.2 = none ∧ r.1.read? p = some content ∧
          (AtomicWrite.temporary p ≠ p → r.1.identity? (AtomicWrite.temporary p) = none) ∧
          d.ChangesOnly r.1 [p, AtomicWrite.temporary p]) ∨
        (r.2 ≠ none ∧ AtomicWrite.Spares d r.1 p)) ∧
      ∀ pieces n, AtomicWrite.temporary p ≠ p → n < pieces.length + 3 →
        AtomicWrite.Spares d (AtomicWrite.run d ((AtomicWrite.steps p pieces).take n)).1 p := by
  refine ⟨fun content => ?_, fun pieces n hother hn => ?_⟩
  · match h : d.writeAtomically p content with
    | (d', none) =>
      obtain ⟨d₂, hstage, hrename⟩ := stage_of_writeAtomically_ok h
      exact .inl ⟨rfl, hstage.of_rename hrename⟩
    | (d', some e) => exact .inr ⟨by simp, (stopped_of_writeAtomically_error h).spares htree⟩
  · rcases AtomicWrite.stage_run_take hn with ⟨-, hstage⟩ | ⟨-, -, hstage⟩
    · exact hstage.spares htree (.inl rfl)
    · exact hstage.spares htree (.inr hother)

/-- A directory with a document whose name has two extensions, a temporary file that was left over,
and another document. -/
def crowded : Disk :=
  let dir := (empty.apply (.makeDirs "/p")).1
  let document := (dir.apply (.write "/p/doc.v1.json" [1])).1
  let leftOver := (document.apply (.write "/p/doc.v1.tmp" [2])).1
  (leftOver.apply (.write "/p/other" [3])).1

/-- The document is replaced, the temporary file is gone, and the other document is as it was. -/
theorem document_is_replaced_among_others :
    crowded.IsTree ∧
      (crowded.writeAtomically "/p/doc.v1.json" [4, 5]).1.read? "/p/doc.v1.json" = some [4, 5] ∧
      (crowded.writeAtomically "/p/doc.v1.json" [4, 5]).1.identity? "/p/doc.v1.tmp" = none ∧
      (crowded.writeAtomically "/p/doc.v1.json" [4, 5]).1.read? "/p/other" = some [3] := by
  have htree : crowded.IsTree := (((isTree_empty.apply _).apply _).apply _).apply _
  have htemporary : AtomicWrite.temporary "/p/doc.v1.json" = "/p/doc.v1.tmp" := by decide +kernel
  have hok : (crowded.writeAtomically "/p/doc.v1.json" [4, 5]).2 = none := by decide +kernel
  rcases (write_is_all_or_nothing crowded htree "/p/doc.v1.json").1 [4, 5] with
    ⟨-, hread, hgone, hothers⟩ | ⟨hfailed, -⟩
  · rw [htemporary] at hgone hothers
    have hother : crowded.KeepsFile (crowded.writeAtomically "/p/doc.v1.json" [4, 5]).1 "/p/other" :=
      hothers.keepsFile (by decide +kernel)
    exact ⟨htree, hread, hgone (by decide), hother.read?_of_some (by decide +kernel)⟩
  · exact absurd hok hfailed

/-- A disk with a document, and a directory where the temporary file for it would be. -/
def blocked : Disk :=
  ((empty.apply (.makeDirs "/p/doc.tmp")).1.apply (.write "/p/doc.json" [1])).1

/-- A write that fails may create the directory for want of which the document could not be
reached. -/
theorem document_appears_in_failed_write :
    ¬ ∀ (d : Disk) (p : String) (content : List UInt8), d.IsTree →
      let r := d.writeAtomically p content
      r.2 ≠ none → (r.1.entry p).toOption = (d.entry p).toOption := by
  intro h
  have htree : blocked.IsTree := (isTree_empty.apply _).apply _
  have hsame := h blocked "/p/x/../doc.json" [2] htree (by decide +kernel)
  revert hsame
  decide +kernel

/-! ## Paths that are apart -/

/-- Two paths never lead to the same place. -/
def Apart (p q : String) : Prop :=
  ∀ (d : Disk) (t : Target), d.follow p = .ok t → d.follow q ≠ .ok t

/-- Paths that end in different names are apart. -/
theorem apart_of_getLast?_ne {a b : String} (hp : (Path.steps p).getLast? = some a)
    (hq : (Path.steps q).getLast? = some b) (hne : a ≠ b) (ha : a ≠ "." ∧ a ≠ "..")
    (hb : b ≠ "." ∧ b ≠ "..") : Apart p q := by
  intro d t ht ht'
  obtain ⟨m, rfl⟩ := eq_named_of_walk ha.1 ha.2 hp (walk_of_follow ht).2
  obtain ⟨n, hn⟩ := eq_named_of_walk hb.1 hb.2 hq (walk_of_follow ht').2
  exact hne (Target.named.inj hn).2

theorem Apart.ne_of_leads {n : Location} (h : Apart p q) (hp : d.Leads p m) (hq : d.Leads q n) :
    m ≠ n := by
  obtain ⟨l, name, hp, -, rfl⟩ := hp
  obtain ⟨l', name', hq, -, rfl⟩ := hq
  intro hmn
  obtain ⟨rfl, rfl⟩ := Location.child_inj.mp hmn
  exact h d _ hp hq

/-- A document stays as it was while another one is written, also where that fails. -/
theorem read?_writeAtomically_of_apart (hq : Apart q p) (hq' : Apart q (AtomicWrite.temporary p))
    {old : List UInt8} (h : d.read? q = some old) :
    (d.writeAtomically p content).1.read? q = some old := by
  have hchanges := changesOnly_writeAtomically d p content
  refine read?_of_keeps hchanges.keeps h fun m hm => ?_
  obtain ⟨n, id, hn, hthere, -⟩ := read?_eq_some_iff.mp h
  obtain rfl := hn.unique hm
  have hm' := hm.of_keeps hchanges.keeps
  refine hchanges.at?_eq (fun r hr hleads => ?_) (by simp [hthere])
  rcases List.mem_pair.mp hr with rfl | rfl
  · exact hq.ne_of_leads hm' hleads rfl
  · exact hq'.ne_of_leads hm' hleads rfl

end DenialMonitor.Disk
