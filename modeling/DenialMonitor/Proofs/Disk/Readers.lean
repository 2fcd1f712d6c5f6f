import DenialMonitor.Proofs.Disk.AtomicWrite

set_option autoImplicit false

/-!
# Readers of a document that is being written

Someone who reads a document while it is written sees it as it was before, up to the renaming, and as
it is to be from then on. There is one kind of paths for which this is not so: the temporary file for
a document with the extension `tmp` is the document itself, which then is emptied and written piece by
piece before everyone's eyes.

## Main definitions

* `Path.hasExtension` — the file name at the end of a path has a given extension.

## Main results

* `Path.temporary_eq_self_iff` — when the temporary file is the document itself.
* `AtomicWrite.readers_see_old_or_new` — what is read after any number of steps.
* `AtomicWrite.half_written_document_is_read` — a document that is seen half written.
-/

namespace DenialMonitor

namespace Path

variable {p : String} {m : Location}

/-- Whether the file name at the end of `p` has the extension `ext`. A name of two dots and `ext` has
none. -/
def hasExtension (p ext : String) : Bool :=
  (segments p).getLast?.any fun name => name = stem name ++ "." ++ ext && stem name != "."

/-- A path that can lead to a place ends in a file name, but for segments that say nothing. -/
theorem fileName?_ne_none_of_place? (h : place? p = some m) : fileName? p ≠ none := by
  obtain ⟨k, name, hlast, hdot, hup, -⟩ := exists_of_aim? h
  obtain ⟨above, hsteps⟩ := List.getLast?_eq_some_iff.mp hlast
  have hparts : parts p = above.filter (· != ".") ++ [name] := by
    rw [parts_eq_filter_steps, hsteps, List.filter_append]
    simp [hdot]
  simp [fileName?, hparts, hup]

/-- The file name of a path that ends in a part. -/
theorem eq_of_fileName? {name last : String} {above : List String} (h : fileName? p = some name)
    (hsegments : segments p = above ++ [last]) (hpart : isPart last = true) : last = name := by
  rw [fileName?, Option.filter_eq_some_iff] at h
  simpa [parts, hsegments, List.filter_append, hpart] using h.1

theorem isPart_append_extension (s : String) : isPart (s ++ "." ++ "tmp") = true := by
  have hlength : (s ++ "." ++ "tmp").length = s.length + 4 := by simp [String.length_append]; rfl
  have hne {t : String} (ht : t.length < 4) : s ++ "." ++ "tmp" ≠ t := by
    rintro rfl
    omega
  simp [isPart, hne (t := "") (by decide), hne (t := ".") (by decide)]

/-- The temporary file is the document itself where the path ends in no file name, so that there is no
document, or where the file name has the extension `tmp`.

**Proof sketch.** The temporary path has the same segments as the path but for the last one, which is
its stem with the extension. -/
theorem temporary_eq_self_iff (p : String) :
    AtomicWrite.temporary p = p ↔ fileName? p = none ∨ hasExtension p "tmp" = true := by
  cases hfile : fileName? p with
  | none => simp [AtomicWrite.temporary, withExtension, hfile]
  | some name =>
    have hname : name ∈ segments p ∧ name ≠ ".." := by
      rw [fileName?, Option.filter_eq_some_iff] at hfile
      exact ⟨List.mem_of_mem_filter (List.mem_of_getLast? hfile.1), by simpa using hfile.2⟩
    have hfree : ∀ seg ∈ (trimEnd (segments p)).dropLast, '/' ∉ seg.toList := fun seg hseg =>
      slash_not_mem_segments (trimEnd_subset _ (List.dropLast_subset _ hseg))
    have hsegments {x : String} (hx : '/' ∉ x.toList)
        (h : ofSegments ((trimEnd (segments p)).dropLast ++ [x]) = p) :
        segments p = (trimEnd (segments p)).dropLast ++ [x] := by
      rw [← segments_ofSegments fun seg hseg => ?_, h]
      rcases List.mem_append.mp hseg with hseg | hseg
      · exact hfree seg hseg
      · rwa [List.mem_singleton.mp hseg]
    simp only [AtomicWrite.temporary, withExtension, hfile, reduceCtorEq, false_or]
    constructor
    · intro hsame
      split at hsame
      · exact absurd (eq_of_fileName? hfile (hsegments (by decide) hsame) (by decide)).symm hname.2
      · next hplain =>
        have hstem := slash_not_mem_stem (slash_not_mem_segments hname.1)
        have hsegs := hsegments (by simp [hstem]) hsame
        have hsplit := eq_of_fileName? hfile hsegs (isPart_append_extension _)
        rw [hsplit] at hsegs
        have hlast : (segments p).getLast? = some name := by rw [hsegs, List.getLast?_concat]
        have hdot : stem name ≠ "." := fun hdot => hplain ⟨hdot, hlast⟩
        rw [hasExtension, hlast, Option.any_some, hsplit]
        simp [hdot]
    · intro hext
      obtain ⟨last, hlast, hsplit, hdot⟩ : ∃ last, (segments p).getLast? = some last ∧
          last = stem last ++ "." ++ "tmp" ∧ stem last ≠ "." := by
        simpa [hasExtension, Option.any_eq_true] using hext
      obtain ⟨above, hsegs⟩ := List.getLast?_eq_some_iff.mp hlast
      have hpart : isPart last = true := hsplit ▸ isPart_append_extension (stem last)
      obtain rfl := eq_of_fileName? hfile hsegs hpart
      have habove : (trimEnd (segments p)).dropLast = above := by
        simp [hsegs, trimEnd, hpart]
      rw [if_neg fun h => hdot h.1, habove, ← hsplit, ← hsegs, ofSegments_segments]

end Path

namespace AtomicWrite

variable {d d' : Disk} {p : String} {written : List UInt8}

/-- What is read of a document whose write has come to nothing. -/
theorem Spares.read?_eq (h : Spares d d' p) (hreach : d.WithinReach p) : d'.read? p = d.read? p :=
  Disk.read?_congr (h.entry_eq hreach)

/-- The temporary file holds what was written to it. -/
theorem Stage.read?_temporary (h : Stage d p (some written) d') :
    d'.read? (temporary p) = some written := by
  cases h with
  | late _ leads slash free sets =>
    exact Disk.read?_eq_some_iff.mpr
      ⟨_, _, leads.of_keeps (sets.keeps free), sets.here leads.ne_root, slash⟩

/-- Where there is a temporary file, it is the document itself only if that has the extension
`tmp`. -/
theorem Stage.temporary_eq_iff (h : Stage d p (some written) d') :
    temporary p = p ↔ Path.hasExtension p "tmp" = true := by
  refine ⟨fun hsame => ?_, fun hext => (Path.temporary_eq_self_iff p).mpr (.inr hext)⟩
  refine ((Path.temporary_eq_self_iff p).mp hsame).resolve_left ?_
  cases h with
  | late _ leads =>
    rw [hsame] at leads
    exact Path.fileName?_ne_none_of_place? leads.place?_eq

/-- **Readers see the old document or the new one.** A document is written in any number of pieces, and
`n` steps are performed, or fewer if one of them fails. As long as the temporary file is not there, and
after a failure, a reader finds the document as it was before. So it is up to the renaming, and from
then on the document is the new one. Only if the file name has the extension `tmp` a reader finds, in
place of the document, the pieces that were written so far. -/
theorem readers_see_old_or_new (d : Disk) (htree : d.IsTree) (p : String)
    (pieces : List (List UInt8)) (n : Nat) :
    let r := run d ((steps p pieces).take n)
    let old := d.KeepsFile r.1 p ∧ (d.WithinReach p → r.1.read? p = d.read? p)
    (n < 2 ∨ r.2 ≠ none → old) ∧
      (2 ≤ n → n < pieces.length + 3 → r.2 = none →
        if Path.hasExtension p "tmp" then r.1.read? p = some (pieces.take (n - 2)).flatten else old) ∧
      (pieces.length + 3 ≤ n → r.2 = none → r.1.read? p = some pieces.flatten) := by
  intro r old
  have hold (hspares : Spares d r.1 p) : old := ⟨hspares.document, hspares.read?_eq⟩
  by_cases hn : n < pieces.length + 3
  · rcases stage_run_take (d := d) (p := p) hn with ⟨hstopped, hstage⟩ | ⟨htwo, hdone, hstage⟩
    · refine ⟨fun _ => hold (hstage.spares htree (.inl rfl)), fun htwo _ hdone => ?_, fun h => ?_⟩
      · exact absurd hdone (hstopped.resolve_left (by omega))
      · omega
    · refine ⟨fun hstopped => ?_, fun _ _ _ => ?_, fun h => by omega⟩
      · exact absurd hdone (hstopped.resolve_left (by omega))
      · split
        · next hext =>
          have hread := hstage.read?_temporary
          rwa [hstage.temporary_eq_iff.mpr hext] at hread
        · next hext =>
          exact hold (hstage.spares htree (.inr fun hsame => hext (hstage.temporary_eq_iff.mp hsame)))
  · have hlength : (steps p pieces).length = pieces.length + 3 := by simp [steps]
    have hall : r = run d (steps p pieces) := by
      show run d ((steps p pieces).take n) = _
      rw [List.take_of_length_le (by omega)]
    rcases run_steps d p pieces with ⟨hfailed, hstage⟩ | ⟨d₂, hstage, hrename⟩
    · rw [← hall] at hfailed hstage
      exact ⟨fun _ => hold (hstage.spares htree (.inl rfl)), fun _ h => absurd h hn,
        fun _ hdone => absurd hdone hfailed⟩
    · rw [← hall, Disk.attempt] at hrename
      split at hrename
      · next d' hok =>
        refine ⟨fun hstopped => ?_, fun _ h => absurd h hn, fun _ _ => ?_⟩
        · exact absurd (by rw [hrename]) (hstopped.resolve_left (by omega))
        · rw [hrename]
          exact (hstage.of_rename hok).1
      · next e herror =>
        have hspares := hstage.spares htree (.inr (hstage.temporary_ne_of_rename_error herror))
        refine ⟨fun _ => hold (by rw [hrename]; exact hspares), fun _ h => absurd h hn,
          fun _ hdone => ?_⟩
        rw [hrename] at hdone
        cases hdone

/-- While a document is written in pieces, readers find the old one, and then the new one. -/
theorem crowded_document_is_old_until_renamed :
    Disk.crowded.IsTree ∧
      (run Disk.crowded ((steps "/p/doc.v1.json" [[4], [], [5]]).take 4)).1.read? "/p/doc.v1.json" =
        some [1] ∧
      (run Disk.crowded ((steps "/p/doc.v1.json" [[4], [], [5]]).take 6)).1.read? "/p/doc.v1.json" =
        some [4, 5] := by
  have htree : Disk.crowded.IsTree := (((Disk.isTree_empty.apply _).apply _).apply _).apply _
  have hread : Disk.crowded.read? "/p/doc.v1.json" = some [1] := by decide +kernel
  have hold := (readers_see_old_or_new Disk.crowded htree "/p/doc.v1.json" [[4], [], [5]] 4).2.1
    (by decide) (by decide) (by decide +kernel)
  have hnew := (readers_see_old_or_new Disk.crowded htree "/p/doc.v1.json" [[4], [], [5]] 6).2.2
    (by decide) (by decide +kernel)
  rw [if_neg (by decide +kernel)] at hold
  exact ⟨htree, (hold.2 (.inl (by decide +kernel))).trans hread, hnew⟩

/-- A disk with a document that has the extension `tmp`. -/
def unprotected : Disk :=
  ((Disk.empty.apply (.makeDirs "/p")).1.apply (.write "/p/doc.tmp" [1, 2])).1

/-- A document with the extension `tmp` is read half written, be it empty or without its last pieces.
And where a directory is missing on a way that goes up through `..`, a reader who found nothing finds
the old document once the directory was created. -/
theorem half_written_document_is_read :
    (¬ ∀ (d : Disk) (pieces : List (List UInt8)) (n : Nat), d.IsTree →
      let seen := (run d ((steps "/p/doc.tmp" pieces).take n)).1.read? "/p/doc.tmp"
      seen = d.read? "/p/doc.tmp" ∨ seen = some pieces.flatten) ∧
      ¬ ∀ (d : Disk) (pieces : List (List UInt8)) (n : Nat), d.IsTree →
        let seen := (run d ((steps "/p/x/../doc.json" pieces).take n)).1.read? "/p/x/../doc.json"
        seen = d.read? "/p/x/../doc.json" ∨ seen = some pieces.flatten := by
  constructor
  · intro h
    have htree : unprotected.IsTree := (Disk.isTree_empty.apply _).apply _
    have hseen := h unprotected [[3], [4]] 3 htree
    revert hseen
    decide +kernel
  · intro h
    have htree : Disk.blocked.IsTree := (Disk.isTree_empty.apply _).apply _
    have hseen := h Disk.blocked [[2]] 1 htree
    revert hseen
    decide +kernel

end AtomicWrite

end DenialMonitor
