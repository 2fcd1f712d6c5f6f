import DenialMonitor.Proofs.Disk.Parents

set_option autoImplicit false

/-!
# The home directory in paths

A path that starts with the component `~` stands for one below the home directory: the components of
the home directory come in the place of `~`, and all the others stay. Any other path stands for
itself, also where `~` is a later component or a part of one.

## Main results

* `Path.components_join` — what is below a directory has its components in front.
* `Path.head?_components_eq_tilde_iff` — the paths that start with `~`.
* `Path.components_expandHome`, `Path.expandHome_of_head?_ne` — what they and the others stand for.
-/

namespace DenialMonitor.Path

variable {p home base : String} {segs : List String}

/-! ## Slashes -/

theorem segments_ne_nil (p : String) : segments p ≠ [] := by
  simp [segments, Split.pieces]

/-- A slash ends a segment. -/
theorem segments_append_slash (base p : String) :
    segments (base ++ "/" ++ p) = segments base ++ segments p := by
  have hcut := Split.cut_append '/' base.toList ('/' :: p.toList)
  rw [Split.cut_append_cons (Split.isCut_cut '/' base.toList).not_mem_rest] at hcut
  have htoList : (base ++ "/" ++ p).toList = base.toList ++ '/' :: p.toList := by simp
  simp [segments, Split.pieces, htoList, hcut]

theorem head?_segments_append_slash (base p : String) :
    (segments (base ++ "/" ++ p)).head? = (segments base).head? := by
  rw [segments_append_slash, List.head?_append_of_ne_nil _ (segments_ne_nil base)]

theorem parts_append_slash (base p : String) :
    parts (base ++ "/" ++ p) = parts base ++ parts p := by
  rw [parts, segments_append_slash, List.filter_append, parts, parts]

/-- Where a path starts is told by what stands before its first slash. -/
theorem components_append_slash (base p : String) :
    components (base ++ "/" ++ p) = components (base ++ "/" ++ "") ++ parts p := by
  have habsolute : isAbsolute (base ++ "/" ++ p) = isAbsolute (base ++ "/" ++ "") := by
    cases htoList : base.toList <;> simp [isAbsolute, htoList]
  have hempty : parts "" = [] := rfl
  simp only [components, habsolute, head?_segments_append_slash, parts_append_slash, hempty]
  split_ifs <;> simp

/-- A slash at the end of a path that is not empty says nothing. -/
theorem components_slash (h : base ≠ "") : components (base ++ "/" ++ "") = components base := by
  have habsolute : isAbsolute (base ++ "/" ++ "") = isAbsolute base := by
    cases htoList : base.toList with
    | nil => exact absurd (String.toList_eq_nil_iff.mp htoList) h
    | cons c cs => simp [isAbsolute, htoList]
  have hempty : parts "" = [] := rfl
  simp only [components, habsolute, head?_segments_append_slash, parts_append_slash, hempty,
    List.append_nil]

/-- What is below a directory has the components of the directory in front. -/
theorem components_join (h : isAbsolute p = false) (hdot : (segments p).head? ≠ some ".") :
    components (join home p) = components home ++ parts p := by
  rw [join, if_neg (by simp [h])]
  by_cases hempty : home = ""
  · -- there is no directory, and the path starts nowhere in particular
    rw [if_pos (.inl hempty), hempty, String.empty_append, components, if_neg (by simp [h]),
      if_neg hdot]
    rfl
  · split
    · next hslash =>
      obtain ⟨cs, hcs⟩ := List.getLast?_eq_some_iff.mp (hslash.resolve_left hempty)
      have hhome : home = String.ofList cs ++ "/" := String.toList_injective (by simp [hcs])
      rw [hhome, components_append_slash, String.append_empty]
    · rw [components_append_slash, components_slash hempty]

/-! ## Where a path starts -/

/-- An absolute path starts with an empty segment, and of the others only the empty one does. -/
theorem head?_segments_eq_empty_iff :
    (segments p).head? = some "" ↔ isAbsolute p = true ∨ p = "" := by
  constructor
  · intro h
    obtain ⟨rest, hrest⟩ := List.head?_eq_some_iff.mp h
    have hp := ofSegments_segments p
    rw [hrest] at hp
    cases rest with
    | nil => exact .inr hp.symm
    | cons seg rest =>
      refine .inl ?_
      rw [← hp]
      simp [isAbsolute, ofSegments, String.intercalate_cons_cons]
  · rintro (h | rfl)
    · obtain ⟨cs, hcs⟩ := List.head?_eq_some_iff.mp (of_decide_eq_true h)
      have hp : p = "" ++ "/" ++ String.ofList cs := String.toList_injective (by simp [hcs])
      rw [hp, head?_segments_append_slash]
      rfl
    · rfl

/-- A path whose first segment is a part is relative. -/
theorem isAbsolute_eq_false {seg : String} (h : (segments p).head? = some seg)
    (hseg : isPart seg = true) : isAbsolute p = false := by
  rw [← Bool.not_eq_true]
  intro habsolute
  have hempty := head?_segments_eq_empty_iff.mpr (.inl habsolute)
  rw [Option.some_inj.mp (h.symm.trans hempty)] at hseg
  exact absurd hseg (by decide)

theorem head?_segments_ne_dot {seg : String} (h : (segments p).head? = some seg)
    (hseg : isPart seg = true) : (segments p).head? ≠ some "." := by
  intro hdot
  rw [Option.some_inj.mp (h.symm.trans hdot)] at hseg
  exact absurd hseg (by decide)

/-- A path whose first segment is a part has no other components than its parts. -/
theorem components_eq_parts {seg : String} (h : (segments p).head? = some seg)
    (hseg : isPart seg = true) : components p = parts p := by
  rw [components, isAbsolute_eq_false h hseg, if_neg Bool.false_ne_true,
    if_neg (head?_segments_ne_dot h hseg)]

/-- The first component of a path is `~` where its first segment is. -/
theorem head?_components_eq_tilde_iff :
    (components p).head? = some "~" ↔ (segments p).head? = some "~" := by
  obtain ⟨seg, rest, hsegs⟩ := List.exists_cons_of_ne_nil (segments_ne_nil p)
  have hhead : (segments p).head? = some seg := by rw [hsegs]; rfl
  by_cases hseg : isPart seg = true
  · rw [components_eq_parts hhead hseg, parts, hsegs, List.filter_cons_of_pos hseg]
    rfl
  · -- then the path is absolute or empty, or starts with `.`
    have hne : (segments p).head? ≠ some "~" := fun htilde => by
      rw [Option.some_inj.mp (hhead.symm.trans htilde)] at hseg
      exact absurd rfl hseg
    refine iff_of_false ?_ hne
    have hcases : seg = "" ∨ seg = "." := by
      by_contra hcon
      simp_all [isPart]
    rcases hcases with rfl | rfl
    · rcases head?_segments_eq_empty_iff.mp hhead with habsolute | rfl
      · simp [components, habsolute]
      · decide
    · rw [components, if_pos hhead]
      split <;> simp

/-! ## The home directory -/

/-- Without the segments that say nothing at its two ends a path starts with a part. -/
theorem head?_trimEnd_dropWhile {seg : String}
    (h : (trimEnd (segs.dropWhile fun s => !isPart s)).head? = some seg) : isPart seg = true := by
  obtain ⟨rest, hrest⟩ : trimEnd (segs.dropWhile fun s => !isPart s) <+:
      segs.dropWhile fun s => !isPart s := by
    rw [trimEnd, ← List.reverse_suffix, List.reverse_reverse]
    exact List.dropWhile_suffix _
  have hhead : (segs.dropWhile fun s => !isPart s).head? = some seg := by
    rw [← hrest, List.head?_append, h]
    rfl
  have hpart := List.head?_dropWhile_not (fun s => !isPart s) segs
  rw [hhead] at hpart
  simpa using hpart

/-- A path with the first component `~` stands for what has the components of the home directory in
its place, and all its others. -/
theorem components_expandHome (h : (components p).head? = some "~") :
    components (expandHome home p) = components home ++ (components p).tail := by
  obtain ⟨rest, hrest⟩ := List.head?_eq_some_iff.mp (head?_components_eq_tilde_iff.mp h)
  have hcomponents : components p = "~" :: rest.filter isPart := by
    rw [components_eq_parts (head?_components_eq_tilde_iff.mp h) rfl, parts, hrest]
    rfl
  have hexpand : expandHome home p =
      join home (ofSegments (trimEnd (rest.dropWhile fun s => !isPart s))) := by
    simp only [expandHome, hrest]
  rw [hexpand, hcomponents, List.tail_cons, ← filter_dropWhile, ← filter_trimEnd]
  rcases trimEnd_eq (rest.dropWhile fun s => !isPart s) with hnil | ⟨above, last, heq, -⟩
  · rw [hnil]
    exact components_join rfl (by decide)
  · have hsegments : segments (ofSegments (above ++ [last])) = above ++ [last] := by
      refine segments_ofSegments fun seg hseg => slash_not_mem_segments (p := p) ?_
      rw [hrest]
      exact List.mem_cons_of_mem _ (List.dropWhile_subset _ (trimEnd_subset _ (heq ▸ hseg)))
    obtain ⟨first, others, hfirst⟩ := List.exists_cons_of_ne_nil
      (show above ++ [last] ≠ [] by simp)
    have hpart : isPart first = true := head?_trimEnd_dropWhile (by rw [heq, hfirst]; rfl)
    have hhead : (segments (ofSegments (above ++ [last]))).head? = some first := by
      rw [hsegments, hfirst]
      rfl
    rw [heq, components_join (isAbsolute_eq_false hhead hpart) (head?_segments_ne_dot hhead hpart),
      parts, hsegments]

/-- A path with another first component, or with none, stands for itself. -/
theorem expandHome_of_head?_ne (h : (components p).head? ≠ some "~") : expandHome home p = p := by
  unfold expandHome
  split
  · next rest hrest =>
    exact absurd (head?_components_eq_tilde_iff.mpr (by rw [hrest]; rfl)) h
  · rfl

end DenialMonitor.Path
