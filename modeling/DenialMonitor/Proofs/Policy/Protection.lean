import DenialMonitor.Path
import DenialMonitor.Policy.Document
import Mathlib.Data.List.Infix

set_option autoImplicit false

/-!
# Protected zones and overrides as places

A zone and an override are compared with a path character by character. Read as a place, each of
them contains itself and what lies below it, where a slash at its end is irrelevant. The two
readings come to the same for an absolute path, apart from two kinds of entries: one that the path
goes on with in the middle of a name, such as `/work/scratch` for `/work/scratchpad.md`, and one
that is the path with a slash at its end. So an override without a slash at its end opens the
siblings whose names begin with its own.

## Main definitions

* `SecurityPolicy.Contains` — an entry contains a path.
* `SecurityPolicy.CutsName` — an entry ends in the middle of a name of a path.
* `SecurityPolicy.IsWithSlash` — an entry is a path with a slash at its end.
* `SecurityPolicy.Counts` — an entry counts for a path.

## Main results

* `SecurityPolicy.counts_iff` — an entry counts for the paths that begin with it.
* `SecurityPolicy.isProtected_iff_contained` — which paths are protected.
* `SecurityPolicy.sibling_of_override_is_open` — a sibling of an override is not protected.
-/

namespace DenialMonitor.SecurityPolicy

/-- The characters of an entry without a slash at its end. -/
def directory (entry : String) : List Char :=
  if Path.endsInSlash entry then entry.toList.dropLast else entry.toList

/-- The entry contains the path: the path is the entry itself, or goes on behind it with a slash. A
slash at the end of the entry is irrelevant. -/
def Contains (entry path : String) : Prop :=
  path.toList = directory entry ∨ directory entry ++ ['/'] <+: path.toList

/-- The entry ends in the middle of a name of the path: it ends in no slash, and the path goes on
behind it with something else than a slash. -/
def CutsName (entry path : String) : Prop :=
  Path.endsInSlash entry = false ∧ ∃ c rest, path.toList = entry.toList ++ c :: rest ∧ c ≠ '/'

/-- The entry is the path with a slash at its end. -/
def IsWithSlash (entry path : String) : Prop :=
  entry.toList = path.toList ++ ['/']

/-- The entry counts for the path: it contains the path and is not the path with a slash at its end,
or it ends in the middle of a name of the path. -/
def Counts (entry path : String) : Prop :=
  Contains entry path ∧ ¬ IsWithSlash entry path ∨ CutsName entry path

instance (entry path : String) : Decidable (Contains entry path) :=
  inferInstanceAs (Decidable (_ ∨ _))

instance (entry path : String) : Decidable (IsWithSlash entry path) :=
  inferInstanceAs (Decidable (_ = _))

variable {entry path : String} {p : SecurityPolicy}

theorem directory_of_endsInSlash (h : Path.endsInSlash entry = true) :
    directory entry ++ ['/'] = entry.toList := by
  have hlast : entry.toList.getLast? = some '/' := of_decide_eq_true h
  rw [directory, if_pos h]
  exact List.dropLast_append_getLast? '/' hlast

theorem directory_of_not_endsInSlash (h : Path.endsInSlash entry = false) :
    directory entry = entry.toList := by
  rw [directory, if_neg (by simp [h])]

/-- A path begins with an entry that ends in a slash if and only if the entry contains it and is not
the path with a slash at its end. -/
theorem startsWith_iff_of_endsInSlash (h : Path.endsInSlash entry = true) :
    entry.toList <+: path.toList ↔ Contains entry path ∧ ¬ IsWithSlash entry path := by
  rw [Contains, IsWithSlash, directory_of_endsInSlash h]
  constructor
  · intro hbegins
    refine ⟨.inr hbegins, fun heq => ?_⟩
    have hle := hbegins.length_le
    rw [heq, List.length_append, List.length_singleton] at hle
    omega
  · rintro ⟨heq | hbegins, hother⟩
    · exact absurd (by rw [heq, directory_of_endsInSlash h]) hother
    · exact hbegins

/-- An absolute path begins with an entry that does not end in a slash if and only if the entry
contains it, or ends in the middle of one of its names. -/
theorem startsWith_iff_of_not_endsInSlash (h : Path.endsInSlash entry = false) :
    entry.toList <+: path.toList ↔ Contains entry path ∨ CutsName entry path := by
  rw [Contains, directory_of_not_endsInSlash h]
  constructor
  · rintro ⟨rest, heq⟩
    cases rest with
    | nil => exact .inl (.inl (by simpa using heq.symm))
    | cons c rest =>
      by_cases hc : c = '/'
      · exact .inl (.inr ⟨rest, by simp [← heq, hc]⟩)
      · exact .inr ⟨h, c, rest, heq.symm, hc⟩
  · rintro ((heq | hbegins) | ⟨-, c, rest, heq, -⟩)
    · exact heq ▸ List.prefix_refl _
    · exact (List.prefix_append _ _).trans hbegins
    · exact ⟨c :: rest, heq.symm⟩

/-- An entry counts for the paths that begin with it. -/
theorem counts_iff : Counts entry path ↔ entry.toList <+: path.toList := by
  rw [Counts]
  cases h : Path.endsInSlash entry with
  | true =>
    rw [startsWith_iff_of_endsInSlash h]
    exact or_iff_left fun hcuts => by simp [CutsName, h] at hcuts
  | false =>
    rw [startsWith_iff_of_not_endsInSlash h]
    refine or_congr_left (and_iff_left_of_imp fun _ heq => ?_)
    have hlast : entry.toList.getLast? = some '/' := by
      rw [show entry.toList = path.toList ++ ['/'] from heq, List.getLast?_concat]
    simp [Path.endsInSlash, hlast] at h

theorem startsWithAny_iff {entries : List String} :
    startsWithAny entries path = true ↔ ∃ entry ∈ entries, Counts entry path := by
  simp only [startsWithAny, List.any_eq_true, List.isPrefixOf_iff_prefix, counts_iff]

/-- **Which paths are protected.** A path is protected if and only if some zone counts for it and no
override does. So where no entry ends in the middle of a name of the path or is the path with a
slash at its end, the path is protected if and only if some zone contains it and no override
does. -/
theorem isProtected_iff_contained (p : SecurityPolicy) (path : String) :
    (p.isProtected path = true ↔
      (∃ zone ∈ p.protectedZones, Counts zone path) ∧
        ¬ ∃ override ∈ p.temporaryOverrides, Counts override path) ∧
    ((∀ entry ∈ p.protectedZones ++ p.temporaryOverrides,
        ¬ CutsName entry path ∧ ¬ IsWithSlash entry path) →
      (p.isProtected path = true ↔
        (∃ zone ∈ p.protectedZones, Contains zone path) ∧
          ¬ ∃ override ∈ p.temporaryOverrides, Contains override path)) := by
  have hprotected : p.isProtected path = true ↔
      (∃ zone ∈ p.protectedZones, Counts zone path) ∧
        ¬ ∃ override ∈ p.temporaryOverrides, Counts override path := by
    rw [isProtected, Bool.and_eq_true, Bool.not_eq_true', ← Bool.not_eq_true, startsWithAny_iff,
      startsWithAny_iff]
  refine ⟨hprotected, fun hplain => ?_⟩
  have hentry (entry : String) (hmem : entry ∈ p.protectedZones ++ p.temporaryOverrides) :
      Counts entry path ↔ Contains entry path := by
    obtain ⟨hcuts, hslash⟩ := hplain entry hmem
    rw [Counts, or_iff_left hcuts, and_iff_left hslash]
  rw [hprotected]
  refine and_congr (exists_congr fun zone => and_congr_right fun hmem => ?_)
    (not_congr (exists_congr fun override => and_congr_right fun hmem => ?_))
  · exact hentry zone (List.mem_append_left _ hmem)
  · exact hentry override (List.mem_append_right _ hmem)

/-- A policy with a zone and an override in it. -/
def scratchIsOpen : SecurityPolicy :=
  { empty with protectedZones := ["/work/"], temporaryOverrides := ["/work/scratch"] }

/-- A file in the zone is protected, and what lies below the override is not. -/
theorem zone_without_override_is_protected :
    scratchIsOpen.isProtected "/work/src/main.rs" = true ∧
      scratchIsOpen.isProtected "/work/scratch/notes.md" = false := by
  have hzone (path : String) : ¬ CutsName "/work/" path := fun h => absurd h.1 (by decide)
  have hmain : ¬ CutsName "/work/scratch" "/work/src/main.rs" := fun h =>
    absurd (counts_iff.mp (.inr h)) (by decide)
  have hnotes : ¬ CutsName "/work/scratch" "/work/scratch/notes.md" := by
    rintro ⟨-, c, rest, heq, hc⟩
    have hnext : some '/' = some c := congrArg (fun cs => cs[13]?) heq
    exact hc (Option.some.inj hnext).symm
  constructor
  · refine ((isProtected_iff_contained scratchIsOpen "/work/src/main.rs").2 ?_).mpr (by decide)
    simpa [scratchIsOpen, empty] using ⟨⟨hzone _, by decide⟩, hmain, by decide⟩
  · rw [← Bool.not_eq_true]
    refine (not_congr ((isProtected_iff_contained scratchIsOpen "/work/scratch/notes.md").2 ?_)).mpr
      (by decide)
    simpa [scratchIsOpen, empty] using ⟨⟨hzone _, by decide⟩, hnotes, by decide⟩

/-- A sibling of an override, whose name begins with that of the override, lies in the zone and not
below the override, but is not protected. -/
theorem sibling_of_override_is_open :
    ¬ ∀ (p : SecurityPolicy) (path : String), Path.isAbsolute path = true →
      (p.isProtected path = true ↔
        (∃ zone ∈ p.protectedZones, Contains zone path) ∧
          ¬ ∃ override ∈ p.temporaryOverrides, Contains override path) := by
  intro h
  have hsibling := (h scratchIsOpen "/work/scratchpad.md" (by decide)).mpr (by decide)
  exact absurd hsibling (by decide)

end DenialMonitor.SecurityPolicy
