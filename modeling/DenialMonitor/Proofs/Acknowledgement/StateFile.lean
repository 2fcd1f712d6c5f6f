import DenialMonitor.Acknowledgement
import DenialMonitor.Proofs.Denial.RoundTrip
import DenialMonitor.Proofs.Disk.AtomicWrite

set_option autoImplicit false

/-!
# The state file

The identity that was saved is loaded again, whatever characters it has. Until the first identity is
saved there is no state file, and from then on it can be read and holds the one that was saved last:
a save that fails leaves it as it was.

## Main definitions

* `Acknowledgement.Stored` — what the state file holds.
* `Disk.Spares` — a change leaves a file alone.

## Main results

* `Acknowledgement.parse?_fileContent` — an identity is read back.
* `Acknowledgement.Stored.load_eq` — what is stored is loaded.
* `Acknowledgement.Stored.save` — what is stored after a save.
-/

namespace DenialMonitor

namespace Acknowledgement

variable {d d' : Disk} {path : String} {id : RecordId} {x : Option RecordId}

/-! ## The document -/

theorem ofLiterals?_literals (id : RecordId) :
    ofLiterals? (Json.literals (.object [(field, .string id.text)])) = some (some id) := by
  have hmembers := Literals.members?_literals [(field, .string id.text)]
  have hvalue := Literals.optionalString?_literals (some id.text)
  rw [Json.ofString?] at hvalue
  rw [Json.literals] at hmembers
  rw [Json.literals, ofLiterals?]
  · rw [hmembers]
    simp [Literals.fields, ofField?, hvalue]
  · rintro items ⟨⟩

/-- **An identity is read back**, whatever characters it has. -/
theorem parse?_fileContent (id : RecordId) : parse? (fileContent id) = some (some id) := by
  have htokens : tokens? (fileContent id) =
      some (Literals.tokens (Json.literals (.object [(field, .string id.text)]))) := by
    have hwrite := tokens?_write .pretty (.object [(field, .string id.text)]) (.inl rfl)
    rw [List.append_nil] at hwrite
    rw [fileContent, Utf8.encode, Json.pretty, String.toList_ofList, hwrite]
  have hunbounded :
      Reader.Allowed none (Json.literals (.object [(field, .string id.text)])).depth := by
    rintro k hk
    cases hk
  rw [parse?, Literals.parse?_of_tokens htokens hunbounded, Option.bind_some,
    ofLiterals?_literals]

end Acknowledgement

/-- A change leaves a file alone: what can be read can be read as before, and a file that is missing
does not appear. -/
def Disk.Spares (d d' : Disk) (path : String) : Prop :=
  (∀ content ∈ d.read? path, d'.read? path = some content) ∧ (d.NoFile path → d'.NoFile path)

instance (d d' : Disk) (path : String) : Decidable (d.Spares d' path) :=
  inferInstanceAs (Decidable (_ ∧ _))

theorem Disk.KeepsFile.spares {d d' : Disk} {path : String} (h : d.KeepsFile d' path) :
    d.Spares d' path :=
  ⟨fun _ hread => h.read?_of_some hread, h.noFile⟩

namespace Acknowledgement

variable {d d' : Disk} {path : String} {x : Option RecordId}

/-! ## What is stored -/

/-- The state file holds an identity, or there is none. -/
inductive Stored (d : Disk) (path : String) : Option RecordId → Prop
  | nothing (missing : d.NoFile path) : Stored d path none
  | identity {id : RecordId} (read : d.read? path = some (fileContent id)) : Stored d path (some id)

/-- What is stored is loaded. -/
theorem Stored.load_eq (h : Stored d path x) : load d path = x := by
  cases h with
  | nothing missing => rw [load, missing.read?_eq_none, Option.bind_none, Option.join_none]
  | identity read => rw [load, read, Option.bind_some, parse?_fileContent, Option.join_some]

/-- What is stored stays as long as the state file is left alone. -/
theorem Stored.of_spares (h : Stored d path x) (hspares : d.Spares d' path) : Stored d' path x := by
  cases h with
  | nothing missing => exact .nothing (hspares.2 missing)
  | identity read => exact .identity (hspares.1 _ read)

/-- The identity that a save stores, if the save succeeds. -/
def written? (d : Disk) (path : String) (id : RecordId) : Option RecordId :=
  if (save d path id).2.isNone then some id else none

/-- After a save its identity is stored. If the save fails, what was stored still is. -/
theorem Stored.save (h : Stored d path x) (id : RecordId) :
    Stored (save d path id).1 path ((written? d path id).or x) := by
  unfold written?
  match hsave : Acknowledgement.save d path id with
  | (d', none) => exact .identity (Disk.read?_of_writeAtomically_ok hsave)
  | (d', some e) => exact h.of_spares (Disk.keepsFile_of_writeAtomically_error hsave).spares

end Acknowledgement

end DenialMonitor
