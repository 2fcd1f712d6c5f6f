set_option autoImplicit false

/-!
# The table of a disk

A disk is a tree of directories and files, kept as a table from locations to entries. Every entry
has an identity that tells whether a path still names the same file: it stays when a file is
written in place and changes when a file is recreated or renamed over, since identities are never
used twice.

## Main definitions

* `Location` — the place of an entry in the tree.
* `Entry` — a file or directory with its identity.
* `Disk` — directories and files.
* `Disk.at?` — the entry at a location.
* `Disk.put`, `Disk.drop`, `Disk.create` — changes of the table.

## Main results

* `Disk.at?_put`, `Disk.at?_drop`, `Disk.at?_create` — what each change of the table does to the
  entries that are found.
-/

namespace DenialMonitor

/-- The place of an entry in the tree: the names on the way from the entry up to the root. Their
number stands in front, so that places of different depth are told apart at once. -/
structure Location where
  depth : Nat
  names : List String
  depth_eq : depth = names.length
  deriving DecidableEq, Repr

namespace Location

/-- The root of the tree. -/
def root : Location :=
  ⟨0, [], rfl⟩

/-- The place of the entry `name` in a directory. -/
def child (l : Location) (name : String) : Location :=
  ⟨l.depth + 1, name :: l.names, by simp [l.depth_eq]⟩

/-- The directory above a place. Above the root is the root itself. -/
def up (l : Location) : Location :=
  ⟨l.depth - 1, l.names.tail, by simp [l.depth_eq]⟩

/-- Whether `m` is the place `l` or lies below it. -/
def holds (l m : Location) : Bool :=
  l.names.isSuffixOf m.names

/-- Two places are the same if their names are. -/
theorem eq_of_names_eq {l m : Location} (h : l.names = m.names) : l = m := by
  obtain ⟨_, _, hl⟩ := l
  obtain ⟨_, _, hm⟩ := m
  subst hl hm
  simp_all

@[simp]
theorem up_child (l : Location) (name : String) : (l.child name).up = l :=
  eq_of_names_eq rfl

/-- An entry has another place than its directory. -/
theorem child_ne_root (l : Location) (name : String) : l.child name ≠ root := by
  intro h
  simpa [child, root] using congrArg Location.depth h

/-- A place below a directory tells the directory and the name. -/
theorem child_inj {l m : Location} {a b : String} :
    l.child a = m.child b ↔ l = m ∧ a = b := by
  constructor
  · intro h
    have hn : a :: l.names = b :: m.names := congrArg Location.names h
    injection hn with ha hl
    exact ⟨eq_of_names_eq hl, ha⟩
  · rintro ⟨rfl, rfl⟩
    rfl

end Location

/-- The identity of a file or directory. -/
structure FileId where
  val : Nat
  deriving DecidableEq, Repr

/-- What a directory entry is. -/
inductive Node where
  | directory
  | file (content : List UInt8)
  deriving DecidableEq, Repr

/-- A directory entry. -/
structure Entry where
  id : FileId
  node : Node
  deriving DecidableEq, Repr

/-- The size that a file system gives for an entry. Directories have a size of their own. -/
def Entry.size (e : Entry) : Nat :=
  match e.node with
  | .directory => 4096
  | .file content => content.length

/-- Directories and files. The root is always there. -/
structure Disk where
  entries : List (Location × Entry)
  /-- Above every identity in use. -/
  nextId : Nat
  deriving DecidableEq, Repr

namespace Disk

/-- The disk that holds the root only. -/
def empty : Disk :=
  ⟨[], 1⟩

/-- The entry at a location. -/
def at? (d : Disk) (l : Location) : Option Entry :=
  if l = .root then some ⟨⟨0⟩, .directory⟩ else (d.entries.find? (·.1 = l)).map (·.2)

/-- Puts an entry at a location, in place of the one that is there. -/
def put (d : Disk) (l : Location) (e : Entry) : Disk :=
  { d with entries := (l, e) :: d.entries.filter (·.1 ≠ l) }

/-- Takes the entry at a location away. -/
def drop (d : Disk) (l : Location) : Disk :=
  { d with entries := d.entries.filter (·.1 ≠ l) }

/-- Creates an entry with a new identity. -/
def create (d : Disk) (l : Location) (n : Node) : Disk :=
  { d.put l ⟨⟨d.nextId⟩, n⟩ with nextId := d.nextId + 1 }

/-- Takes away what lies below a location. -/
def clear (d : Disk) (l : Location) : Disk :=
  { d with entries := d.entries.filter fun x => x.1 = l || !l.holds x.1 }

@[simp]
theorem at?_root (d : Disk) : d.at? .root = some ⟨⟨0⟩, .directory⟩ := by
  simp [at?]

/-- Leaving out the entries at `m` changes what is found at `m` only. -/
theorem find?_filter_ne (es : List (Location × Entry)) (l m : Location) :
    (es.filter (·.1 ≠ m)).find? (·.1 = l) = if l = m then none else es.find? (·.1 = l) := by
  rw [List.find?_filter]
  split
  · next h =>
    subst h
    rw [List.find?_eq_none]
    intro p _
    simp
  · next h =>
    congr 1
    funext p
    by_cases hp : p.1 = l
    · simp [hp, h]
    · simp [hp]

/-- Taking an entry away leaves the other locations alone. -/
theorem at?_drop (d : Disk) (l m : Location) (hl : l ≠ .root) :
    (d.drop m).at? l = if l = m then none else d.at? l := by
  simp only [at?, hl, if_false, drop, find?_filter_ne]
  split <;> rfl

/-- What was put at a location is found there, and the other locations stay as they were. -/
theorem at?_put (d : Disk) (l m : Location) (e : Entry) (hl : l ≠ .root) :
    (d.put m e).at? l = if l = m then some e else d.at? l := by
  by_cases h : l = m
  · subst h
    simp [at?, hl, put]
  · have hm : decide (m = l) = false := by simp [Ne.symm h]
    simp only [at?, hl, if_false, put, List.find?_cons, hm, find?_filter_ne, h]

/-- A created entry has an identity that was not in use. -/
theorem at?_create (d : Disk) (l m : Location) (n : Node) (hl : l ≠ .root) :
    (d.create m n).at? l = if l = m then some ⟨⟨d.nextId⟩, n⟩ else d.at? l := by
  rw [← at?_put d l m ⟨⟨d.nextId⟩, n⟩ hl]
  rfl

end Disk

end DenialMonitor
