import DenialMonitor.Disk.Table
import DenialMonitor.Path

set_option autoImplicit false

/-!
# Disks

A path leads from the root from one directory to the next, up to its last segment. What the last
segment may be depends on the operation: `.` and `..` lead to a directory that is there already,
and a slash at the end is for directories only.

An operation that fails leaves the disk as it was, except that creating directories keeps those
that were created before, and that a directory loses what it holds before it is removed itself.

## Main definitions

* `OsError` — why an operation is refused.
* `Disk.follow` — where a path leads.
* `Disk.entry`, `Disk.read` — what a path names and what the file there holds.
* `Disk.write`, `Disk.append`, `Disk.rename`, `Disk.remove` — operations on files.
* `Disk.makeDirs`, `Disk.removeDir` — operations on directories.
-/

namespace DenialMonitor

/-- Why the operating system refuses an operation. -/
inductive OsError where
  | notFound
  | permissionDenied
  | busy
  | alreadyExists
  | notADirectory
  | isADirectory
  | invalidArgument
  | nameTooLong
  | nulInName
  deriving DecidableEq, Repr

/-- The text of an error. -/
def OsError.message : OsError → String
  | .notFound => "No such file or directory (os error 2)"
  | .permissionDenied => "Permission denied (os error 13)"
  | .busy => "Device or resource busy (os error 16)"
  | .alreadyExists => "File exists (os error 17)"
  | .notADirectory => "Not a directory (os error 20)"
  | .isADirectory => "Is a directory (os error 21)"
  | .invalidArgument => "Invalid argument (os error 22)"
  | .nameTooLong => "File name too long (os error 36)"
  | .nulInName => "file name contained an unexpected NUL byte"

namespace Disk

/-! ## Paths -/

/-- The greatest number of bytes in a name. -/
def maxName : Nat := 255

/-- The greatest number of bytes in a path. -/
def maxPath : Nat := 4095

/-- Why a text cannot be a path, whatever is on the disk. -/
def pathError? (p : String) : Option OsError :=
  if p.toList.any (· = Char.ofNat 0) then some .nulInName
  else if maxPath < p.utf8ByteSize then some .nameTooLong
  else none

/-- Where a path leads. -/
inductive Target where
  /-- To the entry of a directory, which need not exist. -/
  | named (directory : Location) (name : String)
  /-- Through `.` or `..` to a directory that exists, or to the root. -/
  | dots (directory : Location)
  deriving DecidableEq, Repr

/-- The entry `name` of a directory, if there is one. -/
def lookup (d : Disk) (l : Location) (name : String) : Except OsError (Option Entry) :=
  if maxName < name.utf8ByteSize then .error .nameTooLong else .ok (d.at? (l.child name))

/-- Where steps lead to from the directory `l`. Every name but the last must be that of a
directory. -/
def walk (d : Disk) (l : Location) : List String → Except OsError Target
  | [] => .ok (.dots l)
  | "." :: steps => d.walk l steps
  | ".." :: steps => d.walk l.up steps
  | [name] => .ok (.named l name)
  | name :: steps =>
    match d.lookup l name with
    | .error e => .error e
    | .ok none => .error .notFound
    | .ok (some ⟨_, .file _⟩) => .error .notADirectory
    | .ok (some ⟨_, .directory⟩) => d.walk (l.child name) steps

/-- Where the path `p` leads. -/
def follow (d : Disk) (p : String) : Except OsError Target :=
  match pathError? p with
  | some e => .error e
  | none => if p = "" then .error .notFound else d.walk .root (Path.steps p)

/-- The entry that the path `p` names. -/
def entry (d : Disk) (p : String) : Except OsError Entry := do
  match ← d.follow p with
  | .dots l =>
    match d.at? l with
    | some e => .ok e
    | none => .error .notFound
  | .named l name =>
    match ← d.lookup l name with
    | none => .error .notFound
    | some ⟨id, .directory⟩ => .ok ⟨id, .directory⟩
    | some ⟨id, .file content⟩ =>
      if Path.endsInSlash p then .error .notADirectory else .ok ⟨id, .file content⟩

/-- The identity of what the path `p` names. -/
def identity? (d : Disk) (p : String) : Option FileId :=
  (d.entry p).toOption.map (·.id)

/-- The disk after an operation that leaves it as it was where it fails. -/
def attempt (d : Disk) (f : Disk → Except OsError Disk) : Disk × Option OsError :=
  match f d with
  | .ok d => (d, none)
  | .error e => (d, some e)

/-! ## Files -/

/-- What the file at `p` holds. -/
def read (d : Disk) (p : String) : Except OsError (List UInt8) := do
  match (← d.entry p).node with
  | .directory => .error .isADirectory
  | .file content => .ok content

/-- What the file at `p` holds, if it can be read. -/
def read? (d : Disk) (p : String) : Option (List UInt8) :=
  (d.read p).toOption

/-- Writes a file in place, or creates it. -/
def write (d : Disk) (p : String) (content : List UInt8) : Except OsError Disk := do
  match ← d.follow p with
  | .dots _ => .error .isADirectory
  | .named l name =>
    if Path.endsInSlash p then .error .isADirectory
    else
      match ← d.lookup l name with
      | some ⟨_, .directory⟩ => .error .isADirectory
      | some ⟨id, .file _⟩ => .ok (d.put (l.child name) ⟨id, .file content⟩)
      | none => .ok (d.create (l.child name) (.file content))

/-- Writes behind the end of a file that exists. -/
def append (d : Disk) (p : String) (content : List UInt8) : Except OsError Disk := do
  match ← d.follow p with
  | .dots _ => .error .isADirectory
  | .named l name =>
    match ← d.lookup l name with
    | none => .error .notFound
    | some ⟨_, .directory⟩ => .error .isADirectory
    | some ⟨id, .file old⟩ =>
      if Path.endsInSlash p then .error .notADirectory
      else .ok (d.put (l.child name) ⟨id, .file (old ++ content)⟩)

/-- Renames the file at `p` to `q`, over the file that is there. The file keeps its identity. -/
def rename (d : Disk) (p q : String) : Except OsError Disk := do
  match ← d.follow p, ← d.follow q with
  | .named l a, .named m b =>
    match ← d.lookup l a with
    | none => .error .notFound
    | some ⟨_, .directory⟩ => .error .isADirectory
    | some ⟨id, .file content⟩ =>
      let target ← d.lookup m b
      if Path.endsInSlash p ∨ Path.endsInSlash q then .error .notADirectory
      else
        match target with
        | some ⟨_, .directory⟩ => .error .isADirectory
        | _ =>
          if l.child a = m.child b then .ok d
          else .ok ((d.drop (l.child a)).put (m.child b) ⟨id, .file content⟩)
  | _, _ => .error .busy

/-- Removes the file at `p`. -/
def remove (d : Disk) (p : String) : Except OsError Disk := do
  match ← d.follow p with
  | .dots _ => .error .isADirectory
  | .named l name =>
    match ← d.lookup l name with
    | none => .error .notFound
    | some ⟨_, .directory⟩ => .error .isADirectory
    | some ⟨_, .file _⟩ =>
      if Path.endsInSlash p then .error .notADirectory else .ok (d.drop (l.child name))

/-! ## Directories -/

/-- Creates the directories that are missing on the way from `l` along `parts`, and tells why it
has to stop. A path that ends in `.` asks that its last part be there. A file that stands in the
way is met while the path is followed, and, as soon as a directory was created, while its own name
is to be created. -/
def makeDirsAlong (d : Disk) (l : Location) (endsInDot created : Bool) :
    List String → Disk × Option OsError
  | [] => (d, none)
  | name :: parts =>
    if name = ".." then d.makeDirsAlong l.up endsInDot created parts
    else
      match d.lookup l name with
      | .error e => (d, some e)
      | .ok (some ⟨_, .directory⟩) => d.makeDirsAlong (l.child name) endsInDot created parts
      | .ok (some ⟨_, .file _⟩) =>
        let atEnd := parts = [] ∧ !endsInDot
        let ownName := parts ≠ [] ∧ created
        (d, some (if atEnd ∨ ownName then .alreadyExists else .notADirectory))
      | .ok none =>
        if parts = [] ∧ endsInDot then (d, some .notFound)
        else (d.create (l.child name) .directory).makeDirsAlong (l.child name) endsInDot true parts

/-- Creates the directory at `p` and those above it that are missing. Where it fails, the
directories that were created stay. -/
def makeDirs (d : Disk) (p : String) : Disk × Option OsError :=
  match pathError? p with
  | some e => (d, some e)
  | none =>
    d.makeDirsAlong .root ((Path.steps p).getLast? = some ".") false (Path.parts p)

/-- Removes the directory at `p` with all it holds. Through `.` a directory only loses what it
holds; what `..` leads to is gone once the directory below it is. -/
def removeDir (d : Disk) (p : String) : Disk × Option OsError :=
  match d.entry p, d.follow p with
  | .error e, _ | _, .error e => (d, some e)
  | .ok ⟨_, .file _⟩, _ => (d, some .notADirectory)
  | .ok ⟨_, .directory⟩, .ok (.named l name) =>
    ((d.clear (l.child name)).drop (l.child name), none)
  | .ok ⟨_, .directory⟩, .ok (.dots l) =>
    (d.clear l, if (Path.steps p).getLast? = some "." then some .invalidArgument else none)

end Disk

end DenialMonitor
