import DenialMonitor.Text.Split

set_option autoImplicit false

/-!
# Paths

A path is a text of segments between slashes. Empty segments and `.` say nothing; the other ones
are the parts of the path.

## Main definitions

* `Path.parts` — the segments that say something.
* `Path.same` — whether two paths say the same.
* `Path.fileName?` — the last part, unless it is `..`.
* `Path.displayName` — what a message calls the file at a path.
* `Path.parent` — the path of the directory that holds a file.
* `Path.withExtension` — the path of a sibling with another extension.
* `Path.join`, `Path.expandHome` — paths below a directory.
-/

namespace DenialMonitor.Path

/-- The segments of `p` between slashes. -/
def segments (p : String) : List String :=
  (Split.pieces '/' p.toList).map String.ofList

/-- The path with the given segments. -/
def ofSegments (segs : List String) : String :=
  "/".intercalate segs

/-- Whether a segment names a directory entry or goes up to the parent. -/
def isPart (seg : String) : Bool :=
  seg != "" && seg != "."

/-- The segments of `p` that say something. -/
def parts (p : String) : List String :=
  (segments p).filter isPart

/-- The segments of `p` that are not empty. -/
def steps (p : String) : List String :=
  (segments p).filter (· != "")

/-- Whether `p` starts at the root. -/
def isAbsolute (p : String) : Bool :=
  p.toList.head? = some '/'

/-- Whether `p` ends in a slash. -/
def endsInSlash (p : String) : Bool :=
  p.toList.getLast? = some '/'

/-- Where `p` starts, and its parts. A path that is not absolute may start at `.`. -/
def components (p : String) : List String :=
  if isAbsolute p then "/" :: parts p
  else if (segments p).head? = some "." then "." :: parts p
  else parts p

/-- Whether two paths say the same. They may still differ in segments that say nothing. -/
def same (p q : String) : Bool :=
  components p = components q

/-- The last part of `p`, unless there is none or it is `..`. -/
def fileName? (p : String) : Option String :=
  (parts p).getLast?.filter (· != "..")

/-- What a message calls the file at `p`: its last part, or all of `p` if it has none. -/
def displayName (p : String) : String :=
  (fileName? p).getD p

/-- The segments without those at the end that say nothing. -/
def trimEnd (segs : List String) : List String :=
  (segs.reverse.dropWhile fun s => !isPart s).reverse

/-- The path of the directory that holds the file at `p`, empty for a single relative part. -/
def parent (p : String) : String :=
  let above := trimEnd (trimEnd (segments p)).dropLast
  if above.all (!isPart ·) then if isAbsolute p then "/" else "" else ofSegments above

/-- A file name up to its last dot. A dot at the start does not begin an extension. -/
def stem (name : String) : String :=
  match name.toList.reverse.dropWhile (· != '.') with
  | '.' :: c :: cs => String.ofList (c :: cs).reverse
  | _ => name

/-- The sibling of `p` with the extension `ext` in place of its own, or after its name if it has
none. A path without a file name stays as it is. A name of two dots and an extension that ends the
path is `..` once the extension is taken off, which is no file name either. -/
def withExtension (p ext : String) : String :=
  match fileName? p with
  | none => p
  | some name =>
    let above := (trimEnd (segments p)).dropLast
    if stem name = "." ∧ (segments p).getLast? = some name then ofSegments (above ++ [".."])
    else ofSegments (above ++ [stem name ++ "." ++ ext])

/-- The path `p` seen from the directory `base`: an absolute path stays, any other one is put
behind `base` and a slash. -/
def join (base p : String) : String :=
  if isAbsolute p then p
  else if base = "" ∨ base.toList.getLast? = some '/' then base ++ p
  else base ++ "/" ++ p

/-- The path `p` with a first segment `~` replaced by `home`. What follows loses the segments
that say nothing at its two ends. -/
def expandHome (home p : String) : String :=
  match segments p with
  | "~" :: rest => join home (ofSegments (trimEnd (rest.dropWhile fun s => !isPart s)))
  | _ => p

end DenialMonitor.Path
