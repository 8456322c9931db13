import CoherentCache.Bytes

/-!
# The working directory

Settings files are named by paths, and a path is followed part by part, from the working directory
or from the root.  Of the files in the working directory the names and the texts are known; of other
directories no more is known than what every system has.

* `Directory.read?` : the text that a path leads to.
* `Directory.follow` : one part of a path.
-/

namespace CoherentCache

/-- The files of the working directory, each with its name and its text. -/
abbrev Directory := List (Bytes × Bytes)

namespace Directory

/-- A path is shorter than that many bytes. -/
def pathLimit : Nat := 4096

/-- The name of a file is shorter than that many bytes. -/
def nameLimit : Nat := 256

/-- Where a path may lead. -/
inductive Place where
  /-- The working directory. -/
  | here
  /-- The root. -/
  | root
  /-- The directory of devices. -/
  | devices
  /-- A directory of which nothing is known but that it is there. -/
  | elsewhere
  /-- A file with the given text. -/
  | file (text : Bytes)
deriving DecidableEq

namespace Place

/-- What is read at a place.  A directory can be opened like a file, but there is no text in it. -/
def text : Place → Bytes
  | .file text => text
  | _ => []

/-- The directory around a place.  There is none around a file, and the root is around itself. -/
def parent : Place → Option Place
  | .here | .elsewhere => some .elsewhere
  | .root | .devices => some .root
  | .file _ => none

end Place

/-- The directories that every system has at its root, apart from that of the devices. -/
def systemDirectories : List Bytes := ["bin", "etc", "tmp", "usr", "var"].map Bytes.ofString

/-- What is found under a name at a place. -/
def find? (d : Directory) : Place → (name : Bytes) → Option Place
  | .here, name => if name.length < nameLimit then (d.lookup name).map .file else none
  | .root, name =>
    if name = Bytes.ofString "dev" then some .devices
    else if systemDirectories.contains name then some .elsewhere
    else none
  | .devices, name => if name = Bytes.ofString "null" then some (.file []) else none
  | .elsewhere, _ | .file _, _ => none

/-- One part of a path further.  An empty part and a single point stay in the directory, and two
points lead out of it; nothing leads on from a file, not even these. -/
def follow (d : Directory) (place : Place) (part : Bytes) : Option Place :=
  if part = [46, 46] then place.parent
  else if part = [] ∨ part = [46] then place.parent.map fun _ => place
  else d.find? place part

/-- The text that a path leads to, or `none` when it leads nowhere.  A path ends at its first zero
byte, and one that begins with a slash is followed from the root. -/
def read? (d : Directory) (path : Bytes) : Option Bytes :=
  let path := path.untilZero
  if path = [] ∨ pathLimit ≤ path.length then none
  else
    let start := if path.head? = some 47 then Place.root else .here
    ((Bytes.splitAt 47 path).foldlM d.follow start).map Place.text

end Directory

end CoherentCache
