import ContentIndex.Source.Basic

/-!
# A tree of directories as a source

Paths lead through named directories. A path outside of the root is refused, and so is a path
through a file. Writing creates the directories on the way, which stay when the file is deleted.

## Main definitions

* `Directory`, `Directory.Node`: trees
* `Directory.Place.ofPath?`: where a path leads
* `Directory.get`, `Directory.put`, `Directory.delete`, `Directory.list`: the source
-/

namespace ContentIndex

namespace Directory

/-- A file, or a directory with its named entries in order. -/
inductive Node
  | file (content : Bytes)
  | directory (entries : List (String × Node))

instance : Inhabited Node := ⟨.directory []⟩

/-- What a path ends in. -/
inductive Ending
  /-- The name of a file or a directory. -/
  | name
  /-- A slash after the name of a directory. -/
  | slash
  /-- A dot, which stands for the directory named before it. -/
  | dot
  deriving DecidableEq

/-- Where a path leads: through the named directories, and what it ends in. -/
structure Place where
  /-- The names from the root on. -/
  names : List String
  /-- The end of the path. -/
  ending : Ending
  deriving DecidableEq

/-- The path can lead to a directory only. -/
def Place.isDirectory (p : Place) : Bool := p.ending ≠ .name

/-- The parts of a path between slashes. -/
def parts (path : String) : List (List Char) := path.toList.splitOn '/'

/-- Where a path inside the root leads. -/
def Place.ofPath? (path : String) : Option Place :=
  let ps := parts path
  if path.isEmpty || path.toList.head? = some '/' || ps.contains ['.', '.'] then none
  else
    let written := ps.filter (· ≠ [])
    let ending :=
      if written.getLast? = some ['.'] then .dot
      else if ps.getLast? = some [] then .slash
      else .name
    some ⟨(written.filter (· ≠ ['.'])).map String.ofList, ending⟩

/-- The greatest number of bytes in a name. -/
def maxNameSize : Nat := 255

/-- The greatest number of bytes in a path below the root. -/
def maxPathSize : Nat := 4079

/-- A path that no file can have. -/
def isTooLong (path : String) : Bool := maxPathSize < path.utf8ByteSize

/-- A name with a zero character, with which no path is looked up at all. -/
def hasZero (name : String) : Bool := name.toList.contains '\x00'

/-- A name that no file can have. -/
def isUnusable (name : String) : Bool := maxNameSize < name.utf8ByteSize || hasZero name

/-- What a look for a path found. -/
inductive Found
  | node (n : Node)
  /-- A directory on the way, or the last name, is not there. -/
  | missing
  /-- The path leads through a file or has an unusable name. -/
  | blocked

/-- Follows names into a tree. -/
def Node.follow : List String → Node → Found
  | [], n => .node n
  | _ :: _, .file _ => .blocked
  | name :: r, .directory entries =>
    if isUnusable name then .blocked
    else match Entries.find? name entries with
      | some n => n.follow r
      | none => .missing

/-- Looks for names in a tree. -/
def Node.find (names : List String) (n : Node) : Found :=
  if names.any hasZero then .blocked else n.follow names

/-- Puts a file at the end of the names, creating the directories on the way as far as names
allow. The second part says that the file could be written. -/
def Node.put (content : Bytes) : List String → Node → Node × Bool
  | [], .file _ => (.file content, true)
  | [], .directory entries => (.directory entries, false)
  | _ :: _, .file b => (.file b, false)
  | [name], .directory entries =>
    if isUnusable name then (.directory entries, false)
    else match Entries.find? name entries with
      | some (.directory _) => (.directory entries, false)
      | _ => (.directory (Entries.insert name (.file content) entries), true)
  | name :: next :: r, .directory entries =>
    if isUnusable name then (.directory entries, false)
    else
      let inner := (Entries.find? name entries).getD (.directory [])
      let (inner, written) := inner.put content (next :: r)
      (.directory (Entries.insert name inner entries), written)

/-- Creates the directories of the given names as far as that is possible. The second part says
that all of them are there. -/
def Node.make : List String → Node → Node × Bool
  | [], .directory entries => (.directory entries, true)
  | _, .file b => (.file b, false)
  | name :: r, .directory entries =>
    if isUnusable name then (.directory entries, false)
    else
      let inner := (Entries.find? name entries).getD (.directory [])
      let (inner, made) := inner.make r
      (.directory (Entries.insert name inner entries), made)

/-- Removes the file at the end of the names. -/
def Node.remove : List String → Node → Node
  | [name], .directory entries => .directory (Entries.erase name entries)
  | name :: next :: r, .directory entries =>
    match Entries.find? name entries with
    | some n => .directory (Entries.insert name (n.remove (next :: r)) entries)
    | none => .directory entries
  | _, n => n

mutual

/-- The paths of all files in a tree, each after the given start. -/
def Node.paths (start : String) : Node → List String
  | .file _ => [start]
  | .directory entries => Node.entryPaths start entries

/-- The paths of all files in the entries of a directory. -/
def Node.entryPaths (start : String) : List (String × Node) → List String
  | [] => []
  | (name, n) :: r =>
    n.paths (if start.isEmpty then name else start ++ "/" ++ name) ++ Node.entryPaths start r

end

end Directory

/-- A root directory. -/
structure Directory where
  /-- The tree below the root. -/
  root : Directory.Node := .directory []

namespace Directory

/-- A path that leads outside of the root. -/
def outside (path : String) : SourceError :=
  .refused ("Path '" ++ path ++ "' is not relative to the content root")

/-- The content of the file at a path. -/
def get (d : Directory) (path : String) : Except SourceError Bytes :=
  match Place.ofPath? path with
  | none => .error (outside path)
  | some p =>
    if isTooLong path then .error (.unusable path)
    else match d.root.find p.names with
    | .node (.file b) => if p.isDirectory then .error (.unusable path) else .ok b
    | .node (.directory _) | .blocked => .error (.unusable path)
    | .missing => .error (.notFound path)

/-- The tree with the directories around a path that can lead to a directory only, and why no file
can be written there: the named directory may be missing, if the directories around it are there
and the path does not just end in a slash. -/
def refusePut (d : Directory) (path : String) (p : Place) : Directory × SourceError :=
  let (root, made) := d.root.make p.names.dropLast
  match made, p.ending, root.find p.names with
  | true, .dot, .missing => (⟨root⟩, .notFound path)
  | _, _, _ => (⟨root⟩, .unusable path)

/-- The tree with a file at a path. A failure may leave new directories behind. -/
def put (d : Directory) (path : String) (content : Bytes) : Directory × Except SourceError Unit :=
  match Place.ofPath? path with
  | none => (d, .error (outside path))
  | some p =>
    let around := p.names.dropLast
    if around.any hasZero || isTooLong ("/".intercalate around) then (d, .error (.unusable path))
    else if isTooLong path then (⟨(d.root.make around).1⟩, .error (.unusable path))
    else if p.isDirectory then
      let (d, e) := d.refusePut path p
      (d, .error e)
    else
      let (root, written) := d.root.put content p.names
      (⟨root⟩, if written then .ok () else .error (.unusable path))

/-- The tree without the file at a path, which need not be there. -/
def delete (d : Directory) (path : String) : Directory × Except SourceError Unit :=
  match Place.ofPath? path with
  | none => (d, .error (outside path))
  | some p =>
    if isTooLong path then (d, .error (.unusable path))
    else match d.root.find p.names with
    | .node (.file _) =>
      if p.isDirectory then (d, .error (.unusable path))
      else (⟨d.root.remove p.names⟩, .ok ())
    | .node (.directory _) | .blocked => (d, .error (.unusable path))
    | .missing => (d, .ok ())

/-- The start of the paths below a directory: its path as written, without empty parts and without
dots at the front. -/
def listingStart (directory : String) : String :=
  let ps := (parts directory).filter (· ≠ [])
  "/".intercalate ((ps.dropWhile (· = ['.'])).map String.ofList)

/-- The paths of all files below a directory, in order; slashes at its ends do not count. A
backslash in a name is listed as a slash. -/
def list (d : Directory) (directory : String) : Except SourceError (List String) :=
  let dir := String.ofList (Source.trimSlashes (directory.toList.dropWhile (· = '/')))
  let below (start : String) (n : Node) : List String :=
    match n with
    | .file _ => []
    | n => ((n.paths start).map fun p => p.map fun c => if c = '\\' then '/' else c).mergeSort
  if dir.isEmpty then .ok (below "" d.root)
  else match Place.ofPath? dir with
    | none => .error (outside dir)
    | some p =>
      if isTooLong dir then .ok []
      else match d.root.find p.names with
      | .node n => .ok (below (listingStart dir) n)
      | _ => .ok []

end Directory

/-- Where documents come from. -/
inductive Source
  | files (fs : Source.Files)
  | directory (d : Directory)

namespace Source

/-- The content at a path. -/
def get (path : String) : Source → Except SourceError Bytes
  | .files fs => fs.get path
  | .directory d => d.get path

/-- The source with a content at a path. -/
def put (path : String) (content : Bytes) : Source → Source × Except SourceError Unit
  | .files fs => (.files (fs.insert path content), .ok ())
  | .directory d => let (d, r) := d.put path content; (.directory d, r)

/-- The source without the content at a path. -/
def delete (path : String) : Source → Source × Except SourceError Unit
  | .files fs => (.files (fs.erase path), .ok ())
  | .directory d => let (d, r) := d.delete path; (.directory d, r)

/-- The paths below a directory, in order. -/
def list (directory : String) : Source → Except SourceError (List String)
  | .files fs => .ok (fs.list directory)
  | .directory d => d.list directory

end Source

end ContentIndex
