import ContentIndex.OrderedMap
import ContentIndex.Bytes

/-!
# Content sources

Documents come from a source: a map from paths to contents, or a tree of directories.

## Main definitions

* `SourceError`: why a source does not answer
* `Source.Files`: contents by path
* `Source.isBelow`: the paths below a directory
-/

namespace ContentIndex

/-- Why a source does not answer. -/
inductive SourceError
  /-- There is no document at the path. -/
  | notFound (path : String)
  /-- The path cannot be read or written. -/
  | unusable (path : String)
  /-- The source refuses. -/
  | refused (message : String)
  deriving DecidableEq

/-- The failure in words. The complaint of the file system is not worded. -/
def SourceError.message : SourceError → String
  | .notFound path => "Content not found: " ++ path
  | .unusable path => "IO error on " ++ path ++ ": <detail>"
  | .refused message => "Content source error: " ++ message

namespace Source

/-- The text without slashes at its end. -/
def trimSlashes (cs : List Char) : List Char := (cs.reverse.dropWhile (· = '/')).reverse

/-- The path lies below the directory; slashes at the end of the directory do not count, and every
path lies below the empty one. -/
def isBelow (directory path : String) : Bool :=
  let dir := trimSlashes directory.toList
  dir.isEmpty || (dir ++ ['/']).isPrefixOf path.toList

/-- Contents by path, in path order. -/
abbrev Files := OrderedMap String Bytes

namespace Files

/-- The content at a path. -/
def get (fs : Files) (path : String) : Except SourceError Bytes :=
  match fs.get? path with
  | some b => .ok b
  | none => .error (.notFound path)

/-- The paths below a directory, in order. -/
def list (fs : Files) (directory : String) : List String := fs.keys.filter (isBelow directory)

end Files

end Source

end ContentIndex
