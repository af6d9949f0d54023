import ContentIndex.Glob
import ContentIndex.Graph.Kind
import ContentIndex.Json.Printer
import ContentIndex.Sha256

/-!
# Type graphs

A type graph holds the collections of a compiled schema. Its version is a hash of all that
decides how documents are indexed.

## Main definitions

* `Graph.memberLocation`: names that lead to a field
* `Graph.Collection`: a directory of documents with its templates
* `Graph.Collection.containsPath`: the paths that belong to a collection
* `Graph`, `Graph.collection?`, `Graph.owner?`: graphs, their collections by name and by path
* `Graph.referencedBy`: the reference fields that may point into a collection
* `Graph.fingerprint`, `Graph.version`: the hash
-/

namespace ContentIndex

namespace Graph

/-- The system fields of every document. -/
def systemCollection : String := "_collection"

/-- The system field that holds the path. -/
def systemPath : String := "_path"

/-- The system field that holds the template, and the member that chooses it in a document. -/
def systemTemplate : String := "_template"

/-- The location of a member inside another location. -/
def memberLocation (location name : String) : String :=
  if location.isEmpty then name else location ++ "." ++ name

/-- A pattern together with its text. -/
structure PathPattern where
  /-- The text it was read from. -/
  text : String
  /-- What it matches. -/
  glob : Glob
  deriving DecidableEq

/-- A directory of documents and the templates they may have. -/
structure Collection where
  /-- The name of the collection. -/
  name : String
  /-- The directory of its documents, without slashes at its ends. -/
  path : String
  /-- The pattern for paths below the directory. -/
  pattern : Option PathPattern
  /-- The extension of the documents. -/
  format : Option String
  /-- Documents may have declared fields only. -/
  strict : Bool
  /-- The field that orders listings by default; it decides nothing about indexing. -/
  defaultSort : Option String
  /-- The templates, in declaration order. -/
  templates : List Template
  deriving DecidableEq

namespace Collection

/-- Documents may have different templates. -/
def isPolymorphic (c : Collection) : Bool := 1 < c.templates.length

/-- The template of the given name. -/
def template? (c : Collection) (name : String) : Option Template :=
  c.templates.find? (·.name = name)

/-- The first declaration of a field name among the templates. -/
def field? (c : Collection) (name : String) : Option Field :=
  c.templates.findSome? (·.field? name)

/-- Adds a sortable field unless one of its name is there already. -/
def addSortable (fields : List Field) (f : Field) : List Field :=
  if f.isSortable && !fields.any (·.name = f.name) then fields ++ [f] else fields

/-- The fields by which listings can be ordered, one for each name, in declaration order. -/
def sortableFields (c : Collection) : List Field :=
  (c.templates.flatMap (·.fields)).foldl addSortable []

/-- The part of a path below the directory of the collection. -/
def below? (c : Collection) (path : String) : Option (List Char) :=
  let dir := c.path.toList ++ ['/']
  if dir.isPrefixOf path.toList && dir.length < path.toList.length then
    some (path.toList.drop dir.length)
  else none

/-- The part of a path after its last point. -/
def extension? (path : List Char) : Option (List Char) :=
  if path.contains '.' then some (path.reverse.takeWhile (· ≠ '.')).reverse else none

/-- The path belongs to the collection: it lies below its directory and has the format and the
shape that are asked for. -/
def containsPath (c : Collection) (path : String) : Bool :=
  match c.below? path with
  | none => false
  | some rest =>
    c.format.all (fun f => extension? rest = some f.toList) &&
      c.pattern.all (·.glob.accepts rest)

end Collection

/-- A reference field that may point into a collection. -/
structure Edge where
  /-- The collection of the field. -/
  collection : String
  /-- The template of the field. -/
  template : String
  /-- The names that lead from the document to the field, joined by points. -/
  field : String
  deriving DecidableEq

/-- The order by collection, template and field. -/
def Edge.before (a b : Edge) : Bool :=
  if a.collection ≠ b.collection then a.collection < b.collection
  else if a.template ≠ b.template then a.template < b.template
  else a.field < b.field

mutual

/-- The targets of all references in a value of the kind, each with the path to its field. -/
def Kind.targets (path : String) : Kind → List (String × String)
  | .reference targets => targets.map (·, path)
  | .list items => items.targets path
  | .object templates => Template.targets path templates
  | _ => []

/-- The targets of all references in the members of the templates. -/
def Template.targets (path : String) : List Template → List (String × String)
  | [] => []
  | ⟨_, fields⟩ :: r => Field.targets path fields ++ Template.targets path r

/-- The targets of all references in the fields. -/
def Field.targets (path : String) : List Field → List (String × String)
  | [] => []
  | ⟨name, kind, _, _⟩ :: r => kind.targets (path ++ "." ++ name) ++ Field.targets path r

end

/-- The edges of a collection, each with its target. -/
def Collection.edges (c : Collection) : List (String × Edge) :=
  c.templates.flatMap fun t => t.fields.flatMap fun f =>
    (f.kind.targets f.name).map fun (target, path) => (target, ⟨c.name, t.name, path⟩)

/-- Puts an edge into a sorted list without repetitions. -/
def Edge.insert (e : Edge) : List Edge → List Edge
  | [] => [e]
  | d :: r => if e = d then d :: r else if e.before d then e :: d :: r else d :: Edge.insert e r

/-- The reference fields that may point into each collection: targets in order, and the edges of
each in order and without repetitions. -/
def reverseEdges (cs : List Collection) : List (String × List Edge) :=
  (cs.flatMap Collection.edges).foldl
    (fun m (target, e) => Entries.insert target (e.insert ((Entries.find? target m).getD [])) m) []

/-! ### The fingerprint -/

section ToValue

open Json

mutual

/-- A kind, with its name and what belongs to it. -/
def Kind.toValue : Kind → Value
  | .reference targets =>
    .object [("kind", .string "reference"), ("collections", .array (targets.map .string))]
  | .list items => .object [("kind", .string "list"), ("items", items.toValue)]
  | .object templates =>
    .object [("kind", .string "object"), ("templates", .array (Template.toValues templates))]
  | k => .object [("kind", .string k.label)]

/-- Templates in order. -/
def Template.toValues : List Template → List Value
  | [] => []
  | ⟨name, fields⟩ :: r =>
    .object [("name", .string name), ("fields", .array (Field.toValues fields))]
      :: Template.toValues r

/-- Fields in order. -/
def Field.toValues : List Field → List Value
  | [] => []
  | ⟨name, kind, required, indexed⟩ :: r =>
    .object [("name", .string name), ("kind", kind.toValue), ("required", .bool required),
      ("indexed", .bool indexed)] :: Field.toValues r

end

/-- All of a collection but its default order. -/
def Collection.toValue (c : Collection) : Value :=
  .object [
    ("name", .string c.name),
    ("path", .string c.path),
    ("match_glob", .optionalString (c.pattern.map (·.text))),
    ("format", .optionalString c.format),
    ("strict", .bool c.strict),
    ("templates", .array (Template.toValues c.templates))]

/-- An edge. -/
def Edge.toValue (e : Edge) : Value :=
  .object [("collection", .string e.collection), ("template", .string e.template),
    ("field", .string e.field)]

/-- The collections and their edges. -/
def collectionsValue (cs : List Collection) : Value :=
  .object [
    ("collections", .array (cs.map Collection.toValue)),
    ("reverse_refs", .object ((reverseEdges cs).map fun (target, es) =>
      (target, .array (es.map Edge.toValue))))]

end ToValue

/-- The hash of all that decides how documents are indexed. -/
def fingerprint (cs : List Collection) : String := Sha256.hex (collectionsValue cs).bytes

end Graph

/-- The collections of a compiled schema, with their fingerprint. -/
structure Graph where
  /-- The collections, in declaration order. -/
  collections : List Graph.Collection
  /-- The fingerprint of the collections. -/
  version : String
  /-- The version is determined by the collections. -/
  version_eq : version = Graph.fingerprint collections

namespace Graph

/-- The graph of the given collections. -/
def ofCollections (cs : List Collection) : Graph := ⟨cs, fingerprint cs, rfl⟩

theorem eq_iff_collections {g h : Graph} : g = h ↔ g.collections = h.collections := by
  constructor
  · rintro rfl
    rfl
  · obtain ⟨cs, v, hv⟩ := g
    obtain ⟨ds, w, hw⟩ := h
    rintro rfl
    simp [hv, hw]

instance : DecidableEq Graph := fun _ _ => decidable_of_iff' _ eq_iff_collections

/-- The collection of the given name. -/
def collection? (g : Graph) (name : String) : Option Collection :=
  g.collections.find? (·.name = name)

/-- The first collection, in declaration order, that a path belongs to. -/
def owner? (g : Graph) (path : String) : Option Collection :=
  g.collections.find? (·.containsPath path)

/-- The reference fields that may point into a collection. -/
def referencedBy (g : Graph) (name : String) : List Edge :=
  (Entries.find? name (reverseEdges g.collections)).getD []

/-- The graph as JSON. -/
def toValue (g : Graph) : Json.Value := collectionsValue g.collections

end Graph

end ContentIndex
