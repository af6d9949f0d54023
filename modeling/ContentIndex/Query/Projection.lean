import ContentIndex.Query.Request
import ContentIndex.Query.Snapshot

/-!
# Projections

A projection turns a record into JSON by a selection. Selected references are followed to the
documents that they name; where there is none, the place becomes `null` and is noted.

## Main definitions

* `Composite`: documents and objects alike, as a projection sees them
* `Graph.Kind.walk`: the values in lists
* `Snapshot.follow`: the document that a reference names
* `Selection.project`: the projection
-/

namespace ContentIndex

open ContentIndex.Graph
  (Kind Template memberLocation systemCollection systemPath systemTemplate)
open Json (Value)

/-- Something with fields: a document, or an object in one. -/
structure Composite where
  /-- The templates that it may have. -/
  templates : List Template
  /-- The name of the template that it has. -/
  template : String
  /-- Its fields. -/
  fields : List (String × FieldValue)
  /-- Its system fields. -/
  system : List (String × Value)

namespace Composite

/-- A document of a collection. -/
def ofRecord (c : Graph.Collection) (r : Record) : Composite where
  templates := c.templates
  template := r.template
  fields := r.fields
  system := [(systemCollection, .string r.collection), (systemPath, .string r.path),
    (systemTemplate, .string r.template)]

/-- An object that has one of the templates. -/
def ofObject (templates : List Template) (template : String)
    (fields : List (String × FieldValue)) : Composite where
  templates := templates
  template := template
  fields := fields
  system := [(systemTemplate, .string template)]

/-- The kind and the value of a field; none if it is not set or its template does not declare
it. -/
def field? (x : Composite) (name : String) : Option (Kind × FieldValue) := do
  let t ← x.templates.find? (·.name = x.template)
  let f ← t.field? name
  return (f.kind, ← Entries.find? name x.fields)

/-- Members in order, with the template among them if there is a choice of templates. -/
def withTemplate (x : Composite) (members : List (String × Value)) : Value :=
  if 1 < x.templates.length && !Entries.contains systemTemplate members then
    .object (Entries.insert systemTemplate (.string x.template) members)
  else .object members

end Composite

/-- Applies `visit` to a value, or to all values in it if it is a list. -/
def Graph.Kind.walk {m : Type → Type} [Monad m] (visit : Kind → FieldValue → String → m Value) :
    Kind → FieldValue → String → m Value
  | .list items, .list vs, location => do
    let walked ← vs.zipIdx.mapM fun (v, i) =>
      items.walk visit v (location ++ "[" ++ toString i ++ "]")
    return .array walked
  | k, v, location => visit k v location

/-- A step of a projection, which may note references that lead nowhere. -/
abbrev Projecting := StateT (List Dangling) (Failing QueryError)

/-- The document that a reference names. It must lie in one of the allowed collections; if it is
not there, that is noted. -/
def Snapshot.follow (s : Snapshot) (allowed : List String) (t : Target) (location : String) :
    Projecting (Option Composite) := do
  match (t.collection.filter allowed.contains).bind s.graph.collection? with
  | none => throw (.invalidReference location t.path allowed)
  | some c =>
    match ← (s.record? c.name t.path : Failing QueryError _) with
    | some r => return some (.ofRecord c r)
    | none =>
      modify (· ++ [⟨location, c.name, t.path⟩])
      return none

mutual

/-- The selected fields of a document or an object, or all of them if none is selected. -/
def Selection.project (s : Snapshot) (x : Composite) (location : String) :
    Selection → Projecting Value
  | .mk fields => do
    if fields.isEmpty then return x.withTemplate (FieldValue.fieldsToJson x.fields)
    else return x.withTemplate (Entries.ofList (← Selection.projectFields s x location fields))

/-- Selected fields, in order; what is not set is `null`. -/
def Selection.projectFields (s : Snapshot) (x : Composite) (location : String) :
    List (String × Selection) → Projecting (List (String × Value))
  | [] => return []
  | (name, inner) :: rest => do
    let value ← match Entries.find? name x.system, x.field? name with
      | some v, _ => pure v
      | none, none => pure Value.null
      | none, some (kind, v) =>
        kind.walk
          (fun
            | .object templates, .object template fields, here =>
              inner.project s (.ofObject templates template fields) here
            | .reference allowed, .reference target, here => do
              if inner.isEmpty then return .string target.path
              else match ← s.follow allowed target here with
                | some document => inner.project s document here
                | none => return .null
            | _, v, _ => return v.toJson)
          v (memberLocation location name)
    return (name, value) :: (← Selection.projectFields s x location rest)

end

end ContentIndex
