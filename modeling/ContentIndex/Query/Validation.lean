import ContentIndex.Graph.Basic
import ContentIndex.Query.Error
import ContentIndex.Query.Selection

/-!
# Valid selections

Every selected field must be declared by a template that the selection may meet, and only fields
that hold objects or references can be selected into.

## Main definitions

* `Graph.Kind.innermost`: the kind of the values in lists
* `Selection.check`: the check of a selection against templates
* `Graph.Collection.checkSelection`: the check against a collection
-/

namespace ContentIndex

namespace Graph

/-- The kind of the values in lists, however deep. -/
def Kind.innermost : Kind → Kind
  | .list items => items.innermost
  | k => k

/-- What a selection may meet: the owner of its fields. -/
structure Scope where
  /-- The name of the owner. -/
  owner : String
  /-- The groups of templates that the owner may have. -/
  groups : List (List Template)
  /-- The owner is a document. -/
  isDocument : Bool

namespace Scope

/-- The system fields of the owner. -/
def isSystemField (s : Scope) (name : String) : Bool :=
  if s.isDocument then [systemCollection, systemPath, systemTemplate].contains name
  else name = systemTemplate

/-- The declarations of a field. -/
def declarations (s : Scope) (name : String) : List Field :=
  s.groups.flatMap fun ts => ts.filterMap (·.field? name)

end Scope

/-- What a selection into a field of the kind may meet. -/
def scopeOf (g : Graph) (location : String) (k : Kind) : Except SelectionFault Scope :=
  match k.innermost with
  | .reference targets =>
    .ok ⟨location, (targets.filterMap g.collection?).map (·.templates), true⟩
  | .object templates => .ok ⟨location, [templates], false⟩
  | k => .error (.plainKind k.label)

end Graph

open ContentIndex.Graph (Scope Field memberLocation)

mutual

/-- Checks a selection against what it may meet. -/
def Selection.check (g : Graph) (scope : Scope) : Selection → Except QueryError Unit
  | .mk fields => Selection.checkFields g scope fields

/-- Checks selected fields in order. -/
def Selection.checkFields (g : Graph) (scope : Scope) :
    List (String × Selection) → Except QueryError Unit
  | [] => .ok ()
  | (name, inner) :: rest => do
    let location := memberLocation scope.owner name
    if scope.isSystemField name then
      if !inner.isEmpty then throw (.invalidSelection location .systemField)
    else
      let fields := scope.declarations name
      fields.forM fun f => do
        if !inner.isEmpty then
          match g.scopeOf location f.kind with
          | .ok scope => inner.check g scope
          | .error fault => throw (.invalidSelection location fault)
      if fields.isEmpty then throw (.unknownField scope.owner name)
    Selection.checkFields g scope rest

end

/-- Checks a selection of documents of a collection. -/
def Graph.Collection.checkSelection (c : Graph.Collection) (g : Graph) (s : Selection) :
    Except QueryError Unit :=
  s.check g ⟨c.name, [c.templates], true⟩

end ContentIndex
