import ContentIndex.Schema.Reading
import ContentIndex.Yaml.Record

/-!
# Reading schemas from YAML

Collections and their templates are records in YAML. Fields name themselves there, but all else that
they hold is read as in JSON.

## Main definitions

* `Schema.ofText?`: the schema of a YAML text
-/

namespace ContentIndex.Schema

open Yaml (Node Reading)

/-- A field: its name is read by its spelling, all else as a draft. -/
def Field.ofNode : Node → Reading Field :=
  Node.withMembers fun members => do
    let some name ← Node.uniqueMember? "name" members | failure
    let name ← name.string
    let rest ← (members.filter (·.1 ≠ "name")).mapM fun (k, v) => return (.text k, ← v.draft)
    Field.ofDraft? (.object ((.text "name", .string name) :: rest))

/-- A template. -/
def Template.ofNode : Node → Reading Template :=
  Node.record ["name", "fields"] fun
    | [some name, fields] => do
      return .mk (← name.string) (← Node.optional (Node.list Field.ofNode) [] fields)
    | _ => failure

/-- A collection. -/
def Collection.ofNode : Node → Reading Collection :=
  Node.record Collection.memberNames fun
    | [some name, some path, pattern, format, strict, defaultSort, fields, templates] => do
      return {
        name := ← name.string
        path := ← path.string
        pattern := ← Node.optional (Node.nullable Node.string) none pattern
        format := ← Node.optional (Node.nullable Node.string) none format
        strict := ← Node.optional Node.bool false strict
        defaultSort := ← Node.optional (Node.nullable Node.string) none defaultSort
        fields := ← Node.optional (Node.list Field.ofNode) [] fields
        templates := ← Node.optional (Node.list Template.ofNode) [] templates }
    | _ => failure

end ContentIndex.Schema

namespace ContentIndex

/-- The schema of a YAML node. -/
def Schema.ofNode : Yaml.Node → Yaml.Reading Schema :=
  Yaml.Node.record ["collections"] fun
    | [collections] => do
      return ⟨← Yaml.Node.optional (Yaml.Node.list Schema.Collection.ofNode) [] collections⟩
    | _ => failure

/-- The schema of a YAML text; an empty text is a schema without collections. -/
def Schema.ofText? (text : String) : Option Schema :=
  (Yaml.Document.ofText? text.toList).bind (Yaml.Document.read? Schema.ofNode)

end ContentIndex
