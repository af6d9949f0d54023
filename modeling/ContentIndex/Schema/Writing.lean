import ContentIndex.Json.Basic
import ContentIndex.Schema.Definition

/-!
# Schemas as JSON

## Main definitions

* `Schema.toValue`: every declaration with all of its members
-/

namespace ContentIndex.Schema

open Json

/-- The name of a type. -/
def FieldType.name : FieldType → String
  | .string => "string"
  | .number => "number"
  | .boolean => "boolean"
  | .datetime => "datetime"
  | .richText => "rich-text"
  | .reference => "reference"
  | .list => "list"
  | .object => "object"

mutual

/-- The members that a shape adds to its field. -/
def Shape.members : Shape → List (String × Value)
  | .mk type required indexed targets items fields templates =>
    [("type", .string type.name),
      ("required", .bool required),
      ("indexed", match indexed with
        | some b => .bool b
        | none => .null),
      ("collections", .array (targets.map .string)),
      ("items", match items with
        | some i => i.toValue
        | none => .null),
      ("fields", .array (Field.toValues fields)),
      ("templates", .array (Template.toValues templates))]

/-- The item type of a list. -/
def Items.toValue : Items → Value
  | .bare type => .string type.name
  | .shaped shape => .object shape.members

/-- A field. -/
def Field.toValue : Field → Value
  | .mk name shape => .object (("name", .string name) :: shape.members)

/-- Fields in order. -/
def Field.toValues : List Field → List Value
  | [] => []
  | f :: r => f.toValue :: Field.toValues r

/-- A template. -/
def Template.toValue : Template → Value
  | .mk name fields => .object [("name", .string name), ("fields", .array (Field.toValues fields))]

/-- Templates in order. -/
def Template.toValues : List Template → List Value
  | [] => []
  | t :: r => t.toValue :: Template.toValues r

end

/-- A collection. -/
def Collection.toValue (c : Collection) : Value :=
  .object [
    ("name", .string c.name),
    ("path", .string c.path),
    ("match", .optionalString c.pattern),
    ("format", .optionalString c.format),
    ("strict", .bool c.strict),
    ("default_sort", .optionalString c.defaultSort),
    ("fields", .array (Field.toValues c.fields)),
    ("templates", .array (Template.toValues c.templates))]

end ContentIndex.Schema

namespace ContentIndex

/-- A schema. -/
def Schema.toValue (s : Schema) : Json.Value :=
  .object [("collections", .array (s.collections.map Collection.toValue))]

end ContentIndex
