/-!
# Content schemas

A schema declares collections of documents. A collection lists the fields of its documents, or
several templates with their own fields; a field has a type and, by its type, targets, an item
type or members.

## Main definitions

* `Schema`, `Schema.Collection`: the declarations as they are read
* `Schema.Template`, `Schema.Field`, `Schema.Shape`, `Schema.Items`: templates, fields and all
  about a field but its name
-/

namespace ContentIndex

namespace Schema

/-- The declared type of a field. -/
inductive FieldType
  | string
  | number
  | boolean
  | datetime
  | richText
  | reference
  | list
  | object
  deriving DecidableEq, Repr

mutual

/-- All about a field but its name; list items have a shape of their own. -/
inductive Shape
  | mk (type : FieldType) (required : Bool) (indexed : Option Bool) (targets : List String)
      (items : Option Items) (fields : List Field) (templates : List Template)

/-- The item type of a list: a bare type or a shape. -/
inductive Items
  | bare (type : FieldType)
  | shaped (shape : Shape)

/-- A named field. -/
inductive Field
  | mk (name : String) (shape : Shape)

/-- A named list of fields. -/
inductive Template
  | mk (name : String) (fields : List Field)

end

instance : Inhabited Shape := ⟨.mk .string false none [] none [] []⟩
instance : Inhabited Field := ⟨.mk "" default⟩
instance : Inhabited Template := ⟨.mk "" []⟩

/-- The name of a field. -/
def Field.name : Field → String
  | .mk name _ => name

/-- The shape of a field. -/
def Field.shape : Field → Shape
  | .mk _ shape => shape

/-- A collection of documents below one directory. -/
structure Collection where
  /-- The name of the collection. -/
  name : String
  /-- The directory of its documents. -/
  path : String
  /-- A pattern for the paths below the directory. -/
  pattern : Option String
  /-- The extension of the documents. -/
  format : Option String
  /-- Documents may have declared fields only. -/
  strict : Bool
  /-- The field that orders listings by default. -/
  defaultSort : Option String
  /-- The fields, if the collection has one template of its own name. -/
  fields : List Field
  /-- The templates otherwise. -/
  templates : List Template

end Schema

/-- The declarations of a schema, in order. -/
structure Schema where
  /-- The collections. -/
  collections : List Schema.Collection

end ContentIndex
