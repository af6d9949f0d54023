import ContentIndex.Json.Record
import ContentIndex.Schema.Definition

/-!
# Reading schemas from JSON

Each declaration is a record. A field names itself and its shape in one object, by texts alone; the
type of list items is the name of a type or a shape.

## Main definitions

* `Schema.ofDraft?`: the schema written in a draft
* `Schema.Field.ofDraft?`, `Schema.Template.ofDraft?`, `Schema.Collection.ofDraft?`: its parts
-/

namespace ContentIndex.Schema

open Json

/-- The type of the given name; some types have further names. -/
def FieldType.ofName? (name : String) : Option FieldType :=
  match name with
  | "string" => some .string
  | "number" => some .number
  | "boolean" => some .boolean
  | "datetime" | "date" => some .datetime
  | "rich-text" | "rich_text" | "richtext" => some .richText
  | "reference" | "ref" => some .reference
  | "list" => some .list
  | "object" => some .object
  | _ => none

/-- All types, by their positions. -/
def FieldType.all : List FieldType :=
  [.string, .number, .boolean, .datetime, .richText, .reference, .list, .object]

/-- The type that a name or a position stands for. -/
def FieldType.ofVariant? : MemberName → Option FieldType
  | .text name => FieldType.ofName? name
  | .position n => FieldType.all[n]?
  | .unreadable => none

/-- The type written in a draft. The type of a field is set aside before it is known what it belongs
to, that of list items is not. -/
def FieldType.ofDraft? (setAside : Bool) (d : Draft) : Option FieldType :=
  (d.bareVariant? setAside).bind FieldType.ofVariant?

/-- The members that make up the shape of a field. -/
def Shape.memberNames : List String :=
  ["type", "required", "indexed", "collections", "items", "fields", "templates"]

mutual

/-- The shape of a field or of list items, written in a draft whose nesting is bounded by the second
argument. -/
def Shape.ofDraftWithin? (ofField : Bool) : Nat → Draft → Option Shape
  | 0, _ => none
  | n + 1, d => do
    match ← d.fields? Shape.memberNames with
    | [some type, required, indexed, targets, items, fields, templates] =>
      return .mk (← FieldType.ofDraft? ofField type)
        (← Draft.optional Draft.bool? false required)
        (← Draft.optional (Draft.nullable? Draft.bool?) none indexed)
        (← Draft.optional (Draft.list? Draft.string?) [] targets)
        (← Draft.optional (Draft.nullable? (Items.ofDraftWithin? n)) none items)
        (← Draft.optional (Draft.list? (Field.ofDraftWithin? n)) [] fields)
        (← Draft.optional (Draft.list? (Template.ofDraftWithin? n)) [] templates)
    | _ => none

/-- The item type of a list. -/
def Items.ofDraftWithin? : Nat → Draft → Option Items
  | 0, _ => none
  | n + 1, d => match FieldType.ofDraft? false d with
    | some type => some (.bare type)
    | none => (Shape.ofDraftWithin? false n d).map .shaped

/-- A field: an object with its name and the members of its shape. -/
def Field.ofDraftWithin? : Nat → Draft → Option Field
  | 0, _ => none
  | n + 1, d => do
    let members ← d.members?
    let name ← (← Draft.namedMember? "name" members).bind Draft.string?
    let named := members.filter (·.1.text?.isSome)
    return .mk name (← Shape.ofDraftWithin? true n (.object named))

/-- A template. -/
def Template.ofDraftWithin? : Nat → Draft → Option Template
  | 0, _ => none
  | n + 1, d => do
    match ← d.fields? ["name", "fields"] with
    | [some name, fields] =>
      return .mk (← name.string?)
        (← Draft.optional (Draft.list? (Field.ofDraftWithin? n)) [] fields)
    | _ => none

end

/-- A bound on the steps that reading a draft takes: at most three for each level. -/
def readingSteps (d : Draft) : Nat := 3 * d.depth + 3

/-- A field. -/
def Field.ofDraft? (d : Draft) : Option Field := Field.ofDraftWithin? (readingSteps d) d

/-- A template. -/
def Template.ofDraft? (d : Draft) : Option Template := Template.ofDraftWithin? (readingSteps d) d

/-- The members that make up a collection. -/
def Collection.memberNames : List String :=
  ["name", "path", "match", "format", "strict", "default_sort", "fields", "templates"]

/-- A collection. -/
def Collection.ofDraft? (d : Draft) : Option Collection := do
  match ← d.fields? Collection.memberNames with
  | [some name, some path, pattern, format, strict, defaultSort, fields, templates] =>
    return {
      name := ← name.string?
      path := ← path.string?
      pattern := ← Draft.optional (Draft.nullable? Draft.string?) none pattern
      format := ← Draft.optional (Draft.nullable? Draft.string?) none format
      strict := ← Draft.optional Draft.bool? false strict
      defaultSort := ← Draft.optional (Draft.nullable? Draft.string?) none defaultSort
      fields := ← Draft.optional (Draft.list? Field.ofDraft?) [] fields
      templates := ← Draft.optional (Draft.list? Template.ofDraft?) [] templates }
  | _ => none

end ContentIndex.Schema

namespace ContentIndex

/-- The schema written in a draft. -/
def Schema.ofDraft? (d : Json.Draft) : Option Schema := do
  match ← d.fields? ["collections"] with
  | [collections] =>
    return ⟨← Json.Draft.optional (Json.Draft.list? Collection.ofDraft?) [] collections⟩
  | _ => none

end ContentIndex
