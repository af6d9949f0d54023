import ContentIndex.Json.Record
import ContentIndex.Json.Printer
import ContentIndex.Json.Reader

/-!
# Index records

A record is what the index keeps of one document: its template and its field values, each tagged
with the kind of its field. Field maps are kept in key order, so equal records have equal bytes.

## Main definitions

* `FieldValue`, `Target`: tagged values and the targets of references
* `FieldValue.toJson`: the plain value
* `FieldValue.references`: the references in a value with their field paths
* `Record`, `Record.toBytes`, `Record.ofBytes?`: records and their stored form
-/

namespace ContentIndex

open Json

-- powers as in the core library, whichever other modules are read
attribute [local instance (2000)] instPowNat

/-- What a reference points at. -/
structure Target where
  /-- The collection that the path belongs to, if an allowed one was found. -/
  collection : Option String
  /-- The path of the document. -/
  path : String
  deriving DecidableEq

/-- A field value, tagged by the kind of its field; a datetime is in canonical form. -/
inductive FieldValue
  | string (s : String)
  | number (x : Binary64)
  | boolean (b : Bool)
  | datetime (s : String)
  | richText (v : Value)
  | reference (t : Target)
  | list (items : List FieldValue)
  | object (template : String) (fields : List (String × FieldValue))

instance : Inhabited FieldValue := ⟨.boolean false⟩

/-- A whole number of at most 15 digits or so is written without point, another one as a
double. -/
def numberToJson (x : Binary64) : Value :=
  match x.toInt? with
  | some i =>
    if i.natAbs < 9 * 10 ^ (15 : Nat) then
      match Number.ofInt? i with
      | some n => .number n
      | none => .float x
    else .float x
  | none => .float x

namespace FieldValue

mutual

/-- The plain value: a reference is its path, and an object the map of its fields. -/
def toJson : FieldValue → Value
  | .string s | .datetime s => .string s
  | .number x => numberToJson x
  | .boolean b => .bool b
  | .richText v => v
  | .reference t => .string t.path
  | .list items => .array (itemsToJson items)
  | .object _ fields => .object (fieldsToJson fields)

/-- The plain values of list items. -/
def itemsToJson : List FieldValue → List Value
  | [] => []
  | v :: r => v.toJson :: itemsToJson r

/-- The plain values of fields. -/
def fieldsToJson : List (String × FieldValue) → List (String × Value)
  | [] => []
  | (name, v) :: r => (name, v.toJson) :: fieldsToJson r

end

mutual

/-- The references in a value at a field path, in order. -/
def references (path : String) : FieldValue → List (String × Target)
  | .reference t => [(path, t)]
  | .list items => itemReferences path items
  | .object _ fields => memberReferences path fields
  | _ => []

/-- The references in list items, which share the path of the list. -/
def itemReferences (path : String) : List FieldValue → List (String × Target)
  | [] => []
  | v :: r => v.references path ++ itemReferences path r

/-- The references in the members of an object. -/
def memberReferences (path : String) : List (String × FieldValue) → List (String × Target)
  | [] => []
  | (name, v) :: r => v.references (path ++ "." ++ name) ++ memberReferences path r

end

/-- The name of the tag. -/
def tag : FieldValue → String
  | .string _ => "string"
  | .number _ => "number"
  | .boolean _ => "boolean"
  | .datetime _ => "datetime"
  | .richText _ => "rich-text"
  | .reference _ => "reference"
  | .list _ => "list"
  | .object _ _ => "object"

/-- A tag and what it tags. -/
def tagged (tag : String) (content : Value) : Value :=
  .object [("kind", .string tag), ("value", content)]

mutual

/-- The stored form of a value: its tag and its content. -/
def toValue : FieldValue → Value
  | .string s => tagged "string" (.string s)
  | .number x => tagged "number" (.float x)
  | .boolean b => tagged "boolean" (.bool b)
  | .datetime s => tagged "datetime" (.string s)
  | .richText v => tagged "rich-text" v
  | .reference t =>
    tagged "reference"
      (.object [("collection", .optionalString t.collection), ("path", .string t.path)])
  | .list items => tagged "list" (.array (itemsToValue items))
  | .object template fields =>
    tagged "object"
      (.object [("template", .string template), ("fields", .object (fieldsToValue fields))])

/-- The stored form of list items. -/
def itemsToValue : List FieldValue → List Value
  | [] => []
  | v :: r => v.toValue :: itemsToValue r

/-- The stored form of fields. -/
def fieldsToValue : List (String × FieldValue) → List (String × Value)
  | [] => []
  | (name, v) :: r => (name, v.toValue) :: fieldsToValue r

end

/-- A double written as a JSON number. -/
def float? : Draft → Option Binary64
  | .number n => some n.toFloat
  | _ => none

/-- The target of a reference. -/
def target? (d : Draft) : Option Target := do
  match ← d.fields? ["collection", "path"] with
  | [collection, some path] =>
    return ⟨← Draft.optional (Draft.nullable? Draft.string?) none collection, ← path.string?⟩
  | _ => none

/-- The content of a tag that holds no other tagged values. -/
def leaf? (tag : String) (d : Draft) : Option FieldValue :=
  match tag with
  | "string" => d.string?.map .string
  | "number" => (float? d).map .number
  | "boolean" => d.bool?.map .boolean
  | "datetime" => d.string?.map .datetime
  | "rich-text" => d.value?.map fun v => .richText v.canonical
  | "reference" => (target? d).map .reference
  | _ => none

/-- The content comes before the tag, so that it has to be set aside until the tag is known. -/
def contentFirst (members : List (MemberName × Draft)) : Bool :=
  (members.filter fun m => m.1 = .text "kind" || m.1 = .text "value").head?.any
    (·.1 = .text "value")

mutual

/-- Reads the stored form of a value. All of a content that is set aside has to be readable. -/
def ofDraft? (setAside : Bool) : Draft → Option FieldValue
  | .object members => do
    let named ← (Draft.object members).members?
    let tag ← (← Draft.namedMember? "kind" named).bind (Draft.bareName? setAside)
    let content ← ← Draft.namedMember? "value" named
    if setAside || !contentFirst members then contentIn? setAside tag members
    else if content.value?.isSome then contentIn? true tag members
    else none
  | .array [tag, content] => do content? setAside (← tag.bareName? setAside) content
  | _ => none

/-- Reads the content among the members of the stored form. -/
def contentIn? (setAside : Bool) (tag : String) : List (MemberName × Draft) → Option FieldValue
  | [] => none
  | (name, d) :: r =>
    if name = .text "value" then content? setAside tag d else contentIn? setAside tag r

/-- Reads the content of a tag. -/
def content? (setAside : Bool) (tag : String) : Draft → Option FieldValue
  | .array items =>
    if tag = "list" then (itemsOf? setAside items).map .list
    else if tag = "object" then
      match items with
      | [.string template, fields] => (fieldMap? setAside fields).map (.object template)
      | _ => none
    else leaf? tag (.array items)
  | .object members =>
    if tag = "object" then do
      let named ← (Draft.object members).members?
      let template ← (← Draft.namedMember? "template" named).bind Draft.string?
      let _ ← ← Draft.namedMember? "fields" named
      return .object template (← fieldsIn? setAside members)
    else leaf? tag (.object members)
  | d => leaf? tag d

/-- Reads list items. -/
def itemsOf? (setAside : Bool) : List Draft → Option (List FieldValue)
  | [] => some []
  | d :: r => do return (← ofDraft? setAside d) :: (← itemsOf? setAside r)

/-- Reads the field map among the members of an object. -/
def fieldsIn? (setAside : Bool) :
    List (MemberName × Draft) → Option (List (String × FieldValue))
  | [] => none
  | (name, d) :: r =>
    if name = .text "fields" then fieldMap? setAside d else fieldsIn? setAside r

/-- Reads a field map. -/
def fieldMap? (setAside : Bool) : Draft → Option (List (String × FieldValue))
  | .object members => (entriesOf? setAside members).map Entries.ofList
  | _ => none

/-- Reads the entries of a field map in the order they are written. -/
def entriesOf? (setAside : Bool) :
    List (MemberName × Draft) → Option (List (String × FieldValue))
  | [] => some []
  | (name, d) :: r => do
    return (← name.text?, ← ofDraft? setAside d) :: (← entriesOf? setAside r)

end

end FieldValue

/-- What the index keeps of one document. Its collection and its path identify it. -/
structure Record where
  /-- The collection of the document. -/
  collection : String
  /-- The path of the document. -/
  path : String
  /-- The template that the document was matched to. -/
  template : String
  /-- The field values, in key order. -/
  fields : List (String × FieldValue)
  /-- The hash of the content that the record was made from. -/
  contentHash : String

namespace Record

/-- The stored form. -/
def toValue (r : Record) : Value :=
  .object [
    ("collection", .string r.collection),
    ("path", .string r.path),
    ("template", .string r.template),
    ("fields", .object (FieldValue.fieldsToValue r.fields)),
    ("content_hash", .string r.contentHash)]

/-- The stored bytes. -/
def toBytes (r : Record) : Bytes := r.toValue.bytes

/-- Reads the stored form. -/
def ofDraft? (d : Draft) : Option Record := do
  match ← d.fields? ["collection", "path", "template", "fields", "content_hash"] with
  | [some collection, some path, some template, some fields, some contentHash] =>
    return {
      collection := ← collection.string?
      path := ← path.string?
      template := ← template.string?
      fields := ← FieldValue.fieldMap? false fields
      contentHash := ← contentHash.string? }
  | _ => none

/-- Reads the stored bytes. -/
def ofBytes? (b : Bytes) : Option Record := (Draft.ofBytes? b).bind ofDraft?

/-- The plain values of all fields. -/
def fieldsJson (r : Record) : List (String × Value) := FieldValue.fieldsToJson r.fields

/-- The references in all fields. -/
def references (r : Record) : List (String × Target) :=
  r.fields.flatMap fun (name, v) => v.references name

end Record

end ContentIndex
