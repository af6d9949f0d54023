import ContentIndex.Graph.Basic
import ContentIndex.Text.Words

/-!
# Graphs in the schema definition language

Every collection becomes an object type, or a union of one object type for each template. The
types of nested objects and of references with several targets are written after the query type,
each nested object followed by the types of its own members.

## Main definitions

* `Graph.documentType`, `Graph.queryField`, `Graph.variantType`: the names of types and fields
* `Graph.typeText`: the text of a graph
-/

namespace ContentIndex.Graph

/-- The type of the documents of a collection. -/
def documentType (collection : String) : String := Text.pascalCase collection

/-- The type of the values of one template. -/
def variantType (owner template : String) : String :=
  Text.pascalCase owner ++ Text.pascalCase template

/-- The query field of a collection. -/
def queryField (collection : String) : String := Text.camelCase collection

/-- The members of a union. -/
def unionText (name : String) (members : List String) : String :=
  "union " ++ name ++ " = " ++ " | ".intercalate members ++ "\n\n"

/-- An object type with its fields. -/
def objectText (name : String) (document : Bool) (fields : String) : String :=
  "type " ++ name ++ " \x7b\n"
    ++ (if document then "  _collection: String!\n  _path: String!\n" else "")
    ++ "  _template: String!\n" ++ fields ++ "\x7d\n\n"

mutual

/-- The type of a field of an owner, and the types to be written later. -/
def Kind.typeName (owner field : String) : Kind → String × List String
  | .string => ("String", [])
  | .number => ("Float", [])
  | .boolean => ("Boolean", [])
  | .datetime => ("DateTime", [])
  | .richText => ("JSON", [])
  | .reference [target] => (documentType target, [])
  | .reference targets =>
    let name := owner ++ Text.pascalCase field ++ "Reference"
    (name, [unionText name (targets.map documentType)])
  | .list items =>
    let (name, later) := items.typeName owner field
    ("[" ++ name ++ "]", later)
  | .object [⟨_, fields⟩] =>
    let base := owner ++ Text.pascalCase field
    let (text, later) := Field.typeLines base fields
    (base, [objectText base false text ++ String.join later])
  | .object templates =>
    let base := owner ++ Text.pascalCase field
    let members := templates.map fun t => base ++ Text.pascalCase t.name
    let (text, later) := Template.memberTypes base templates
    (base, [unionText base members ++ text ++ String.join later])

/-- The object types of the templates of a union, and the types to be written later. -/
def Template.memberTypes (base : String) : List Template → String × List String
  | [] => ("", [])
  | ⟨name, fields⟩ :: r =>
    let member := base ++ Text.pascalCase name
    let (text, later) := Field.typeLines member fields
    let (text', later') := Template.memberTypes base r
    (objectText member false text ++ text', later ++ later')

/-- The lines of the fields of an owner, and the types to be written later. -/
def Field.typeLines (owner : String) : List Field → String × List String
  | [] => ("", [])
  | ⟨name, kind, required, _⟩ :: r =>
    let (type, later) := kind.typeName owner name
    let (text, later') := Field.typeLines owner r
    ("  " ++ name ++ ": " ++ type ++ (if required then "!" else "") ++ "\n" ++ text,
      later ++ later')

end

/-- The object type of the documents of one template, and the types to be written later. -/
def documentText (name : String) (t : Template) : String × List String :=
  let (text, later) := Field.typeLines name t.fields
  (objectText name true text, later)

/-- The types of a collection, and the types to be written later. -/
def Collection.typeText (c : Collection) : String × List String :=
  let type := documentType c.name
  let (text, later) := match c.templates with
    | [t] => documentText type t
    | ts =>
      let parts := ts.map fun t => documentText (variantType c.name t.name) t
      (unionText type (ts.map fun t => variantType c.name t.name)
        ++ String.join (parts.map (·.1)), parts.flatMap (·.2))
  (text ++ "type " ++ type ++ "Connection \x7b\n  items: [" ++ type
    ++ "!]!\n  endCursor: String\n  hasNextPage: Boolean!\n\x7d\n\n", later)

/-- The query fields of a collection. -/
def Collection.queryLines (c : Collection) : String :=
  let field := queryField c.name
  let type := documentType c.name
  "  " ++ field ++ "(path: String!): " ++ type ++ "\n"
    ++ "  " ++ field ++ "Connection(filter: JSON, sort: String, after: String, first: Int): "
    ++ type ++ "Connection!\n"

/-- The text of a graph. -/
def typeText (g : Graph) : String :=
  let parts := g.collections.map Collection.typeText
  "scalar DateTime\nscalar JSON\n\n" ++ String.join (parts.map (·.1))
    ++ "type Query \x7b\n" ++ String.join (g.collections.map Collection.queryLines) ++ "\x7d\n"
    ++ String.join (parts.flatMap (·.2))

end ContentIndex.Graph
