import ContentIndex.Graph.Basic
import ContentIndex.Schema.Definition

/-!
# Compiling schemas

A schema compiles to a type graph, or to the first thing that is wrong with it.

## Main definitions

* `SchemaError`: what can be wrong with a schema
* `SchemaError.kind`, `SchemaError.path`, `SchemaError.message`: how an error is reported
* `Graph.compile`: the graph of a schema
-/

namespace ContentIndex

/-- What a name is the name of. -/
inductive NameRole
  | collection
  | template
  | field
  deriving DecidableEq

/-- What is wrong with a schema. A path leads from a collection to the declaration. -/
inductive SchemaError
  | invalidName (role : NameRole) (path name : String)
  | duplicateCollection (name : String)
  | emptyPath (collection : String)
  | invalidPattern (collection pattern : String)
  | collectionFieldsAndTemplates (collection : String)
  | noTemplates (collection : String)
  | duplicateTemplate (path name : String)
  | ambiguousField (owner field kind template kind' template' : String)
  | reservedName (path : String)
  | duplicateField (path name : String)
  | notIndexable (path kind : String)
  | noTargets (path : String)
  | danglingTarget (path target : String)
  | noItems (path : String)
  | objectFieldsAndTemplates (path : String)
  | noMembers (path : String)
  | unsortableDefault (collection field kind : String)
  | undeclaredDefault (collection field : String)
  deriving DecidableEq

namespace SchemaError

/-- The classes of schema errors. -/
inductive Class
  | duplicateCollection
  | duplicateTemplate
  | duplicateField
  | danglingReference
  | emptyCollection
  | ambiguousTemplate
  | invalidField
  | invalidDefinition
  deriving DecidableEq

/-- The name of a class in words. -/
def Class.words : Class → String
  | .duplicateCollection => "duplicate collection"
  | .duplicateTemplate => "duplicate template"
  | .duplicateField => "duplicate field"
  | .danglingReference => "dangling reference"
  | .emptyCollection => "empty collection"
  | .ambiguousTemplate => "ambiguous template"
  | .invalidField => "invalid field"
  | .invalidDefinition => "invalid definition"

/-- The name of a class as one word. -/
def Class.name (c : Class) : String := c.words.map fun x => if x = ' ' then '_' else x

/-- The class of an error. -/
def errorClass : SchemaError → Class
  | .invalidName .field _ _ => .invalidField
  | .invalidName _ _ _ => .invalidDefinition
  | .duplicateCollection _ => .duplicateCollection
  | .emptyPath _ | .invalidPattern _ _ | .collectionFieldsAndTemplates _
  | .unsortableDefault _ _ _ | .undeclaredDefault _ _ => .invalidDefinition
  | .noTemplates _ => .emptyCollection
  | .duplicateTemplate _ _ => .duplicateTemplate
  | .ambiguousField _ _ _ _ _ _ => .ambiguousTemplate
  | .duplicateField _ _ => .duplicateField
  | .danglingTarget _ _ => .danglingReference
  | .reservedName _ | .notIndexable _ _ | .noTargets _ | .noItems _
  | .objectFieldsAndTemplates _ | .noMembers _ => .invalidField

/-- Where the error is. -/
def path : SchemaError → String
  | .invalidName _ p _ | .duplicateCollection p | .emptyPath p
  | .collectionFieldsAndTemplates p | .noTemplates p | .duplicateTemplate p _
  | .reservedName p | .duplicateField p _ | .notIndexable p _ | .noTargets p
  | .danglingTarget p _ | .noItems p | .objectFieldsAndTemplates p | .noMembers p => p
  | .invalidPattern c _ => c ++ ".match"
  | .ambiguousField owner field _ _ _ _ => owner ++ "." ++ field
  | .unsortableDefault c _ _ | .undeclaredDefault c _ => c ++ ".default_sort"

/-- The word for what a name is the name of. -/
def roleWord : NameRole → String
  | .collection => "collection"
  | .template => "template"
  | .field => "field"

/-- What the error is. The complaint of the pattern reader is not worded. -/
def reason : SchemaError → String
  | .invalidName role _ name =>
    roleWord role ++ " name '" ++ name ++ "' must be non-empty and use only [A-Za-z0-9_-]"
  | .duplicateCollection name => "collection '" ++ name ++ "' is declared more than once"
  | .emptyPath _ => "collection path must be a non-empty directory prefix"
  | .invalidPattern _ pattern => "invalid glob '" ++ pattern ++ "': <detail>"
  | .collectionFieldsAndTemplates _ =>
    "a collection declares either fields or templates, not both"
  | .noTemplates _ => "collection declares no templates"
  | .duplicateTemplate _ name => "template '" ++ name ++ "' is declared more than once"
  | .ambiguousField _ field k t k' t' =>
    "'" ++ field ++ "' is " ++ k ++ " on template '" ++ t ++ "' but " ++ k' ++ " on template '"
      ++ t' ++ "'"
  | .reservedName _ => "field names starting with '_' are reserved"
  | .duplicateField _ name => "field '" ++ name ++ "' is declared more than once"
  | .notIndexable _ kind => kind ++ " fields cannot be indexed"
  | .noTargets _ => "reference fields must name at least one target collection"
  | .danglingTarget _ target => "target collection '" ++ target ++ "' does not exist"
  | .noItems _ => "list fields must declare items"
  | .objectFieldsAndTemplates _ => "an object declares either fields or templates, not both"
  | .noMembers _ => "object fields must declare fields or templates"
  | .unsortableDefault _ field kind =>
    "field '" ++ field ++ "' (" ++ kind ++ ") is not an indexed scalar"
  | .undeclaredDefault _ field => "no template declares field '" ++ field ++ "'"

/-- The report of an error. -/
def message (e : SchemaError) : String :=
  "Schema error (" ++ e.errorClass.words ++ ") at '" ++ e.path ++ "': " ++ e.reason

end SchemaError

namespace Graph

/-- A name is not empty and consists of ASCII letters, digits, `_` and `-`. -/
def isName (name : String) : Bool :=
  name ≠ "" && name.toList.all fun c => c.isAlphanum || c = '_' || c = '-'

/-- Refuses what is no name. -/
def checkName (role : NameRole) (path name : String) : Except SchemaError Unit :=
  if isName name then .ok () else .error (.invalidName role path name)

/-- Refuses a name that begins with `_`. -/
def checkReserved (path name : String) : Except SchemaError Unit :=
  if name.toList.head? = some '_' then .error (.reservedName path) else .ok ()

/-- The targets of a reference, each once; there must be some, and all must exist. -/
def compileTargets (names : List String) (path : String) (targets : List String) :
    Except SchemaError (List String) :=
  if targets.isEmpty then .error (.noTargets path)
  else match targets.find? (!names.contains ·) with
    | some t => .error (.danglingTarget path t)
    | none => .ok (targets.foldl (fun seen t => if seen.contains t then seen else seen ++ [t]) [])

/-- The kind of list items that are given as a bare type. -/
def compileBare (path : String) : Schema.FieldType → Except SchemaError Kind
  | .string => .ok .string
  | .number => .ok .number
  | .boolean => .ok .boolean
  | .datetime => .ok .datetime
  | .richText => .ok .richText
  | .reference => .error (.noTargets path)
  | .list => .error (.noItems path)
  | .object => .error (.noMembers path)

/-- A field is indexed as declared, or else if it is a scalar; only scalars can be. -/
def compileIndexed (path : String) (kind : Kind) : Option Bool → Except SchemaError Bool
  | some true => if kind.isScalar then .ok true else .error (.notIndexable path kind.label)
  | some false => .ok false
  | none => .ok kind.isScalar

/-- The first field of a template whose kind conflicts with the field of its name on another. -/
def conflict? (owner : String) (t t' : Template) : Option SchemaError :=
  t.fields.findSome? fun f => (t'.field? f.name).bind fun f' =>
    if f.kind.conflicts f'.kind then
      some (.ambiguousField owner f.name f.kind.label t.name f'.kind.label t'.name)
    else none

/-- The first conflict among templates that are read as a union. -/
def firstConflict? (owner : String) : List Template → Option SchemaError
  | [] => none
  | t :: r => (r.findSome? (conflict? owner t)).or (firstConflict? owner r)

/-- Refuses templates that cannot be read as a union. -/
def checkUnion (owner : String) (ts : List Template) : Except SchemaError (List Template) :=
  match firstConflict? owner ts with
  | some e => .error e
  | none => .ok ts

mutual

/-- The kind of a field at a path; `leaf` names the one template of an object with plain
fields. -/
def compileKind (names : List String) (leaf path : String) :
    Schema.Shape → Except SchemaError Kind
  | .mk type _ _ targets items fields templates =>
    match type with
    | .string => .ok .string
    | .number => .ok .number
    | .boolean => .ok .boolean
    | .datetime => .ok .datetime
    | .richText => .ok .richText
    | .reference => return .reference (← compileTargets names path targets)
    | .list => match items with
      | none => .error (.noItems path)
      | some i => return .list (← compileItems names leaf (path ++ "[]") i)
    | .object => match fields, templates with
      | _ :: _, _ :: _ => .error (.objectFieldsAndTemplates path)
      | [], [] => .error (.noMembers path)
      | fields, [] => do
        let path := path ++ "." ++ leaf
        checkName .template path leaf
        return .object [⟨leaf, ← compileFields names path [] fields⟩]
      | [], templates => do
        return .object (← checkUnion path (← compileTemplates names path [] templates))

/-- The kind of list items. -/
def compileItems (names : List String) (leaf path : String) :
    Schema.Items → Except SchemaError Kind
  | .bare type => compileBare path type
  | .shaped shape => compileKind names leaf path shape

/-- The templates of one owner, after those named `seen`. -/
def compileTemplates (names : List String) (owner : String) (seen : List String) :
    List Schema.Template → Except SchemaError (List Template)
  | [] => .ok []
  | .mk name fields :: r => do
    let path := owner ++ "." ++ name
    checkName .template path name
    if seen.contains name then throw (.duplicateTemplate path name)
    let t : Template := ⟨name, ← compileFields names path [] fields⟩
    return t :: (← compileTemplates names owner (name :: seen) r)

/-- The fields of one template, after those named `seen`. -/
def compileFields (names : List String) (owner : String) (seen : List String) :
    List Schema.Field → Except SchemaError (List Field)
  | [] => .ok []
  | .mk name (.mk type required indexed targets items fields templates) :: r => do
    let path := owner ++ "." ++ name
    checkName .field path name
    checkReserved path name
    if seen.contains name then throw (.duplicateField path name)
    let kind ←
      compileKind names name path (.mk type required indexed targets items fields templates)
    let indexed ← compileIndexed path kind indexed
    return ⟨name, kind, required, indexed⟩ :: (← compileFields names owner (name :: seen) r)

end

/-- Drops a character from both ends of a text. -/
def stripChar (c : Char) (s : String) : String :=
  String.ofList ((s.toList.dropWhile (· = c)).reverse.dropWhile (· = c)).reverse

/-- The directory of a collection: not empty and without NUL. -/
def compilePath (collection path : String) : Except SchemaError String :=
  let dir := stripChar '/' path
  if dir = "" || dir.toList.contains '\x00' then .error (.emptyPath collection) else .ok dir

/-- The pattern of a collection. -/
def compilePattern (collection : String) : Option String → Except SchemaError (Option PathPattern)
  | none => .ok none
  | some text => match Glob.parse? text with
    | some g => .ok (some ⟨text, g⟩)
    | none => .error (.invalidPattern collection text)

/-- The templates that a collection declares: plain fields make up one of its own name. -/
def declaredTemplates (c : Schema.Collection) : Except SchemaError (List Schema.Template) :=
  match c.fields, c.templates with
  | _ :: _, _ :: _ => .error (.collectionFieldsAndTemplates c.name)
  | [], [] => .error (.noTemplates c.name)
  | fields, [] => .ok [.mk c.name fields]
  | [], templates => .ok templates

/-- Refuses a default order by what is no sortable field. -/
def checkDefaultSort (c : Collection) : Except SchemaError Collection :=
  match c.defaultSort with
  | none => .ok c
  | some sort => match c.field? sort with
    | some f => if f.isSortable then .ok c
      else .error (.unsortableDefault c.name sort f.kind.label)
    | none => .error (.undeclaredDefault c.name sort)

/-- A collection of a schema whose collections have the given names. -/
def compileCollection (names : List String) (c : Schema.Collection) :
    Except SchemaError Collection := do
  let path ← compilePath c.name c.path
  let pattern ← compilePattern c.name c.pattern
  let declared ← declaredTemplates c
  let templates ← checkUnion c.name (← compileTemplates names c.name [] declared)
  checkDefaultSort {
    name := c.name
    path
    pattern
    format := c.format.map fun f => String.ofList (f.toList.dropWhile (· = '.'))
    strict := c.strict
    defaultSort := c.defaultSort
    templates }

/-- Refuses collections without a proper name of their own. -/
def checkCollectionNames (seen : List String) : List Schema.Collection → Except SchemaError Unit
  | [] => .ok ()
  | c :: r => do
    checkName .collection c.name c.name
    if seen.contains c.name then throw (.duplicateCollection c.name)
    checkCollectionNames (c.name :: seen) r

/-- The type graph of a schema. -/
def compile (s : Schema) : Except SchemaError Graph := do
  checkCollectionNames [] s.collections
  let names := s.collections.map (·.name)
  return ofCollections (← s.collections.mapM (compileCollection names))

end Graph

end ContentIndex
