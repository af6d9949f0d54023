import ContentIndex.Document
import ContentIndex.Graph.Matching
import ContentIndex.Record.Basic
import ContentIndex.Time.Reading

/-!
# From documents to records

A document is checked against a template of its collection, and each of its values becomes a
field value of the declared kind. Members that the template does not declare are dropped with a
warning, or refused by a strict collection.

## Main definitions

* `FieldFault`, `DocumentSkip`: why a value, or a document, is left out
* `Warning`: what is noted about a document that is kept
* `Graph.Kind.normalize`: the field value of a JSON value
* `Graph.Collection.record`: the record of a document
-/

namespace ContentIndex

open Json (Value)

/-- What is wrong with a value. -/
inductive FieldFault
  /-- The value has another type. -/
  | wrongType (expected got : String)
  /-- The text is no date. -/
  | notDate (text : String)
  /-- The path of a reference is empty. -/
  | emptyReference
  /-- An item of a list is null. -/
  | nullItem
  /-- The object has no template. -/
  | noTemplate (fault : Graph.TemplateFault)
  /-- A strict template does not declare the member. -/
  | undeclared (template : String)
  /-- A required field is missing. -/
  | missing (template : String)
  deriving DecidableEq

namespace FieldFault

/-- The fault in words. -/
def message : FieldFault → String
  | .wrongType expected got => "expected " ++ expected ++ ", got " ++ got
  | .notDate text => "'" ++ text ++ "' is not a date or datetime"
  | .emptyReference => "reference path is empty"
  | .nullItem => "list elements cannot be null"
  | .noTemplate fault => fault.message
  | .undeclared template => "field is not declared on template '" ++ template ++ "'"
  | .missing template => "required field missing for template '" ++ template ++ "'"

/-- The fault lies in which fields there are, not in a value. -/
def isMismatch : FieldFault → Bool
  | .undeclared _ | .missing _ => true
  | _ => false

end FieldFault

/-- Why a document is left out of the index. -/
inductive DocumentSkip
  /-- Its content cannot be had. -/
  | unreadable (message : String)
  /-- Its content is no document. -/
  | notDocument (e : DocumentError)
  /-- It is no object. -/
  | notObject
  /-- The collection has no template for it. -/
  | noTemplate (collection : String) (fault : Graph.TemplateFault)
  /-- A field has a fault. -/
  | field (location : String) (fault : FieldFault)

namespace DocumentSkip

/-- The classes of reasons. -/
inductive Class
  | unreadable
  | parseFailure
  | templateMismatch
  | invalidValue
  deriving DecidableEq

/-- The name of a class. -/
def Class.name : Class → String
  | .unreadable => "unreadable"
  | .parseFailure => "parse_failure"
  | .templateMismatch => "template_mismatch"
  | .invalidValue => "invalid_value"

/-- The class in words. -/
def Class.words : Class → String
  | .unreadable => "unreadable content"
  | .parseFailure => "parse failure"
  | .templateMismatch => "template mismatch"
  | .invalidValue => "invalid value"

/-- The class of the reason, the field it is about, and what is said about it. -/
def parts : DocumentSkip → Class × Option String × String
  | .unreadable m => (.unreadable, none, m)
  | .notDocument e => (.parseFailure, none, e.fault.message)
  | .notObject => (.templateMismatch, none, "document is not an object")
  | .noTemplate collection fault =>
    (.templateMismatch, none, fault.message ++ " in collection '" ++ collection ++ "'")
  | .field location fault =>
    if fault.isMismatch then
      let place := if location.isEmpty then "" else " at '" ++ location ++ "'"
      (.templateMismatch, none, fault.message ++ place)
    else (.invalidValue, some location, fault.message)

/-- The reason in words. -/
def message (s : DocumentSkip) : String :=
  match s.parts with
  | (c, some location, m) => c.words ++ " for '" ++ location ++ "': " ++ m
  | (c, none, m) => c.words ++ ": " ++ m

/-- The reason as JSON. -/
def toValue (s : DocumentSkip) : Value :=
  match s.parts with
  | (c, some location, m) =>
    .object [("kind", .string c.name), ("field", .string location), ("message", .string m)]
  | (c, none, m) => .object [("kind", .string c.name), ("message", .string m)]

end DocumentSkip

/-- What is noted about a document that is kept. -/
inductive Warning
  /-- A member was dropped. -/
  | dropped (location template : String)
  /-- A whole number was rounded. -/
  | rounded (location : String) (written : Value) (stored : Binary64)
  deriving DecidableEq

/-- The warning in words, for the document at a path. -/
def Warning.message (path : String) : Warning → String
  | .dropped location template =>
    path ++ ": dropped undeclared field '" ++ location ++ "' (template '" ++ template ++ "')"
  | .rounded location written stored =>
    path ++ ": '" ++ location ++ "' " ++ written.compact ++ " cannot be stored exactly, indexed as "
      ++ String.ofList (FloatLayout.plain.write stored)

namespace Graph

/-- What decides about values besides their kind. -/
structure Rules where
  /-- The graph that references point into. -/
  graph : Graph
  /-- How objects are matched to templates. -/
  policy : TemplatePolicy
  /-- Undeclared members are refused. -/
  strict : Bool

/-- A result with the warnings so far, or the first fault and its location. -/
abbrev Checked := StateT (List Warning) (Except (String × FieldFault))

/-- Fails at a location. -/
def Checked.refuse {α : Type} (location : String) (fault : FieldFault) : Checked α :=
  throw (location, fault)

/-- Notes a warning. -/
def Checked.warn (w : Warning) : Checked Unit := modify (· ++ [w])

/-- The name of the type of a value. -/
def typeLabel : Value → String
  | .null => "null"
  | .bool _ => "boolean"
  | .number _ => "number"
  | .string _ => "string"
  | .array _ => "list"
  | .object _ => "object"

/-- Fails because a value has another type than the expected one. -/
def Checked.wrongType {α : Type} (location expected : String) (v : Value) : Checked α :=
  refuse location (.wrongType expected (typeLabel v))

/-- The double of a number; a warning tells when a whole number is rounded. -/
def checkNumber (location : String) (n : Json.Number) : Checked FieldValue := do
  let x := n.toFloat
  if let .int i _ := n then
    if x.toInt? ≠ some i then Checked.warn (.rounded location (.number n) x)
  return .number x

/-- The text without the prefixes that name the current directory. -/
def withoutDots : List Char → List Char
  | '.' :: '/' :: r => withoutDots r
  | cs => cs

/-- The target of a reference: the first of the allowed collections that its path belongs to. -/
def Rules.target (rules : Rules) (collections : List String) (path : String) : Target :=
  let allowed := collections.filterMap rules.graph.collection?
  ⟨(allowed.find? (·.containsPath path)).map (·.name), path⟩

/-- A reference, of which the path must not be empty. -/
def checkReference (rules : Rules) (location : String) (collections : List String) (s : String) :
    Checked FieldValue :=
  let path := String.ofList (withoutDots s.toList)
  if path.isEmpty then Checked.refuse location .emptyReference
  else return .reference (rules.target collections path)

/-- The warnings, or the fault, of members that a template does not declare. -/
def checkUndeclared (strict : Bool) (location : String) (template : String) (fields : List Field)
    (members : List (String × Value)) : Checked Unit :=
  (presentNames members).forM fun name => do
    if !fields.any (·.name = name) then
      let here := memberLocation location name
      if strict then Checked.refuse here (.undeclared template)
      else Checked.warn (.dropped here template)

mutual

/-- The field value that a JSON value stands for in a field of the kind. -/
def Kind.normalize (rules : Rules) (location : String) : Kind → Value → Checked FieldValue
  | .string, v => match v with
    | .string s => return .string s
    | v => Checked.wrongType location "string" v
  | .number, v => match v with
    | .number n => checkNumber location n
    | v => Checked.wrongType location "number" v
  | .boolean, v => match v with
    | .bool b => return .boolean b
    | v => Checked.wrongType location "boolean" v
  | .datetime, v => match v with
    | .string s => match Instant.canonical? s with
      | some d => return .datetime d
      | none => Checked.refuse location (.notDate s)
    | v => Checked.wrongType location "datetime string" v
  | .richText, v => return .richText v
  | .reference collections, v => match v with
    | .string s => checkReference rules location collections s
    | v => Checked.wrongType location "document path" v
  | .list items, v => match v with
    | .array vs => do
      let values ← vs.zipIdx.mapM fun (v, i) =>
        let here := location ++ "[" ++ toString i ++ "]"
        if v.isNull then Checked.refuse here .nullItem
        else items.normalize rules here v
      return .list values
    | v => Checked.wrongType location "list" v
  | .object templates, v => match v with
    | .object members => match selectTemplate rules.policy templates members with
      | .error fault => Checked.refuse location (.noTemplate fault)
      | .ok t => do
        return .object t.name (← Template.normalizeAs rules location t.name members templates)
    | v => Checked.wrongType location "object" v

/-- The field values of an object by the template of the given name. -/
def Template.normalizeAs (rules : Rules) (location name : String)
    (members : List (String × Value)) : List Template → Checked (List (String × FieldValue))
  | [] => return []
  | ⟨n, fields⟩ :: r =>
    if n = name then do
      checkUndeclared rules.strict location name fields members
      return Entries.ofList (← Field.normalizeAll rules location name members fields)
    else Template.normalizeAs rules location name members r

/-- The field values of the declared fields of an object, in declaration order. -/
def Field.normalizeAll (rules : Rules) (location template : String)
    (members : List (String × Value)) : List Field → Checked (List (String × FieldValue))
  | [] => return []
  | ⟨name, kind, required, _⟩ :: r => do
    let here := memberLocation location name
    match (Entries.find? name members).filter (!·.isNull) with
    | some v =>
      let value ← kind.normalize rules here v
      return (name, value) :: (← Field.normalizeAll rules location template members r)
    | none =>
      if required then Checked.refuse here (.missing template)
      else Field.normalizeAll rules location template members r

end

/-- The record of a document, with warnings, or the reason to leave it out. -/
def Collection.record (c : Collection) (graph : Graph) (policy : TemplatePolicy)
    (path contentHash : String) (document : Value) :
    Except DocumentSkip (Record × List Warning) := do
  let .object members := document | throw .notObject
  let template ← (selectTemplate policy c.templates members).mapError (.noTemplate c.name)
  let rules : Rules := ⟨graph, policy, c.strict⟩
  let (fields, warnings) ←
    ((Template.normalizeAs rules "" template.name members c.templates).run []).mapError
      fun (location, fault) => .field location fault
  return (⟨c.name, path, template.name, fields, contentHash⟩, warnings)

end Graph

end ContentIndex
