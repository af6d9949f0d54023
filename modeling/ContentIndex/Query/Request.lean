import ContentIndex.Query.Filter
import ContentIndex.Query.Selection

/-!
# Requests and answers

A request with a path asks for one document, any other for a page of a listing.

## Main definitions

* `SortOrder`, `Request`: orders and requests
* `Request.get`, `Request.list`: the simple requests
* `Request.ofDraft?`, `Request.toValue`: their JSON form
* `Page`, `Answer`: what a query returns
-/

namespace ContentIndex

open Json (Draft Value)

-- powers as in the core library, whichever other modules are read
attribute [local instance (2000)] instPowNat

/-- The field that orders a listing, and its direction. -/
structure SortOrder where
  /-- The name of the field. -/
  field : String
  /-- Greater values come first. -/
  descending : Bool
  deriving DecidableEq

namespace SortOrder

/-- The name of the direction. -/
def direction (s : SortOrder) : String := if s.descending then "desc" else "asc"

/-- Whether the direction of the given name is descending. -/
def descending? (d : Draft) : Option Bool :=
  match d.bareName? false with
  | some "asc" => some false
  | some "desc" => some true
  | _ => none

/-- The order written in a draft. -/
def ofDraft? (d : Draft) : Option SortOrder := do
  match ← d.fields? ["field", "order"] with
  | [some field, order] =>
    return ⟨← field.string?, ← Draft.optional descending? false order⟩
  | _ => none

/-- An order as JSON. -/
def toValue (s : SortOrder) : Value :=
  .object [("field", .string s.field), ("order", .string s.direction)]

end SortOrder

/-- A query on one collection. -/
structure Request where
  /-- The collection. -/
  collection : String := ""
  /-- The path of the one document that is asked for. -/
  path : Option String := none
  /-- The fields that are asked for. -/
  selection : Selection := .empty
  /-- A condition on the documents of a listing. -/
  filter : Option Filter := none
  /-- The order of a listing. -/
  sort : Option SortOrder := none
  /-- The end of the page before. -/
  cursor : Option String := none
  /-- The number of items on a page. -/
  pageSize : Option Nat := none

namespace Request

/-- Asks for one document. -/
def get (collection path : String) (selection : Selection) : Request :=
  { collection, path := some path, selection }

/-- Asks for a listing. -/
def list (collection : String) (selection : Selection) : Request := { collection, selection }

/-- The names of the parts of a request. -/
def memberNames : List String :=
  ["collection", "path", "selection", "filter", "sort", "cursor", "page_size"]

/-- The request written in a draft; each part may be left out. -/
def ofDraft? (d : Draft) : Option Request := do
  match ← d.fields? memberNames with
  | [collection, path, selection, filter, sort, cursor, pageSize] =>
    return {
      collection := ← Draft.optional Draft.string? "" collection
      path := ← Draft.optional (Draft.nullable? Draft.string?) none path
      selection := ← Draft.optional Selection.ofDraft? .empty selection
      filter := ← Draft.optional (Draft.nullable? Filter.ofDraft?) none filter
      sort := ← Draft.optional (Draft.nullable? SortOrder.ofDraft?) none sort
      cursor := ← Draft.optional (Draft.nullable? Draft.string?) none cursor
      pageSize := ← Draft.optional (Draft.nullable? (Draft.natBelow? (2 ^ (64 : Nat)))) none pageSize }
  | _ => none

/-- A part that may be absent, as JSON. -/
def optionalValue {α : Type} (f : α → Value) : Option α → Value
  | some a => f a
  | none => .null

/-- A request as JSON. -/
def toValue (r : Request) : Value :=
  .object [
    ("collection", .string r.collection),
    ("path", .optionalString r.path),
    ("selection", r.selection.toValue),
    ("filter", optionalValue Filter.toValue r.filter),
    ("sort", optionalValue SortOrder.toValue r.sort),
    ("cursor", .optionalString r.cursor),
    ("page_size", optionalValue Value.nat r.pageSize)]

end Request

/-- The end of a page. -/
structure Page where
  /-- A cursor for the last item, if there is one. -/
  endCursor : Option String
  /-- There are more items. -/
  hasNext : Bool
  deriving DecidableEq

/-- A reference whose target is not there. -/
structure Dangling where
  /-- The place of the reference in the data. -/
  location : String
  /-- The collection of the target. -/
  collection : String
  /-- The path of the target. -/
  target : String
  deriving DecidableEq

/-- What a query returns. -/
structure Answer where
  /-- An object for one document, an array of objects for a listing. -/
  data : Value
  /-- The end of the page of a listing. -/
  page : Option Page
  /-- References that lead nowhere. -/
  warnings : List Dangling

namespace Answer

/-- A page as JSON. -/
def pageValue (p : Page) : Value :=
  .object [("end_cursor", .optionalString p.endCursor), ("has_next_page", .bool p.hasNext)]

/-- A warning as JSON. -/
def warningValue (w : Dangling) : Value :=
  .object [
    ("path", .string w.location),
    ("message", .string ("referenced document '" ++ w.target ++ "' was not found in '"
      ++ w.collection ++ "'"))]

/-- An answer as JSON. -/
def toValue (a : Answer) : Value :=
  .object [
    ("data", a.data),
    ("page", Request.optionalValue pageValue a.page),
    ("warnings", .array (a.warnings.map warningValue))]

end Answer

end ContentIndex
