import ContentIndex.Graph.Basic
import ContentIndex.Index.Key
import ContentIndex.Query.Error
import ContentIndex.Query.Request

/-!
# Orders of listings

A collection is listed by path, or by a sortable field, in either direction. The documents by path
are read both ways; a field has an order of its own for each direction.

## Main definitions

* `Listing`, `Listing.signature`: orders, and their names in cursors
* `Graph.Collection.listing`: the order that a request asks for
* `Listing.start`, `Listing.range`: where the entries of an order are
-/

namespace ContentIndex

/-- An order of the documents of a collection. -/
inductive Listing
  /-- By path. -/
  | byPath (descending : Bool)
  /-- By a sortable field, then by path. -/
  | byField (field : String) (descending : Bool)
  deriving DecidableEq

namespace Listing

/-- The field and the direction of an order. -/
def sortOrder : Listing → SortOrder
  | .byPath descending => ⟨Graph.systemPath, descending⟩
  | .byField field descending => ⟨field, descending⟩

/-- The name of an order in cursors. -/
def signature (l : Listing) : String := l.sortOrder.field ++ ":" ++ l.sortOrder.direction

/-- What the keys of an order start with. -/
def start (g : Generation) (collection : String) : Listing → Bytes
  | .byPath _ => Key.documentPrefix g collection
  | .byField field descending => Key.sortPrefix g collection field descending

/-- The direction in which the keys are read. -/
def direction : Listing → Direction
  | .byPath true => .reverse
  | _ => .forward

/-- The keys of an order, those after a given end only if there is one. -/
def range (l : Listing) (start : Bytes) (after : Option Bytes) : KeyRange :=
  let whole := KeyRange.ofPrefix start
  match after with
  | some suffix => whole.past (start ++ suffix) l.direction
  | none => whole

end Listing

/-- The order that a collection is listed in: by path, unless another one is asked for. -/
def Graph.Collection.listing (c : Graph.Collection) :
    Option SortOrder → Except QueryError Listing
  | none => .ok (.byPath false)
  | some s =>
    if s.field = Graph.systemPath then .ok (.byPath s.descending)
    else if c.sortableFields.any (·.name = s.field) then .ok (.byField s.field s.descending)
    else .error (.invalidSort s.field c.name)

end ContentIndex
