import ContentIndex.Query.Cursor
import ContentIndex.Query.Listing
import ContentIndex.Query.Projection
import ContentIndex.Query.Validation

/-!
# Answers to requests

A request is checked first, without a look at the index. Then a document is looked up, or a page
is read from where the page before has ended.

## Main definitions

* `Query`, `Database.query`: checked requests
* `Database.lookup`, `Database.readPage`: their answers
* `Database.resolve`: the answer to a request
* `Database.referencedBy`: the fields that refer to a document
-/

namespace ContentIndex

open Json (Value)

/-- A request for a page that makes sense for its collection. -/
structure PageQuery where
  /-- The collection. -/
  collection : Graph.Collection
  /-- The order. -/
  listing : Listing
  /-- The condition. -/
  predicate : Option Predicate
  /-- The end of the page before. -/
  after : Option Bytes
  /-- The greatest number of items. -/
  size : Nat
  /-- The selection. -/
  selection : Selection

/-- A request that makes sense for its collection. -/
inductive Query
  /-- One document. -/
  | lookup (c : Graph.Collection) (path : String) (selection : Selection)
  /-- A page of a listing. -/
  | page (q : PageQuery)

namespace Database

/-! ### Checks -/

/-- The collection of the given name. -/
def collection (db : Database) (name : String) : Except QueryError Graph.Collection :=
  match db.graph.collection? name with
  | some c => .ok c
  | none => .error (.unknownCollection name)

/-- The page size that a request asks for. -/
def pageSize (db : Database) (asked : Option Nat) : Except QueryError Nat :=
  let size := asked.getD db.settings.defaultPageSize
  if size = 0 ∨ db.settings.maxPageSize < size then
    .error (.invalidPageSize size db.settings.maxPageSize)
  else .ok size

/-- The order of a request, or else the default order of the collection. -/
def sortOrder? (c : Graph.Collection) (r : Request) : Option SortOrder :=
  r.sort <|> c.defaultSort.map fun field => ⟨field, false⟩

/-- Checks a request for a page. -/
def pageQuery (db : Database) (c : Graph.Collection) (r : Request) :
    Except QueryError PageQuery := do
  let size ← db.pageSize r.pageSize
  let predicate ← r.filter.mapM (·.check c)
  let listing ← c.listing (sortOrder? c r)
  let after ← r.cursor.mapM fun text =>
    (Cursor.decode text c.name listing.signature).mapError .invalidCursor
  return ⟨c, listing, predicate, after, size, r.selection⟩

/-- Checks a request. -/
def query (db : Database) (r : Request) : Except QueryError Query := do
  let c ← db.collection r.collection
  c.checkSelection db.graph r.selection
  match r.path with
  | some path => return .lookup c path r.selection
  | none => return .page (← db.pageQuery c r)

/-! ### One document -/

/-- The answer for one document. -/
def lookup (db : Database) (c : Graph.Collection) (path : String) (selection : Selection) :
    Failing QueryError Answer := do
  let some s ← db.snapshot? | throw (.notFound c.name path)
  let some r ← (s.record? c.name path : Failing QueryError _) | throw (.notFound c.name path)
  let (data, warnings) ← (selection.project s (.ofRecord c r) "").run []
  return ⟨data, none, warnings⟩

end Database

/-! ### Pages -/

namespace PageQuery

/-- The record that an entry of the order stands for. A document that was removed after the entry
was read has none. -/
def recordOf? (q : PageQuery) (s : Snapshot) (e : Entry) : Storage (Option Record) := do
  match q.listing with
  | .byPath _ => Record.ofStored? e.1 (some e.2)
  | .byField _ _ =>
    match e.2.text? with
    | some path => s.record? q.collection.name path
    | none => throw (.corrupt e.1.textLossy .unreadable)

/-- The record meets the condition. -/
def accepts (q : PageQuery) (r : Record) : Bool := q.predicate.all (·.holds r)

/-- Items of a page: what is shown, where the last one is, and whether there are more. -/
structure Items where
  /-- The data of the items. -/
  data : List Value
  /-- The key of the last item after the start of the order. -/
  last : Option Bytes
  /-- Another item would follow. -/
  more : Bool

/-- Reads on until the page is full and another item is found, or the order ends. -/
def fill (q : PageQuery) (s : Snapshot) : (rounds : Nat) → Scan → Items → Projecting Items
  | 0, _, _ => (Failing.cut : Failing QueryError _)
  | rounds + 1, scan, items => do
    match ← (scan.next : Failing QueryError _) with
    | none => return items
    | some (e, scan) =>
      match (← (q.recordOf? s e : Failing QueryError _)).filter q.accepts with
      | none => q.fill s rounds scan items
      | some r =>
        if items.data.length = q.size then return { items with more := true }
        else
          let location := "[" ++ toString items.data.length ++ "]"
          let item ← q.selection.project s (.ofRecord q.collection r) location
          let start := q.listing.start s.generation q.collection.name
          q.fill s rounds scan ⟨items.data ++ [item], some (e.1.drop start.length), false⟩

/-- The cursor for the last item of a page. -/
def cursor (q : PageQuery) (last : Bytes) : String :=
  (Cursor.mk q.collection.name q.listing.signature last).encode

/-- The page as an answer. -/
def answer (q : PageQuery) (items : Items) (warnings : List Dangling) : Answer :=
  ⟨.array items.data, some ⟨items.last.map q.cursor, items.more⟩, warnings⟩

/-- The page that nothing is on. -/
def noItems : Items := ⟨[], none, false⟩

/-- Reads the page from a snapshot. -/
def read (q : PageQuery) (s : Snapshot) (rounds : Nat) : Failing QueryError Answer := do
  let range := q.listing.range (q.listing.start s.generation q.collection.name) q.after
  let scan := Scan.ofRange range q.listing.direction Scan.defaultChunk
  let (items, warnings) ← (q.fill s rounds scan noItems).run []
  return q.answer items warnings

end PageQuery

namespace Database

/-- The answer for a page; it is empty before the first generation is active. -/
def readPage (db : Database) (rounds : Nat) (q : PageQuery) : Failing QueryError Answer := do
  match ← db.snapshot? with
  | some s => q.read s rounds
  | none => return q.answer PageQuery.noItems []

/-- The answer to a request. -/
def resolve (db : Database) (rounds : Nat) (r : Request) : Failing QueryError Answer := do
  match ← (db.query r : Except QueryError Query) with
  | .lookup c path selection => db.lookup c path selection
  | .page q => db.readPage rounds q

/-! ### References -/

/-- The sources of the references that a scan goes through. -/
def backlinks (start : Bytes) : (rounds : Nat) → Scan → Storage (List Backlink)
  | 0, _ => Failing.cut
  | rounds + 1, scan => do
    match ← scan.next with
    | none => return []
    | some (e, scan) =>
      match Backlink.ofSuffix? (e.1.drop start.length) with
      | some source => return source :: (← backlinks start rounds scan)
      | none => throw (.corrupt e.1.textLossy .malformedReference)

/-- The fields that refer to a document, in order. -/
def referencedBy (db : Database) (rounds : Nat) (collection path : String) :
    Failing QueryError (List Backlink) := do
  let _ ← (db.collection collection : Except QueryError _)
  match ← db.snapshot? with
  | none => return []
  | some s =>
    let start := Key.backlinkPrefix s.generation collection path
    backlinks start rounds (.ofRange (.ofPrefix start) .forward Scan.defaultChunk)

end Database

end ContentIndex
