import ContentIndex.Graph.Basic
import ContentIndex.Index.Key
import ContentIndex.Record.Basic
import ContentIndex.Store.Basic

/-!
# The entries of a record

A record owns entries of three families: the record itself, its places in the orders of its
collection, and the references from it.

## Main definitions

* `Record.documentEntry`, `Record.sortEntries`, `Record.backlinkEntries`: the families
* `Record.entries`: all of them, in key order
* `Record.ofStored?`: the record that an entry holds
-/

namespace ContentIndex.Record

/-- The entry that holds the record. -/
def documentEntry (r : Record) (g : Generation) : Entry :=
  ((Key.document g r.collection r.path).encode, r.toBytes)

/-- The places of the record in the orders of a collection, both ways by each sortable field; the
entry of a place holds the path. -/
def sortEntries (r : Record) (g : Generation) (c : Graph.Collection) : List Entry :=
  c.sortableFields.flatMap fun f => [false, true].map fun descending =>
    ((Key.sort g c.name f.name descending (Entries.find? f.name r.fields) r.path).encode,
      Bytes.ofText r.path)

/-- The references from the record to collections; their entries hold nothing. -/
def backlinkEntries (r : Record) (g : Generation) : List Entry :=
  r.references.filterMap fun (field, target) => target.collection.map fun collection =>
    ((Key.backlink g collection target.path ⟨r.collection, r.path, field⟩).encode, [])

/-- All entries of the record in a generation, in key order. -/
def entries (r : Record) (g : Generation) (c : Graph.Collection) : List Entry :=
  Entries.ofList (r.documentEntry g :: r.sortEntries g c ++ r.backlinkEntries g)

/-- The record in the value of a key, if the key has one. -/
def ofStored? (key : Bytes) : Option Bytes → Except StorageError (Option Record)
  | none => .ok none
  | some b => match ofBytes? b with
    | some r => .ok (some r)
    | none => .error (.corrupt key.textLossy .unreadable)

end ContentIndex.Record
