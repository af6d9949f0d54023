import ContentIndex.Database
import ContentIndex.Index.Entries
import ContentIndex.Index.Generations
import ContentIndex.Query.Error

/-!
# Snapshots

A query reads the active generation as it was when the query began, whatever becomes active
meanwhile.

## Main definitions

* `Snapshot`: a generation, with the graph that it was built with
* `Database.snapshot?`, `Database.needsRebuild`: the active generation
* `Snapshot.record?`: a document
-/

namespace ContentIndex

instance : MonadLift Storage (Failing QueryError) := ⟨ExceptT.adapt .storage⟩

/-- A generation and the graph that it was built with. -/
structure Snapshot where
  /-- The graph. -/
  graph : Graph
  /-- The generation. -/
  generation : Generation

/-- The active generation, if there is one. It must have been built with the graph of the
database. -/
def Database.snapshot? (db : Database) : Failing QueryError (Option Snapshot) := do
  match ← Generation.active? with
  | none => return none
  | some (g, _) =>
    match (← Generation.info? g).map (·.graphVersion) with
    | some version =>
      if version = db.graph.version then return some ⟨db.graph, g⟩
      else throw (.schemaMismatch db.graph.version version)
    | none => throw (.schemaMismatch db.graph.version none)

/-- Nothing is indexed with the graph of the database. -/
def Database.needsRebuild (db : Database) : Storage Bool := do
  return (← Generation.activeInfo?).all (·.graphVersion ≠ db.graph.version)

namespace Snapshot

/-- The key of a document. -/
def key (s : Snapshot) (collection path : String) : Bytes :=
  (Key.document s.generation collection path).encode

/-- The record of a document, if the index has it. -/
def record? (s : Snapshot) (collection path : String) : Storage (Option Record) := do
  Record.ofStored? (s.key collection path) (← Storage.get (s.key collection path))

end Snapshot

end ContentIndex
