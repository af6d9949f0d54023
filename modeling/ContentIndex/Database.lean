import ContentIndex.Record.Normalization
import ContentIndex.Settings
import ContentIndex.Sha256

/-!
# Databases

A database is what is known before a document is read: the graph of its collections, the
settings, and how bodies of documents are named. Indexing runs and queries are programs of it.

## Main definitions

* `Database`
* `Database.record`: the record of the content of a document
-/

namespace ContentIndex

/-- What indexing runs and queries work with. -/
structure Database where
  /-- The graph of the collections. -/
  graph : Graph
  /-- The settings. -/
  settings : Settings
  /-- The name of the field for the body of a document. -/
  bodyField : String

namespace Database

/-- The record of the content of a document, or the reason to leave the document out. -/
def record (db : Database) (c : Graph.Collection) (path : String) (content : Bytes) :
    Except DocumentSkip (Record × List Warning) := do
  let members ← (Document.parse db.bodyField path content).mapError .notDocument
  c.record db.graph db.settings.templatePolicy path (Sha256.hex content) (.object members)

end Database

end ContentIndex
