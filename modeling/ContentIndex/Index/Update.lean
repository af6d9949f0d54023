import ContentIndex.Database
import ContentIndex.Index.Entries
import ContentIndex.Index.Generations
import ContentIndex.Index.Lock
import ContentIndex.Index.Report

/-!
# Updates

An update indexes single paths into the active generation. The entries of a path are replaced in
one batch, which is guarded by the record that it replaces and by the active generation.

## Main definitions

* `Database.change`: what a path needs
* `Database.updatePath`: the update of one path
* `Database.update`: the update
-/

namespace ContentIndex

namespace Database

/-- The generation that is updated, which must have been built with the graph of the database. -/
def updatable (db : Database) : Failing IndexError Generation := do
  match ← Generation.activeInfo? with
  | some i =>
    if i.graphVersion = db.graph.version then return i.generation
    else throw (.schemaMismatch db.graph.version i.graphVersion)
  | none => throw (.schemaMismatch db.graph.version none)

/-- What becomes of a path that has the given record so far, and the record that it has
afterwards. Nothing is written if that is missing. -/
def change (db : Database) (c : Graph.Collection) (path : String) (old : Option Record) :
    Except SourceError Bytes → Outcome × List Notice × Option (Option Record)
  | .error (.notFound _) =>
    if old.isSome then (.deleted, [], some none) else (.missing, [.absent path], none)
  | .error e => (.skipped (.unreadable e.message), [], none)
  | .ok content =>
    if old.any (·.contentHash = Sha256.hex content) then (.unchanged, [], none)
    else match db.record c path content with
      | .ok (r, warnings) => (.indexed, warnings.map (.document path), some (some r))
      | .error reason => (.skipped reason, [], some none)

/-- The writes that replace entries by others. -/
def replacement (old new : List Entry) : List WriteOp :=
  (old.filter fun e => !Entries.contains e.1 new).map (fun e => .delete e.1)
    ++ new.map fun e => .put e.1 e.2

/-- Replaces the entries of a path, unless another update is faster. -/
def updateOnce (db : Database) (g : Generation) (c : Graph.Collection) (path : String) :
    Failing IndexError (Outcome × List Notice) := do
  let key := (Key.document g c.name path).encode
  let stored ← Storage.get key
  let old ← (Record.ofStored? key stored : Storage _)
  let (outcome, notices, result) := db.change c path old (← Program.content path)
  if let some new := result then
    let entries (r : Option Record) : List Entry := (r.map (·.entries g c)).getD []
    let ops := replacement (entries old) (entries new)
    if !ops.isEmpty then
      Storage.write ⟨ops, [⟨key, stored⟩, ⟨Key.active.encode, some g.toBytes⟩]⟩
  return (outcome, notices)

/-- How often an update of a path is tried again after another one was faster. -/
def updateRetries : Nat := 2

/-- Another update was faster; the generation is still the active one. -/
def isRecordConflict : IndexError → Bool
  | .storage (.conflict key) => key ≠ Key.active.encode
  | _ => false

/-- Brings the entries of a path up to date. -/
def updatePath (db : Database) (g : Generation) (c : Graph.Collection) (path : String) :
    Failing IndexError (Outcome × List Notice) :=
  (db.updateOnce g c path).retrying isRecordConflict updateRetries

/-- Updates paths one after another. -/
def updateAll (db : Database) (g : Generation) : List String → Report → Failing IndexError Report
  | [], report => return report
  | path :: rest, report => do
    checkCancelled
    match db.graph.owner? path with
    | none => db.updateAll g rest (report.note (.unowned path))
    | some c =>
      let (outcome, notices) ← db.updatePath g c path
      db.updateAll g rest (report.add path outcome notices)

/-- Brings the active generation up to date at the given paths, each once. No rebuild may be
running. -/
def update (db : Database) (paths : List String) : Failing IndexError Report := do
  if let some lock ← Lock.live? db.settings.lockSeconds then throw lock.inProgress
  let g ← db.updatable
  db.updateAll g paths.eraseDups { generation := g }

end Database

end ContentIndex
