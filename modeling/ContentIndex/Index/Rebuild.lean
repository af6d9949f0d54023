import ContentIndex.Database
import ContentIndex.Graph.TypeLanguage
import ContentIndex.Index.Entries
import ContentIndex.Index.Generations
import ContentIndex.Index.Lock
import ContentIndex.Index.Report

/-!
# Rebuilds

A rebuild takes the lock, writes all documents of the source into a new generation, and then makes
that one active and gives the lock back in a single batch, guarded by both. The new generation of
a rebuild that fails is removed.

## Main definitions

* `Building`: steps of a rebuild, which hold the lock and keep it
* `Database.build`: the new generation
* `Database.rebuild`: the rebuild
-/

namespace ContentIndex

/-- A step of a rebuild. The lock as it was last acquired is kept when the step fails. -/
abbrev Building := ExceptT IndexError (StateT Lock Program)

instance : MonadLift (Failing IndexError) Building :=
  ⟨fun t => ExceptT.mk (StateT.lift t.run)⟩

namespace Database

/-- Keeps the lock. -/
def keepLock (db : Database) : Building Unit := do
  set (← (Lock.beat db.settings.lockSeconds (← get) : Failing IndexError Lock))

/-- The paths that the source lists for a collection and that belong to it before all others. -/
def ownedPaths (db : Database) (c : Graph.Collection) : Failing IndexError (List String) := do
  checkCancelled
  match ← Program.paths c.path with
  | .ok paths => return paths.filter fun p => (db.graph.owner? p).any (·.name = c.name)
  | .error e => throw (.source e)

/-- All documents of the source, each with its collection. -/
def documents (db : Database) : Failing IndexError (List (Graph.Collection × String)) := do
  let lists ← db.graph.collections.mapM fun c => do return (← db.ownedPaths c).map (c, ·)
  return lists.flatten

/-- Writes a document into a generation that nobody reads yet. -/
def writeFresh (db : Database) (g : Generation) (c : Graph.Collection) (path : String) :
    Failing IndexError (Outcome × List Notice) := do
  match ← Program.content path with
  | .error (.notFound _) => return (.missing, [.vanished path])
  | .error e => return (.skipped (.unreadable e.message), [])
  | .ok content =>
    match db.record c path content with
    | .error reason => return (.skipped reason, [])
    | .ok (r, warnings) =>
      Storage.write (.ofOps ((r.entries g c).map fun e => .put e.1 e.2))
      return (.indexed, warnings.map (.document path))

/-- Writes documents one after another and keeps the lock meanwhile. -/
def writeAll (db : Database) (g : Generation) :
    List (Graph.Collection × String) → Report → Building Report
  | [], report => return report
  | (c, path) :: rest, report => do
    checkCancelled
    db.keepLock
    let (outcome, notices) ← (db.writeFresh g c path : Failing IndexError _)
    db.writeAll g rest (report.add path outcome notices)

/-- The generation that the active one replaced, which may still be read. -/
def retired? (active : Option Generation) : Storage (Option Generation) := do
  match active with
  | some g => return (← Generation.info? g).bind (·.previous)
  | none => return none

/-- Writes the generation `g` after removing those that nobody reads. -/
def build (db : Database) (rounds : Nat) (active : Option Generation) (g : Generation) :
    Building Report := do
  let retired ← (retired? active : Failing IndexError _)
  (Generation.clearExcept rounds (active.toList ++ retired.toList ++ [g]) : Failing IndexError _)
  let work ← (db.documents : Failing IndexError _)
  let report ← db.writeAll g work { generation := g }
  checkCancelled
  let info : GenerationInfo := ⟨g, db.graph.version, db.graph.typeText, active⟩
  (Storage.write (.ofOps [.put (Key.info g).encode info.toBytes]) : Failing IndexError _)
  return report

/-- The active generation, if there is one, and a number for a new one. -/
def prepare : Storage (Option (Generation × Bytes) × Generation) := do
  let active ← Generation.active?
  return (active, ← Generation.allocate (active.map (·.1)))

/-- Removes a generation that will not become active, and gives the lock back. Failures of both
are passed over, and the active generation is never removed. -/
def abandon (rounds : Nat) (g : Generation) (lock : Lock) : Program Unit := do
  match ← Generation.active?.run with
  | .ok active => if active.map (·.1) ≠ some g then discard (Generation.clear rounds g).run
  | .error _ => pure ()
  discard lock.release.run

/-- The batch that makes a generation active and gives the lock back. -/
def swap (active : Option (Generation × Bytes)) (g : Generation) (lock : Lock) : Batch where
  ops := [.put Key.active.encode g.toBytes, .delete Key.lock.encode]
  guards := [⟨Key.active.encode, active.map (·.2)⟩, ⟨Key.lock.encode, some lock.toBytes⟩]

/-- The failure that a failed swap means. -/
def swapFailure (lock : Lock) : StorageError → IndexError
  | .conflict key =>
    if key = Key.lock.encode then .lockLost lock.owner else .storage (.conflict key)
  | e => .storage e

/-- Indexes all documents into a new generation, which becomes the active one. -/
def rebuild (db : Database) (rounds : Nat) : Failing IndexError Report := do
  let lock ← Lock.acquire db.settings.lockSeconds
  match ← prepare.outcome with
  | .error e =>
    let _ ← lock.release.outcome
    throw (.storage e)
  | .ok (active, g) =>
    let (built, lock) ← ExceptT.lift ((db.build rounds (active.map (·.1)) g).run.run lock)
    match built with
    | .error e =>
      ExceptT.lift (abandon rounds g lock)
      throw e
    | .ok report =>
      match ← (Storage.write (swap active g lock)).outcome with
      | .ok () => return report
      | .error e =>
        ExceptT.lift (abandon rounds g lock)
        throw (swapFailure lock e)

end Database

end ContentIndex
