import ContentIndex.OrderedMap
import ContentIndex.Store.Range

/-!
# Stores and batches

A store maps keys to values in key order. It is read by key and by range, and written in batches:
all operations of a batch are applied, or none if a guard does not hold.

## Main definitions

* `StorageError`: what can go wrong
* `Store`, `Store.scan`: stores and ordered reading
* `Batch`, `Store.write`: guarded writing
-/

namespace ContentIndex

/-- Why a stored value cannot be understood. -/
inductive Corruption
  /-- The value is not in its stored form. -/
  | unreadable
  /-- The value should be a generation number. -/
  | notGeneration (text : String)
  /-- The key of a reference does not name its source. -/
  | malformedReference
  deriving DecidableEq

/-- A failure of storage. -/
inductive StorageError
  /-- The backend fails. -/
  | backend (message : String)
  /-- The entry of a key cannot be understood. -/
  | corrupt (key : String) (reason : Corruption)
  /-- The guard on a key does not hold. -/
  | conflict (key : Bytes)
  deriving DecidableEq

/-- A guard did not hold. -/
def StorageError.isConflict : StorageError → Bool
  | .conflict _ => true
  | _ => false

/-- The reason in words. The complaint of a reader is not worded. -/
def Corruption.message : Corruption → String
  | .unreadable => "<detail>"
  | .notGeneration text => "not a generation number: " ++ text
  | .malformedReference => "malformed reference entry"

/-- The failure in words. -/
def StorageError.message : StorageError → String
  | .backend m => "Storage backend error: " ++ m
  | .corrupt key reason => "Corrupt index entry at " ++ key ++ ": " ++ reason.message
  | .conflict key => "Write conflict on key " ++ key.textLossy

/-- A store: values by key, in key order. -/
abbrev Store := OrderedMap Bytes Bytes

/-- An entry of a store. -/
abbrev Entry := Bytes × Bytes

/-- The direction of a scan. -/
inductive Direction
  | forward
  | reverse
  deriving DecidableEq

/-- The part of a range that a scan reaches after a key. -/
def KeyRange.past (r : KeyRange) (key : Bytes) : Direction → KeyRange
  | .forward => r.after key
  | .reverse => r.before key

/-- A write of one key. -/
inductive WriteOp
  | put (key value : Bytes)
  | delete (key : Bytes)
  deriving DecidableEq

/-- The key that is written. -/
def WriteOp.key : WriteOp → Bytes
  | .put key _ | .delete key => key

/-- The value that a key must have, or must not have. -/
structure Guard where
  /-- The key. -/
  key : Bytes
  /-- Its value; none if it must be absent. -/
  expected : Option Bytes
  deriving DecidableEq

/-- Writes that are applied together, if all guards hold. -/
structure Batch where
  /-- The writes, in order. -/
  ops : List WriteOp
  /-- The guards, in the order they are checked. -/
  guards : List Guard
  deriving DecidableEq

/-- A batch without guards. -/
def Batch.ofOps (ops : List WriteOp) : Batch := ⟨ops, []⟩

namespace Store

/-- The entries of a range, in the given direction, at most `limit` of them. -/
def scan (s : Store) (r : KeyRange) (d : Direction) (limit : Nat) : List Entry :=
  let entries := s.entries.filter (r.contains ·.1)
  match d with
  | .forward => entries.take limit
  | .reverse => entries.reverse.take limit

/-- The store after one write. -/
def apply (s : Store) : WriteOp → Store
  | .put key value => s.insert key value
  | .delete key => s.erase key

/-- The first guard that does not hold. -/
def failedGuard? (s : Store) (guards : List Guard) : Option Guard :=
  guards.find? fun g => s.get? g.key ≠ g.expected

/-- Applies a batch, or nothing of it when a guard fails. -/
def write (s : Store) (b : Batch) : Except StorageError Store :=
  match s.failedGuard? b.guards with
  | some g => .error (.conflict g.key)
  | none => .ok (b.ops.foldl apply s)

end Store

end ContentIndex
