import ContentIndex.Index.Program

/-!
# Scans in chunks

A scan goes through the entries of a range. It fetches them in chunks, each when the entries
before it are used up, so writes between two chunks may show in the later one.

## Main definitions

* `Scan`, `Scan.ofRange`: scans and how they begin
* `Scan.next`: the next entry
* `Scan.entries`: all entries that are left
* `Storage.clear`: deletion of a range
-/

namespace ContentIndex

/-- A scan on its way. -/
structure Scan where
  /-- The part of the range that has not been fetched. -/
  range : KeyRange
  /-- The direction. -/
  direction : Direction
  /-- The number of entries that are fetched at a time. -/
  chunk : Nat
  /-- Something is fetched at a time. -/
  chunk_pos : 0 < chunk
  /-- Entries that have been fetched and not used. -/
  fetched : List Entry
  /-- Nothing more can be fetched. -/
  exhausted : Bool

namespace Scan

/-- The usual number of entries in a chunk. -/
def defaultChunk : Nat := 256

/-- A scan at its beginning; a chunk has at least one entry. -/
def ofRange (range : KeyRange) (direction : Direction) (chunk : Nat) : Scan :=
  ⟨range, direction, max chunk 1, by omega, [], false⟩

/-- The scan with one chunk more. A chunk that is not full is the last one. -/
def fetch (s : Scan) : Storage Scan := do
  let entries ← Storage.scan s.range s.direction s.chunk
  return { s with
    range := (entries.getLast?.map fun e => s.range.past e.1 s.direction).getD s.range
    fetched := s.fetched ++ entries
    exhausted := entries.length < s.chunk }

/-- The next entry and the scan after it; none at the end. -/
def next (s : Scan) : Storage (Option (Entry × Scan)) := do
  let s ← if s.fetched.isEmpty && !s.exhausted then s.fetch else pure s
  match s.fetched with
  | [] => return none
  | e :: r => return some (e, { s with fetched := r })

/-- All entries that are left, and the failure that ended them. -/
def entries : (rounds : Nat) → Scan → Program (List Entry × Option StorageError)
  | 0, _ => .cut
  | rounds + 1, s => do
    match ← s.next.run with
    | .error e => return ([], some e)
    | .ok none => return ([], none)
    | .ok (some (e, s)) =>
      let (es, failure) ← entries rounds s
      return (e :: es, failure)

end Scan

/-- Deletes the entries of a range, chunk by chunk until none is found, and counts them. -/
def Storage.clear (range : KeyRange) : (rounds : Nat) → Storage Nat
  | 0 => Failing.cut
  | rounds + 1 => do
    let entries ← Storage.scan range .forward Scan.defaultChunk
    if entries.isEmpty then return 0
    else
      Storage.write (.ofOps (entries.map fun e => .delete e.1))
      return entries.length + (← Storage.clear range rounds)

end ContentIndex
