import ContentIndex.Index.Key
import ContentIndex.Record.Normalization

/-!
# Reports of indexing runs

## Main definitions

* `Outcome`, `Notice`: what becomes of a document, and what is noted about it
* `Report`, `Report.add`: what is told at the end of a run
-/

namespace ContentIndex

/-- What becomes of a document in a run. -/
inductive Outcome
  /-- Its record was written. -/
  | indexed
  /-- Its record is that of its content. -/
  | unchanged
  /-- It is gone, and its record was removed. -/
  | deleted
  /-- It is not there, and had no record. -/
  | missing
  /-- It is left out. -/
  | skipped (reason : DocumentSkip)

/-- What is noted in a run. -/
inductive Notice
  /-- Something about the content of a document. -/
  | document (path : String) (w : Warning)
  /-- The source lists a document that it does not have. -/
  | vanished (path : String)
  /-- No collection has a place for the path. -/
  | unowned (path : String)
  /-- Neither the source nor the index has a document at the path. -/
  | absent (path : String)
  deriving DecidableEq

/-- The notice in words. -/
def Notice.message : Notice → String
  | .document path w => w.message path
  | .vanished path => path ++ ": listed by the content source but not found"
  | .unowned path => path ++ ": no collection matches this path"
  | .absent path => path ++ ": not found in the content source and not indexed"

/-- What is told at the end of a run. -/
structure Report where
  /-- The generation that was written. -/
  generation : Generation
  /-- The number of records that were written. -/
  indexed : Nat := 0
  /-- The number of documents that were found unchanged. -/
  unchanged : Nat := 0
  /-- The number of records that were removed with their document. -/
  deleted : Nat := 0
  /-- The documents that were left out. -/
  skipped : List (String × DocumentSkip) := []
  /-- What was noted. -/
  notices : List Notice := []

namespace Report

/-- The report with one notice more. -/
def note (r : Report) (n : Notice) : Report := { r with notices := r.notices ++ [n] }

/-- The report with one document more. -/
def add (r : Report) (path : String) (outcome : Outcome) (notices : List Notice) : Report :=
  let r := { r with notices := r.notices ++ notices }
  match outcome with
  | .indexed => { r with indexed := r.indexed + 1 }
  | .unchanged => { r with unchanged := r.unchanged + 1 }
  | .deleted => { r with deleted := r.deleted + 1 }
  | .missing => r
  | .skipped reason => { r with skipped := r.skipped ++ [(path, reason)] }

@[simp] theorem generation_note (r : Report) (n : Notice) :
    (r.note n).generation = r.generation := rfl

@[simp] theorem generation_add (r : Report) (path : String) (outcome : Outcome)
    (notices : List Notice) : (r.add path outcome notices).generation = r.generation := by
  cases outcome <;> rfl

end Report

end ContentIndex
