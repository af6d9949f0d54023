import ContentIndex.Index.Program
import ContentIndex.Text.Quoted

/-!
# Failures of indexing runs

## Main definitions

* `IndexError`, `IndexError.message`: why a run has failed
-/

namespace ContentIndex

/-- Why an indexing run has failed. -/
inductive IndexError
  /-- A rebuild is running. -/
  | rebuildInProgress (owner : String) (since : Instant)
  /-- The lock of the run has become another's. -/
  | lockLost (owner : String)
  /-- The run was told to stop. -/
  | cancelled
  /-- The index was built for another graph. -/
  | schemaMismatch (expected : String) (found : Option String)
  /-- Storage fails. -/
  | storage (e : StorageError)
  /-- The content source fails. -/
  | source (e : SourceError)
  deriving DecidableEq

/-- The failure in words. -/
def IndexError.message : IndexError → String
  | .rebuildInProgress owner since =>
    "A full rebuild is already in progress (held by " ++ owner ++ " since "
      ++ since.write .shortest "+00:00" ++ ")"
  | .lockLost owner => "Rebuild lock " ++ owner ++ " was taken over by another rebuild"
  | .cancelled => "Indexing run was cancelled"
  | .schemaMismatch expected found =>
    "Active index was built for schema " ++ Text.quotedOption found ++ ", expected " ++ expected
      ++ "; a full rebuild is required"
  | .storage e => e.message
  | .source e => e.message

instance : MonadLift Storage (Failing IndexError) := ⟨ExceptT.adapt .storage⟩

/-- Stops a run that was told to stop. -/
def checkCancelled : Failing IndexError Unit := do
  if ← Program.cancelled then throw .cancelled

end ContentIndex
