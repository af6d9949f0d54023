import ContentIndex.Index.Error
import ContentIndex.Index.Key
import ContentIndex.Json.Printer
import ContentIndex.Json.Reader
import ContentIndex.Json.Record
import ContentIndex.Time.Reading

/-!
# The lock of a rebuild

At most one rebuild runs at a time: it holds a lock, an entry with the name of its owner. A lock
expires some time after it was acquired, and its owner keeps it by acquiring it anew before that.
Every write of the lock is guarded by the bytes that it replaces, so no lock is overwritten unseen.

## Main definitions

* `Lock`, `Lock.toBytes`, `Lock.ofBytes?`: locks and their stored form
* `Lock.isExpired`: the end of a lock
* `Lock.live?`, `Lock.acquire`, `Lock.beat`, `Lock.release`: asking for, taking, keeping and giving
  back the lock
-/

namespace ContentIndex

open Json (Draft Value)

-- powers as in the core library, whichever other modules are read
attribute [local instance (2000)] instPowNat

/-- A lock. -/
structure Lock where
  /-- The name of the owner. -/
  owner : String
  /-- When it was acquired. -/
  acquired : Instant
  deriving DecidableEq, Inhabited

namespace Lock

/-- A lock as JSON. -/
def toValue (l : Lock) : Value :=
  .object [("owner", .string l.owner), ("acquired_at", .string (l.acquired.write .shortest "Z"))]

/-- The stored bytes. -/
def toBytes (l : Lock) : Bytes := l.toValue.bytes

/-- The lock written in a draft. -/
def ofDraft? (d : Draft) : Option Lock := do
  match ← d.fields? ["owner", "acquired_at"] with
  | [some owner, some acquired] =>
    return ⟨← owner.string?, ← Instant.ofLooseTimestamp? (← acquired.string?)⟩
  | _ => none

/-- Reads the stored bytes. -/
def ofBytes? (b : Bytes) : Option Lock := (Draft.ofBytes? b).bind ofDraft?

/-! ### Time -/

/-- The greatest lifetime, in seconds. -/
def maxLifetime : Nat := (2 ^ (63 : Nat) - 1) / 1000

/-- The lifetime of locks, in seconds. -/
def lifetime (seconds : Nat) : Nat := min seconds maxLifetime

/-- Nanoseconds of whole seconds. -/
def nanoseconds (seconds : Nat) : Int := (seconds * Instant.billion : Nat)

/-- The lock was acquired longer ago than it lives. -/
def isExpired (l : Lock) (seconds : Nat) (now : Instant) : Bool :=
  nanoseconds (lifetime seconds) < now.since l.acquired

/-- The owner should acquire the lock anew: a third of its lifetime has passed. -/
def isDue (l : Lock) (seconds : Nat) (now : Instant) : Bool :=
  nanoseconds (lifetime seconds / 3) ≤ now.since l.acquired

/-! ### Operations -/

/-- The lock in a stored value, if it is one and has not expired. The time is asked for only if
there is a lock. -/
def liveIn? (seconds : Nat) (stored : Option Bytes) : Program (Option Lock) := do
  match stored.bind ofBytes? with
  | none => return none
  | some lock => return if lock.isExpired seconds (← Program.now) then none else some lock

/-- The lock that is held, if one is held and has not expired. -/
def live? (seconds : Nat) : Storage (Option Lock) := do
  liveIn? seconds (← Storage.get Key.lock.encode)

/-- Writes the lock if the stored value is the given one. -/
def store (l : Lock) (current : Option Bytes) : Storage Unit :=
  Storage.write ⟨[.put Key.lock.encode l.toBytes], [⟨Key.lock.encode, current⟩]⟩

/-- The failure that a lock of another rebuild means. -/
def inProgress (l : Lock) : IndexError := .rebuildInProgress l.owner l.acquired

/-- The owner of a lock that cannot be read. -/
def unknownOwner : String := "unknown"

/-- The failure after another rebuild was faster. -/
def lostRace : Failing IndexError IndexError := do
  match (← Storage.get Key.lock.encode).bind ofBytes? with
  | some winner => return winner.inProgress
  | none => return .rebuildInProgress unknownOwner (← Program.now)

/-- Takes the lock. A lock that has expired or cannot be read is taken over. -/
def acquire (seconds : Nat) : Failing IndexError Lock := do
  let current ← Storage.get Key.lock.encode
  if let some held ← liveIn? seconds current then throw held.inProgress
  let lock : Lock := ⟨← Program.freshName, ← Program.now⟩
  match ← (lock.store current).outcome with
  | .ok () => return lock
  | .error (.conflict _) => throw (← lostRace)
  | .error e => throw (.storage e)

/-- Keeps a held lock: acquires it anew if that is due. -/
def beat (seconds : Nat) (held : Lock) : Failing IndexError Lock := do
  let now ← Program.now
  if !held.isDue seconds now then return held
  let lock : Lock := { held with acquired := now }
  match ← (lock.store (some held.toBytes)).outcome with
  | .ok () => return lock
  | .error (.conflict _) => throw (.lockLost held.owner)
  | .error e => throw (.storage e)

/-- Gives a held lock back; a lock that has become another's is left to it. -/
def release (held : Lock) : Storage Unit := do
  match ← (Storage.write ⟨[.delete Key.lock.encode],
      [⟨Key.lock.encode, some held.toBytes⟩]⟩).outcome with
  | .error (.conflict _) => return ()
  | .error e => throw e
  | .ok () => return ()

end Lock

end ContentIndex
