import ContentIndex.Index.Key
import ContentIndex.Index.Scan
import ContentIndex.Json.Printer
import ContentIndex.Json.Reader
import ContentIndex.Json.Record

/-!
# Generations of the index

A rebuild writes a new generation beside the active one, which is then replaced in one step. The
replaced generation is kept for those who still read it, until the next rebuild.

## Main definitions

* `GenerationInfo`: what a generation was built from
* `Generation.active?`, `Generation.info?`, `Generation.activeInfo?`: what is stored
* `Generation.allocate`: a new number
* `Generation.clearExcept`: removal of the generations that nobody reads
-/

namespace ContentIndex

open Json (Draft Value)

-- powers as in the core library, whichever other modules are read
attribute [local instance (2000)] instPowNat

/-- What a generation was built from. -/
structure GenerationInfo where
  /-- The number of the generation. -/
  generation : Generation
  /-- The version of the graph that it was built with. -/
  graphVersion : String
  /-- The graph in the type language. -/
  typeText : String
  /-- The generation that it replaced. -/
  previous : Option Generation
  deriving DecidableEq

namespace GenerationInfo

/-- A number as JSON. -/
def numberValue (g : Generation) : Value := .nat g.toNat

/-- The information as JSON. -/
def toValue (i : GenerationInfo) : Value :=
  .object [
    ("generation", numberValue i.generation),
    ("schema_version", .string i.graphVersion),
    ("sdl", .string i.typeText),
    ("previous", (i.previous.map numberValue).getD .null)]

/-- The stored bytes. -/
def toBytes (i : GenerationInfo) : Bytes := i.toValue.bytes

/-- The number written in a draft. -/
def number? (d : Draft) : Option Generation := (d.natBelow? (2 ^ (64 : Nat))).map UInt64.ofNat

/-- The information written in a draft. -/
def ofDraft? (d : Draft) : Option GenerationInfo := do
  match ← d.fields? ["generation", "schema_version", "sdl", "previous"] with
  | [some generation, some graphVersion, some typeText, previous] =>
    return {
      generation := ← number? generation
      graphVersion := ← graphVersion.string?
      typeText := ← typeText.string?
      previous := ← Draft.optional (Draft.nullable? number?) none previous }
  | _ => none

/-- Reads the stored bytes. -/
def ofBytes? (b : Bytes) : Option GenerationInfo := (Draft.ofBytes? b).bind ofDraft?

end GenerationInfo

namespace Generation

/-- The number as it is stored. -/
def toBytes (g : Generation) : Bytes := Bytes.ofText g.text

/-- The number in the stored value of a key. -/
def ofStored (key : Key) (b : Bytes) : Except StorageError Generation :=
  match parse? b with
  | some g => .ok g
  | none => .error (.corrupt key.encode.textLossy (.notGeneration b.textLossy))

/-- The number under a key, with the bytes it is stored as. -/
def stored? (key : Key) : Storage (Option (Generation × Bytes)) := do
  match ← Storage.get key.encode with
  | none => return none
  | some b => return some (← (ofStored key b : Except StorageError Generation), b)

/-- The active generation, with the bytes of its number, which guard a swap. -/
def active? : Storage (Option (Generation × Bytes)) := stored? .active

/-- The information on a generation. -/
def info? (g : Generation) : Storage (Option GenerationInfo) := do
  match ← Storage.get (Key.info g).encode with
  | none => return none
  | some b => match GenerationInfo.ofBytes? b with
    | some i => return some i
    | none => throw (.corrupt (Key.info g).encode.textLossy .unreadable)

/-- The information on the active generation. -/
def activeInfo? : Storage (Option GenerationInfo) := do
  match ← active? with
  | some (g, _) => info? g
  | none => return none

/-! ### New numbers -/

/-- The greater of two numbers that may be missing. -/
def greatest? : Option Generation → Option Generation → Option Generation
  | some a, some b => some (max a b)
  | some a, none => some a
  | none, b => b

/-- The number after all that were handed out; the counter wraps around. -/
def successor (last active : Option Generation) : Generation :=
  match greatest? last active with
  | some g => g + 1
  | none => 1

/-- Hands out the number above the counter and above the active generation, and counts on. -/
def allocateOnce (active : Option Generation) : Storage Generation := do
  let counter ← stored? .counter
  let g := successor (counter.map (·.1)) active
  Storage.write ⟨[.put Key.counter.encode g.toBytes], [⟨Key.counter.encode, counter.map (·.2)⟩]⟩
  return g

/-- How often a new number is tried for again. -/
def allocateRetries : Nat := 4

/-- Hands out a new number; when another rebuild was faster, it is tried again. -/
def allocate (active : Option Generation) : Storage Generation :=
  (allocateOnce active).retrying StorageError.isConflict allocateRetries

/-! ### Removal -/

/-- The ranges between the generations of an ascending list, from a start on. -/
def gaps (start : Bytes) : List Generation → List KeyRange
  | [] => [⟨start, Key.generationsPrefix.prefixSuccessor?⟩]
  | g :: r =>
    ⟨start, some (Key.generationPrefix g)⟩
      :: gaps ((Key.generationPrefix g).prefixSuccessor?.getD []) r

/-- The generations in order, each once. -/
def ascending (gs : List Generation) : List Generation :=
  (Entries.ofList (gs.map fun g => (g, ()))).map (·.1)

/-- The ranges of all generations but the given ones. -/
def rangesExcept (keep : List Generation) : List KeyRange :=
  gaps Key.generationsPrefix (ascending keep)

/-- Removes all generations but the given ones. -/
def clearExcept (rounds : Nat) (keep : List Generation) : Storage Unit :=
  (rangesExcept keep).forM fun range => discard (Storage.clear range rounds)

/-- Removes a generation. -/
def clear (rounds : Nat) (g : Generation) : Storage Unit :=
  discard (Storage.clear (.ofPrefix (Key.generationPrefix g)) rounds)

end Generation

end ContentIndex
