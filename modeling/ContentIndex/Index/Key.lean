import ContentIndex.Record.SortValue
import ContentIndex.Text.Blank

/-!
# Keys of the index

The index lives under keys of a few families. The families of one generation share a prefix, and
generations are written with sixteen digits, so their prefixes are ordered like their numbers.

## Main definitions

* `Generation`: generations of the index
* `Key`, `Key.encode`: the families of keys and their bytes
* `Key.generationPrefix`, `Key.documentPrefix`, `Key.sortPrefix`, `Key.backlinkPrefix`: the
  prefixes that scans start from
* `Backlink.ofSuffix?`: the source of a back-reference from its key
* `Generation.parse?`: the generation written in a stored value
-/

namespace ContentIndex

-- powers as in the core library, whichever other modules are read
attribute [local instance (2000)] instPowNat

/-- The number of a generation of the index. -/
abbrev Generation := UInt64

/-- The number in decimal digits. -/
def Generation.text (g : Generation) : String := toString g.toNat

/-- Reads a decimal number between blanks; a plus sign may precede it. -/
def Generation.parse? (b : Bytes) : Option Generation := do
  let cs := Text.trim (← Bytes.text? b).toList
  let ds := if cs.head? = some '+' then cs.tail else cs
  if ds.isEmpty || !ds.all Char.isDigit then none
  else
    let n := ds.foldl (fun n c => n * 10 + (c.toNat - '0'.toNat)) 0
    if n < 2 ^ (64 : Nat) then some (UInt64.ofNat n) else none

/-- The source of a reference: a document and the path of a field in it. -/
structure Backlink where
  /-- The collection of the referring document. -/
  collection : String
  /-- The path of the referring document. -/
  path : String
  /-- The path of the referring field. -/
  field : String
  deriving DecidableEq

/-- A key of the index. -/
inductive Key
  /-- The active generation. -/
  | active
  /-- The lock of a running rebuild. -/
  | lock
  /-- The highest generation ever handed out. -/
  | counter
  /-- What a generation was built from. -/
  | info (g : Generation)
  /-- The record of a document. -/
  | document (g : Generation) (collection path : String)
  /-- The place of a document in the order by a field. -/
  | sort (g : Generation) (collection field : String) (descending : Bool)
      (value : Option FieldValue) (path : String)
  /-- A reference to a document. -/
  | backlink (g : Generation) (collection path : String) (source : Backlink)

namespace Key

/-- The text `a` followed by the separator. -/
def part (a : String) : Bytes := Bytes.ofText a ++ [0]

/-- The sixteen hexadecimal digits of a generation. -/
def generationDigits (g : Generation) : Bytes :=
  Bytes.ofText (Bytes.toHex (SortValue.bigEndian g))

/-- The prefix of all generations. -/
def generationsPrefix : Bytes := Bytes.ofText "ns/"

/-- The prefix of a generation. -/
def generationPrefix (g : Generation) : Bytes :=
  generationsPrefix ++ generationDigits g ++ Bytes.ofText "/"

/-- The prefix of the documents of a collection. -/
def documentPrefix (g : Generation) (collection : String) : Bytes :=
  generationPrefix g ++ Bytes.ofText "doc/" ++ part collection

/-- The prefix of the order of a collection by a field. Both directions have entries of their
own, so that ties are broken by ascending path in both. -/
def sortPrefix (g : Generation) (collection field : String) (descending : Bool) : Bytes :=
  generationPrefix g ++ Bytes.ofText "sort/" ++ part collection ++ part field
    ++ Bytes.ofText (if descending then "d" else "a")

/-- The prefix of the references to a document. -/
def backlinkPrefix (g : Generation) (collection path : String) : Bytes :=
  generationPrefix g ++ Bytes.ofText "ref/" ++ part collection ++ part path

/-- The bytes of a sort value in one direction. -/
def sortBytes (descending : Bool) (value : Option FieldValue) : Bytes :=
  if descending then (SortValue.encode value).map (~~~·) else SortValue.encode value

/-- The bytes of a source. -/
def sourceBytes (s : Backlink) : Bytes :=
  part s.collection ++ part s.path ++ Bytes.ofText s.field

/-- The bytes of a key. -/
def encode : Key → Bytes
  | .active => Bytes.ofText "meta/active"
  | .lock => Bytes.ofText "meta/rebuild-lock"
  | .counter => Bytes.ofText "meta/generation"
  | .info g => generationPrefix g ++ Bytes.ofText "info"
  | .document g collection path => documentPrefix g collection ++ Bytes.ofText path
  | .sort g collection field descending value path =>
    sortPrefix g collection field descending ++ sortBytes descending value ++ Bytes.ofText path
  | .backlink g collection path source => backlinkPrefix g collection path ++ sourceBytes source

end Key

/-- The bytes up to the first zero byte, and those after it. -/
def Backlink.splitPart? : Bytes → Option (Bytes × Bytes)
  | [] => none
  | b :: r => if b = 0 then some ([], r) else (splitPart? r).map fun (a, s) => (b :: a, s)

/-- The source written after the prefix of a back-reference. -/
def Backlink.ofSuffix? (b : Bytes) : Option Backlink := do
  let (collection, r) ← splitPart? b
  let (path, field) ← splitPart? r
  return ⟨← Bytes.text? collection, ← Bytes.text? path, ← Bytes.text? field⟩

end ContentIndex
