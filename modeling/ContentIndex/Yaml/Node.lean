import ContentIndex.Yaml.Token

/-!
# YAML nodes

The tokens of a text make up one document, a tree of scalars, sequences and mappings. A node may
carry a tag and an anchor; an alias stands for the node with its anchor.

## Main definitions

* `Yaml.Node`: trees, in which an alias names its node by a label
* `Yaml.Label`: a labelled node
* `Yaml.Document`, `Yaml.Document.ofTokens?`: a tree with its labels, from tokens
-/

namespace ContentIndex.Yaml

/-- A node of a document. Tags are byte strings, for they need not be UTF-8. -/
inductive Node
  | scalar (tag : Option Bytes) (style : ScalarStyle) (text : List Char)
  | sequence (tag : Option Bytes) (items : List Node)
  | mapping (tag : Option Bytes) (entries : List (Node × Node))
  | alias (label : Nat)

instance : Inhabited Node := ⟨.alias 0⟩

/-- The empty plain scalar, which stands where a node is left out. -/
def Node.empty (tag : Option Bytes) : Node := .scalar tag .plain []

mutual

/-- The number of nodes in a tree, each collection counted at its start and at its end. -/
def Node.size : Node → Nat
  | .scalar .. | .alias _ => 1
  | .sequence _ items => Node.sizeItems items + 2
  | .mapping _ entries => Node.sizeEntries entries + 2

/-- The size of the items of a sequence. -/
def Node.sizeItems : List Node → Nat
  | [] => 0
  | n :: r => n.size + Node.sizeItems r

/-- The size of the entries of a mapping. -/
def Node.sizeEntries : List (Node × Node) → Nat
  | [] => 0
  | (k, v) :: r => k.size + v.size + Node.sizeEntries r

end

/-- A node with the label of its anchor. Of several nodes with one label, aliases stand for the
one that begins last. -/
structure Label where
  /-- The label. -/
  label : Nat
  /-- The number of anchors before the node. -/
  order : Nat
  /-- The node. -/
  node : Node

/-- A document: its tree and its labelled nodes. -/
structure Document where
  /-- The tree; a text without any node has none. -/
  root : Option Node
  /-- The labelled nodes. -/
  labels : List Label

/-- The state of reading nodes. -/
structure Parser where
  /-- The tokens to come. -/
  tokens : List Token
  /-- What the handles of tags stand for. -/
  handles : List (List Char × Bytes)
  /-- The label that each anchor stands for now. -/
  anchors : List (List Char × Nat)
  /-- The number of anchors so far. -/
  count : Nat
  /-- The labelled nodes that are complete. -/
  labels : List Label

namespace Parser

/-- A step of reading. -/
abbrev Step := StateT Parser Option

/-- The next token. -/
def peek : Step (Option Token) := do return (← get).tokens.head?

/-- Moves past one token. -/
def skip : Step Unit := modify fun p => { p with tokens := p.tokens.tail }

/-- Moves past the given token, if it comes next. -/
def skipIf (t : Token) : Step Bool := do
  if (← peek) = some t then
    skip
    return true
  else return false

/-- Moves past the given token, which must come next. -/
def expect (t : Token) : Step Unit := do
  if !(← skipIf t) then failure

/-- The next token is one of the given ones. -/
def sees (ts : List Token) : Step Bool := do return (← peek).any ts.contains

/-! ### Tags and anchors -/

/-- The name of an anchor, if one comes next. -/
def anchorName : Step (Option (List Char)) := do
  match ← peek with
  | some (.anchor name) =>
    skip
    return some name
  | _ => return none

/-- A tag, if one comes next. Its handle must be known. -/
def tag : Step (Option Bytes) := do
  match ← peek with
  | some (.tag handle suffix) =>
    skip
    if handle.isEmpty then return some suffix
    match (← get).handles.lookup handle with
    | some expansion => return some (expansion ++ suffix)
    | none => failure
  | _ => return none

/-- An anchor and a tag in either order, each at most once. -/
def properties : Step (Option (List Char) × Option Bytes) := do
  let anchor ← anchorName
  let tag ← tag
  match anchor with
  | some _ => return (anchor, tag)
  | none => return (← anchorName, tag)

/-- The label of an anchor: the number of different names before it. -/
def register (name : List Char) : Step (Nat × Nat) := do
  let p ← get
  let label := p.anchors.length
  set { p with
    anchors := (name, label) :: p.anchors.filter (·.1 ≠ name)
    count := p.count + 1 }
  return (label, p.count)

/-- The label that an alias stands for; its anchor must come before it. -/
def labelOf (name : List Char) : Step Nat := do
  match (← get).anchors.lookup name with
  | some label => return label
  | none => failure

/-! ### Nodes -/

mutual

/-- The node that comes next. `block` allows block collections, `flush` also a sequence whose
dashes stand no deeper than the mapping around it. -/
def node (block flush : Bool) : Nat → Step Node
  | 0 => failure
  | n + 1 => do
    if let some (.alias name) ← peek then
      skip
      return .alias (← labelOf name)
    let (anchor, tag) ← properties
    let label ← anchor.mapM register
    let result ← content block flush anchor.isSome tag n
    if let some (label, order) := label then
      modify fun p => { p with labels := ⟨label, order, result⟩ :: p.labels }
    return result

/-- The node after its anchor and tag; with one of them it may be left out. -/
def content (block flush anchored : Bool) (tag : Option Bytes) : Nat → Step Node
  | 0 => failure
  | n + 1 => do
    match ← peek with
    | some (.scalar style text) =>
      skip
      return .scalar tag style text
    | some .flowSequence =>
      skip
      return .sequence tag (← flowItems true n)
    | some .flowMapping =>
      skip
      return .mapping tag (← flowEntries true n)
    | some .blockSequence =>
      if block then
        skip
        return .sequence tag (← blockItems n)
    | some .blockMapping =>
      if block then
        skip
        return .mapping tag (← blockEntries n)
    | some .blockEntry =>
      if flush then return .sequence tag (← flushItems n)
    | _ => pure ()
    if anchored || tag.isSome then return .empty tag else failure

/-- The node that comes next, or the empty one before the given tokens. -/
def nodeUnless (block flush : Bool) (ends : List Token) : Nat → Step Node
  | 0 => failure
  | n + 1 => do
    if ← sees ends then return .empty none else node block flush n

/-- The items of a block sequence. -/
def blockItems : Nat → Step (List Node)
  | 0 => failure
  | n + 1 => do
    if ← skipIf .blockEnd then return []
    expect .blockEntry
    let item ← nodeUnless true false [.blockEntry, .blockEnd] n
    return item :: (← blockItems n)

/-- The items of a sequence without indentation of its own. -/
def flushItems : Nat → Step (List Node)
  | 0 => failure
  | n + 1 => do
    if ← skipIf .blockEntry then
      let item ← nodeUnless true false [.blockEntry, .key, .value, .blockEnd] n
      return item :: (← flushItems n)
    else return []

/-- The entries of a block mapping. -/
def blockEntries : Nat → Step (List (Node × Node))
  | 0 => failure
  | n + 1 => do
    if ← skipIf .blockEnd then return []
    expect .key
    let ends := [.key, .value, .blockEnd]
    let key ← nodeUnless true true ends n
    let value ← if ← skipIf .value then nodeUnless true true ends n else pure (.empty none)
    return (key, value) :: (← blockEntries n)

/-- The items of a flow sequence; a key between them begins a mapping of one entry. -/
def flowItems (first : Bool) : Nat → Step (List Node)
  | 0 => failure
  | n + 1 => do
    if ← skipIf .flowSequenceEnd then return []
    if !first then expect .flowEntry
    if ← skipIf .flowSequenceEnd then return []
    let item ← if ← skipIf .key then flowPair n else node false false n
    return item :: (← flowItems false n)

/-- A mapping of one entry between the items of a flow sequence. Where the key is left out, the
token in its place is passed over. -/
def flowPair : Nat → Step Node
  | 0 => failure
  | n + 1 => do
    let key ←
      if ← sees [.value, .flowEntry, .flowSequenceEnd] then do
        skip
        pure (.empty none)
      else node false false n
    let value ←
      if ← skipIf .value then nodeUnless false false [.flowEntry, .flowSequenceEnd] n
      else pure (.empty none)
    return .mapping none [(key, value)]

/-- The entries of a flow mapping. -/
def flowEntries (first : Bool) : Nat → Step (List (Node × Node))
  | 0 => failure
  | n + 1 => do
    if ← skipIf .flowMappingEnd then return []
    if !first then expect .flowEntry
    if ← skipIf .flowMappingEnd then return []
    let entry ←
      if ← skipIf .key then do
        let key ← nodeUnless false false [.value, .flowEntry, .flowMappingEnd] n
        let value ←
          if ← skipIf .value then nodeUnless false false [.flowEntry, .flowMappingEnd] n
          else pure (.empty none)
        pure (key, value)
      else do pure (← node false false n, .empty none)
    return entry :: (← flowEntries false n)

end

/-! ### Documents -/

/-- The handles that every document knows. -/
def standardHandles : List (List Char × Bytes) :=
  [(['!'], Bytes.ofText "!"), (['!', '!'], Bytes.ofText "tag:yaml.org,2002:")]

/-- Takes directives apart: the handles they declare. A version other than 1.1 and 1.2, a second
version and a second declaration of a handle are refused. -/
def directives? (versioned : Bool) (handles : List (List Char × Bytes)) :
    List Token → Option (List (List Char × Bytes) × List Token)
  | .version major minor :: r =>
    if versioned || major ≠ 1 || (minor ≠ 1 && minor ≠ 2) then none
    else directives? true handles r
  | .tagHandle handle expansion :: r =>
    if handles.any (·.1 = handle) then none
    else directives? versioned ((handle, expansion) :: handles) r
  | r => some (handles, r)

/-- The tokens after which a started document is left empty. -/
def endsDocument : Token → Bool
  | .version .. | .tagHandle .. | .documentStart | .documentEnd => true
  | _ => false

end Parser

open ContentIndex.Yaml.Parser in
/-- The document that makes up all the tokens. It may be started by directives and a marker, and
its end may be marked; a second document is refused. -/
def Document.ofTokens? (ts : List Token) : Option Document := do
  let steps := 4 * ts.length + 4
  match ts with
  | [] => return ⟨none, []⟩
  | t :: _ =>
    let explicit := t = .documentStart || (endsDocument t && t ≠ .documentEnd)
    let (handles, rest) ← directives? false [] ts
    let rest ← match explicit, rest with
      | false, rest => some rest
      | true, .documentStart :: rest => some rest
      | true, _ => none
    let parser : Parser := ⟨rest, handles ++ standardHandles, [], 0, []⟩
    let root : Step Node :=
      if explicit && rest.head?.all endsDocument then pure (.empty none)
      else node true false steps
    let (root, parser) ← root.run parser
    if parser.tokens.all (· = .documentEnd) then return ⟨some root, parser.labels⟩ else none

end ContentIndex.Yaml
