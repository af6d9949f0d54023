import ContentIndex.Yaml.Node

/-!
# Aliases

A reader follows an alias to the node that it stands for. Two limits keep that finite: collections
may be nested in one another 128 times, and in a document of `n` nodes and ends `100 * n` aliases
may be followed. Only the parts that are read count.

## Main definitions

* `Yaml.Reading`: reading a document within the limits
* `Yaml.Node.follow`, `Yaml.Reading.nested`: following an alias and entering a collection
* `Yaml.Node.expand`: a node without its aliases
* `Yaml.Document.read?`: what a document is read as
-/

namespace ContentIndex.Yaml

/-- The node that a label stands for: of several the one that begins last. -/
def Label.find? (label : Nat) (labels : List Label) : Option Node :=
  (labels.foldl (fun best l =>
    if l.label = label && best.all (·.order < l.order) then some l else best) none).map (·.node)

/-- What reading needs to know. -/
structure Surroundings where
  /-- The labelled nodes of the document. -/
  labels : List Label
  /-- The number of aliases that may be followed. -/
  limit : Nat
  /-- The number of collections that may be entered from here on. -/
  depth : Nat

/-- Reading a document, which counts the aliases followed and fails beyond a limit. -/
abbrev Reading := ReaderT Surroundings (StateT Nat Option)

/-- Reading inside a collection. -/
def Reading.nested {α : Type} (r : Reading α) : Reading α := do
  match (← read).depth with
  | 0 => failure
  | depth + 1 => withReader ({ · with depth }) r

/-- The node itself, or the one that an alias stands for. -/
def Node.follow : Node → Reading Node
  | .alias label => do
    let around ← read
    let followed ← get
    if around.limit ≤ followed then failure
    set (followed + 1)
    (Label.find? label around.labels : Option Node)
  | n => return n

/-- A node without its aliases, where collections may be nested `depth` times. -/
def Node.expandWithin : (depth : Nat) → Node → Reading Node
  | depth, n => do
    match depth, ← n.follow with
    | _, .scalar tag style text => return .scalar tag style text
    | depth + 1, .sequence tag items => return .sequence tag (← items.mapM (expandWithin depth))
    | depth + 1, .mapping tag entries =>
      return .mapping tag (← entries.mapM fun (k, v) =>
        return (← expandWithin depth k, ← expandWithin depth v))
    | _, _ => failure

/-- A node without its aliases. -/
def Node.expand (n : Node) : Reading Node := do n.expandWithin (← read).depth

/-- The limit on the nesting of collections. -/
def maxNesting : Nat := 128

/-- What a document is read as; a text without any node is read as an empty scalar. -/
def Document.read? {α : Type} (f : Node → Reading α) (d : Document) : Option α :=
  let root := d.root.getD (.empty none)
  ((f root).run ⟨d.labels, 100 * root.size, maxNesting⟩).run' 0

/-- The document of a text. -/
def Document.ofText? (cs : List Char) : Option Document := do ofTokens? (← Token.scan? cs)

end ContentIndex.Yaml
