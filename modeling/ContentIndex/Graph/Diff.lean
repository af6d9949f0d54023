import ContentIndex.Graph.Basic

/-!
# Changes between type graphs

The changes from one graph to another are listed in the declaration order of the new graph,
followed by the collections that are gone.

## Main definitions

* `Graph.Change`: one difference
* `Graph.changes`: all differences
* `Graph.needsReindex`: some difference makes the existing index wrong
-/

namespace ContentIndex.Graph

/-- One difference between two graphs. -/
inductive Change
  | collectionAdded (name : String)
  | collectionRemoved (name : String)
  | locationChanged (collection : String)
  | templateAdded (collection template : String)
  | templateRemoved (collection template : String)
  | fieldAdded (collection template field : String) (required : Bool)
  | fieldRemoved (collection template field : String)
  | kindChanged (collection template field : String)
  | flagsChanged (collection template field : String)
  | strictnessChanged (collection : String)
  | defaultSortChanged (collection : String)
  deriving DecidableEq

namespace Change

/-- Records of the old graph may be wrong under the new one: all changes but that of a default
order. -/
def requiresReindex : Change → Bool
  | .defaultSortChanged _ => false
  | _ => true

/-- The name of a field with its collection and template. -/
def qualified (collection template field : String) : String :=
  "'" ++ collection ++ "." ++ template ++ "." ++ field ++ "'"

/-- The change in words. -/
def describe : Change → String
  | .collectionAdded name => "Collection '" ++ name ++ "' added"
  | .collectionRemoved name => "Collection '" ++ name ++ "' removed"
  | .locationChanged c => "Path, match or format of '" ++ c ++ "' changed"
  | .templateAdded c t => "Template '" ++ c ++ "." ++ t ++ "' added"
  | .templateRemoved c t => "Template '" ++ c ++ "." ++ t ++ "' removed"
  | .fieldAdded c t f required =>
    "Field " ++ qualified c t f ++ " added" ++ if required then " (required)" else ""
  | .fieldRemoved c t f => "Field " ++ qualified c t f ++ " removed"
  | .kindChanged c t f => "Field " ++ qualified c t f ++ " changed shape"
  | .flagsChanged c t f => "Field " ++ qualified c t f ++ " changed required/indexed flags"
  | .strictnessChanged c => "Strict mode of '" ++ c ++ "' changed"
  | .defaultSortChanged c => "Default sort of '" ++ c ++ "' changed"

end Change

/-- The change of a field that the new template declares. -/
def fieldChange? (c : String) (old : Template) (t : Template) (f : Field) : Option Change :=
  match old.field? f.name with
  | none => some (.fieldAdded c t.name f.name f.required)
  | some before =>
    if before.kind ≠ f.kind then some (.kindChanged c t.name f.name)
    else if before.required ≠ f.required ∨ before.indexed ≠ f.indexed then
      some (.flagsChanged c t.name f.name)
    else none

/-- The changes of a template that both graphs declare. -/
def templateChanges (c : String) (old new : Template) : List Change :=
  new.fields.filterMap (fieldChange? c old new) ++
    (old.fields.filter fun f => (new.field? f.name).isNone).map
      fun f => .fieldRemoved c new.name f.name

/-- The changes of a collection that both graphs declare. -/
def collectionChanges (old new : Collection) : List Change :=
  let c := new.name
  (if old.path ≠ new.path ∨ old.pattern.map (·.text) ≠ new.pattern.map (·.text)
      ∨ old.format ≠ new.format then [.locationChanged c] else [])
    ++ (if old.strict ≠ new.strict then [.strictnessChanged c] else [])
    ++ (if old.defaultSort ≠ new.defaultSort then [.defaultSortChanged c] else [])
    ++ new.templates.flatMap (fun t => match old.template? t.name with
      | none => [.templateAdded c t.name]
      | some before => templateChanges c before t)
    ++ (old.templates.filter fun t => (new.template? t.name).isNone).map
      fun t => .templateRemoved c t.name

/-- The changes from one graph to another. -/
def changes (old new : Graph) : List Change :=
  new.collections.flatMap (fun c => match old.collection? c.name with
    | none => [.collectionAdded c.name]
    | some before => collectionChanges before c)
  ++ (old.collections.filter fun c => (new.collection? c.name).isNone).map
    fun c => .collectionRemoved c.name

/-- Some change makes the existing index wrong. -/
def needsReindex (cs : List Change) : Bool := cs.any Change.requiresReindex

end ContentIndex.Graph
