import ContentIndex.Json.Draft
import ContentIndex.Yaml.Content

/-!
# Records in YAML

A record is read from a mapping by the names of its fields; other keys are passed over, with all
that they hold. What a field may hold decides how its scalar is read: a text field takes any scalar
as it is spelled.

## Main definitions

* `Yaml.Node.record`: a record from the nodes of its fields
* `Yaml.Node.string`, `Yaml.Node.bool`, `Yaml.Node.natBelow`, `Yaml.Node.nullable`,
  `Yaml.Node.list`, `Yaml.Node.variant`: parts of records
* `Yaml.Node.draft`: a node as a draft for the readers of declarations
-/

namespace ContentIndex.Yaml.Node

open Json (Draft MemberName Value)

/-! ### Scalars -/

/-- Nothing is written here. -/
def isBlank : Node → Bool
  | .scalar _ .plain [] => true
  | _ => false

/-- A scalar as it is spelled. -/
def string (n : Node) : Reading String := do
  match ← n.follow with
  | .scalar _ _ text => return String.ofList text
  | _ => failure

/-- The spelling of a scalar that is read by it: a plain one, or a literal block with the given
tag. -/
def spelling (tag : Bytes) (n : Node) : Reading (List Char) := do
  match ← n.follow with
  | .scalar _ .plain text => return text
  | .scalar t .literal text => if t = some tag then return text else failure
  | _ => failure

/-- A truth value. -/
def bool (n : Node) : Reading Bool := do boolOfText? (← n.spelling (coreTag "bool"))

/-- A whole number from zero up to a bound. -/
def natBelow (bound : Nat) (n : Node) : Reading Nat := do
  unsignedOfText? bound (← n.spelling (coreTag "int"))

/-- Null or nothing stands for absence; a node tagged as null has to be null. -/
def nullable {α : Type} (f : Node → Reading α) (n : Node) : Reading (Option α) := do
  match ← n.follow with
  | .scalar none .plain text =>
    if text.isEmpty || isNullText text then return none
    else return some (← f (.scalar none .plain text))
  | .scalar (some tag) .plain text =>
    if tag = coreTag "null" then if isNullText text then return none else failure
    else return some (← f (.scalar (some tag) .plain text))
  | n => return some (← f n)

/-- The name of a choice without content: a scalar, or the tag of an empty one. -/
def variant (n : Node) : Reading String := do
  match ← n.follow with
  | .scalar tag style text =>
    match localTag? tag with
    | some name =>
      if style = .plain && (text.isEmpty || isNullText text) then return name else failure
    | none => return String.ofList text
  | _ => failure

/-! ### Collections -/

/-- The items of a sequence, each read by `f`; where nothing is written there are none. -/
def list {α : Type} (f : Node → Reading α) (n : Node) : Reading (List α) := do
  match ← n.follow with
  | .sequence _ items => Reading.nested (items.mapM f)
  | n => if n.isBlank then return [] else failure

/-- Reads the entries of a mapping, by the spelling of their keys; where nothing is written there
are none. -/
def withMembers {α : Type} (f : List (String × Node) → Reading α) (n : Node) : Reading α := do
  match ← n.follow with
  | .mapping _ entries =>
    Reading.nested do f (← entries.mapM fun (k, v) => return (← k.string, v))
  | n => if n.isBlank then f [] else failure

/-- The entry of the given name, if it is there; a second one is refused. -/
def uniqueMember? (name : String) (members : List (String × Node)) : Option (Option Node) :=
  match members.filter (·.1 = name) with
  | [] => some none
  | [m] => some (some m.2)
  | _ => none

/-- Reads a record from the nodes of the named fields, each present or absent. -/
def record {α : Type} (names : List String) (f : List (Option Node) → Reading α) :
    Node → Reading α :=
  withMembers fun members => do f (← names.mapM (uniqueMember? · members))

/-- A field that may be absent, with the value it has then. -/
def optional {α : Type} (f : Node → Reading α) (absent : α) : Option Node → Reading α
  | none => return absent
  | some n => f n

/-! ### Declarations -/

/-- A scalar as a draft; a double that is not finite has no value. -/
def scalarDraft? : Resolved → Option Draft
  | .float x => some (if x.isFinite then (Value.float x).draft else .unreadable)
  | r => r.toJson?.map Value.draft

/-- The name that a scalar key gives to a member of a declaration: a whole number without a minus
sign is a position. -/
def scalarName? (text : List Char) : Resolved → Option MemberName
  | .text cs => some (.text (String.ofList cs))
  | .int i => some (if text.head? = some '-' then .unreadable else .position i.toNat)
  | .wide => none
  | _ => some .unreadable

mutual

/-- A node as a draft, with all entries of mappings. Local tags are refused. -/
def draft? : Node → Option Draft
  | .alias _ => none
  | .scalar tag style text =>
    if (localTag? tag).isSome then none
    else (Resolved.ofScalar? tag style text).bind scalarDraft?
  | .sequence tag items =>
    if (localTag? tag).isSome then none else do return .array (← itemDrafts? items)
  | .mapping tag entries =>
    if (localTag? tag).isSome then none
    else do return .object (← entryDrafts? entries)

/-- Items as drafts. -/
def itemDrafts? : List Node → Option (List Draft)
  | [] => some []
  | n :: r => do return (← n.draft?) :: (← itemDrafts? r)

/-- Entries as members. -/
def entryDrafts? : List (Node × Node) → Option (List (MemberName × Draft))
  | [] => some []
  | (k, v) :: r => do return (← k.memberName?, ← v.draft?) :: (← entryDrafts? r)

/-- The name that a key gives to a member of a declaration. -/
def memberName? : Node → Option MemberName
  | .scalar tag style text =>
    if (localTag? tag).isSome then none
    else (Resolved.ofScalar? tag style text).bind (scalarName? text)
  | .sequence tag items =>
    if (localTag? tag).isSome then none
    else (itemDrafts? items).map fun _ => .unreadable
  | .mapping tag entries =>
    if (localTag? tag).isSome then none
    else (entryDrafts? entries).map fun _ => .unreadable
  | .alias _ => none

end

/-- A node as a draft, its aliases followed. -/
def draft (n : Node) : Reading Draft := do (← n.expand).draft?

end ContentIndex.Yaml.Node
