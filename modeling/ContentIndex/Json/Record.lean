import ContentIndex.Json.Draft

/-!
# Records in JSON

A record is read from an object by the names of its fields or from an array by their positions.
An object may name a field once at most and may hold other members, which are passed over; an array
may stop early but holds no more than the fields.

## Main definitions

* `Json.Draft.members?`, `Json.Draft.fields?`: the members of an object, and those of the named
  fields
* `Json.Draft.variant?`: the name and the content of a tagged choice
* `Json.Draft.string?`, `Json.Draft.bool?`, `Json.Draft.natBelow?`, `Json.Draft.list?`,
  `Json.Draft.nullable?`, `Json.Draft.optional`: parts of records
-/

namespace ContentIndex.Json

/-- The name is that of the field with the given name and position. -/
def MemberName.names (name : String) (position : Nat) : MemberName → Bool
  | .text s => s = name
  | .position n => n = position
  | .unreadable => false

namespace Draft

/-! ### Objects -/

/-- The members of an object, all of whose names must be readable. -/
def members? : Draft → Option (List (MemberName × Draft))
  | .object members => if members.any (·.1 = .unreadable) then none else some members
  | _ => none

/-- The member whose name satisfies the test, if it is there; a second one is refused. -/
def uniqueMember? (p : MemberName → Bool) (members : List (MemberName × Draft)) :
    Option (Option Draft) :=
  match members.filter (p ·.1) with
  | [] => some none
  | [m] => some (some m.2)
  | _ => none

/-- The member of the given name, if it is there; a second one is refused. -/
def namedMember? (name : String) (members : List (MemberName × Draft)) : Option (Option Draft) :=
  uniqueMember? (· = .text name) members

/-- The fields among members, each present or absent; `position` is that of the first one. -/
def fieldsAmong? (members : List (MemberName × Draft)) :
    (position : Nat) → List String → Option (List (Option Draft))
  | _, [] => some []
  | position, name :: r => do
    return (← uniqueMember? (·.names name position) members)
      :: (← fieldsAmong? members (position + 1) r)

/-- The parts of the named fields, each present or absent. -/
def fields? (names : List String) : Draft → Option (List (Option Draft))
  | .array items =>
    if items.length ≤ names.length then
      some (items.map some ++ List.replicate (names.length - items.length) none)
    else none
  | d => do fieldsAmong? (← d.members?) 0 names

/-! ### Choices -/

/-- A choice: its name alone, or an object with its name and its content as the only member. -/
def variant? : Draft → Option (MemberName × Option Draft)
  | .string name => some (.text name, none)
  | .object [(name, content)] => some (name, some content)
  | _ => none

/-- Nothing is written here. An empty object is nothing too if it has been set aside before it was
known what it belongs to. -/
def isNothing (setAside : Bool) : Draft → Bool
  | .null => true
  | .object [] => setAside
  | _ => false

/-- A choice without content. -/
def bareVariant? (setAside : Bool) (d : Draft) : Option MemberName :=
  match d.variant? with
  | some (name, none) => some name
  | some (name, some content) => if content.isNothing setAside then some name else none
  | none => none

/-- The name of a choice without content. -/
def bareName? (setAside : Bool) (d : Draft) : Option String :=
  (d.bareVariant? setAside).bind MemberName.text?

/-! ### Parts -/

/-- The text of a string. -/
def string? : Draft → Option String
  | .string s => some s
  | _ => none

/-- A truth value. -/
def bool? : Draft → Option Bool
  | .bool b => some b
  | _ => none

/-- A whole number from zero up to a bound. -/
def natBelow? (bound : Nat) : Draft → Option Nat
  | .number (.int i _) => if 0 ≤ i ∧ i < bound then some i.toNat else none
  | _ => none

/-- The items of an array, each read by `f`. -/
def list? {α : Type} (f : Draft → Option α) : Draft → Option (List α)
  | .array items => items.mapM f
  | _ => none

/-- `null` stands for absence. -/
def nullable? {α : Type} (f : Draft → Option α) : Draft → Option (Option α)
  | .null => some none
  | d => (f d).map some

/-- A field that may be absent, with the value it has then. -/
def optional {α : Type} (f : Draft → Option α) (absent : α) : Option Draft → Option α
  | none => some absent
  | some d => f d

end Draft

end ContentIndex.Json
