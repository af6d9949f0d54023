import ContentIndex.Json.Draft

/-!
# Selections

A selection names the fields that a query returns, each with a selection of its own. The empty
selection stands for all fields of a document or object, and for the bare path of a reference.

## Main definitions

* `Selection`: named selections, in name order
* `Selection.ofNames`, `Selection.insert`: building selections
* `Selection.ofDraft?`, `Selection.toValue`: their JSON form
-/

namespace ContentIndex

open Json (Draft MemberName Value)

/-- The selected fields, each with its own selection, in name order. -/
inductive Selection
  | mk (fields : List (String × Selection))

namespace Selection

instance : Inhabited Selection := ⟨.mk []⟩

/-- The selected fields. -/
def fields : Selection → List (String × Selection)
  | .mk fields => fields

/-- The selection of nothing in particular. -/
def empty : Selection := .mk []

/-- Nothing in particular is selected. -/
def isEmpty (s : Selection) : Bool := s.fields.isEmpty

/-- The fields of the given names. -/
def ofNames (names : List String) : Selection := .mk (Entries.ofList (names.map (·, empty)))

/-- The selection with one field more, or with another selection for it. -/
def insert (s : Selection) (name : String) (inner : Selection) : Selection :=
  .mk (Entries.insert name inner s.fields)

mutual

/-- The selection written in a draft. -/
def ofDraft? : Draft → Option Selection
  | .object members => do return .mk (Entries.ofList (← ofMembers? members))
  | _ => none

/-- The selections written in the members of an object. -/
def ofMembers? : List (MemberName × Draft) → Option (List (String × Selection))
  | [] => some []
  | (name, d) :: r => do return (← name.text?, ← ofDraft? d) :: (← ofMembers? r)

end

mutual

/-- A selection as JSON. -/
def toValue : Selection → Value
  | .mk fields => .object (toMembers fields)

/-- Selected fields as members. -/
def toMembers : List (String × Selection) → List (String × Value)
  | [] => []
  | (name, s) :: r => (name, s.toValue) :: toMembers r

end

end Selection

end ContentIndex
