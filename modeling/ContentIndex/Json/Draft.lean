import ContentIndex.Json.Basic

/-!
# Drafts of JSON values

A reader that wants some parts of a text passes over the others, whose writing is checked but whose
meaning is not: a number may be too great, a string may be no text, arrays may be nested too deep.
A draft is a text read that far. Its parts may be unreadable, which only a reader that wants them
complains about.

## Main definitions

* `Json.MemberName`: what names a member
* `Json.Draft`: drafts
* `Json.Value.draft`: the draft of a value, all of which is readable
* `Json.Draft.value?`: the value of a draft, if all of it is readable
* `Json.Draft.depth`: how deep a draft is nested
-/

namespace ContentIndex.Json

/-- What names a member of an object. -/
inductive MemberName
  | text (name : String)
  /-- The member is the one at the given position, counted from zero. -/
  | position (n : Nat)
  /-- Written correctly, but neither a text nor a position. -/
  | unreadable
  deriving DecidableEq

/-- The text of a name. -/
def MemberName.text? : MemberName → Option String
  | .text name => some name
  | _ => none

/-- What is written in a text, its parts not all known to be values. -/
inductive Draft
  | null
  | bool (b : Bool)
  | number (n : Number)
  | string (s : String)
  | array (items : List Draft)
  | object (members : List (MemberName × Draft))
  /-- Written correctly, but no value. -/
  | unreadable

instance : Inhabited Draft := ⟨.null⟩

namespace Value

mutual

/-- The draft of a value. -/
def draft : Value → Draft
  | .null => .null
  | .bool b => .bool b
  | .number n => .number n
  | .string s => .string s
  | .array items => .array (itemDrafts items)
  | .object members => .object (memberDrafts members)

/-- The drafts of items. -/
def itemDrafts : List Value → List Draft
  | [] => []
  | v :: r => v.draft :: itemDrafts r

/-- The drafts of members. -/
def memberDrafts : List (String × Value) → List (MemberName × Draft)
  | [] => []
  | (name, v) :: r => (.text name, v.draft) :: memberDrafts r

end

end Value

namespace Draft

mutual

/-- The value of a draft, if all of it is readable. -/
def value? : Draft → Option Value
  | .null => some .null
  | .bool b => some (.bool b)
  | .number n => some (.number n)
  | .string s => some (.string s)
  | .array items => (itemValues? items).map .array
  | .object members => (memberValues? members).map .object
  | .unreadable => none

/-- The values of items. -/
def itemValues? : List Draft → Option (List Value)
  | [] => some []
  | d :: r => do return (← d.value?) :: (← itemValues? r)

/-- The values of members. -/
def memberValues? : List (MemberName × Draft) → Option (List (String × Value))
  | [] => some []
  | (name, d) :: r => do return (← name.text?, ← d.value?) :: (← memberValues? r)

end

mutual

/-- A value is read back from its draft. -/
@[simp] theorem value?_draft : ∀ v : Value, v.draft.value? = some v
  | .null | .bool _ | .number _ | .string _ => rfl
  | .array items => by simp [Value.draft, value?, itemValues?_itemDrafts items]
  | .object members => by simp [Value.draft, value?, memberValues?_memberDrafts members]

/-- Items are read back from their drafts. -/
@[simp] theorem itemValues?_itemDrafts :
    ∀ items : List Value, itemValues? (Value.itemDrafts items) = some items
  | [] => rfl
  | v :: r => by simp [Value.itemDrafts, itemValues?, value?_draft v, itemValues?_itemDrafts r]

/-- Members are read back from their drafts. -/
@[simp] theorem memberValues?_memberDrafts :
    ∀ members : List (String × Value), memberValues? (Value.memberDrafts members) = some members
  | [] => rfl
  | (name, v) :: r => by
    simp [Value.memberDrafts, memberValues?, MemberName.text?, value?_draft v,
      memberValues?_memberDrafts r]

end

mutual

/-- How deep arrays and objects are nested. -/
def depth : Draft → Nat
  | .array items => depthItems items + 1
  | .object members => depthMembers members + 1
  | _ => 0

/-- The greatest depth of the items. -/
def depthItems : List Draft → Nat
  | [] => 0
  | d :: r => max d.depth (depthItems r)

/-- The greatest depth of the members. -/
def depthMembers : List (MemberName × Draft) → Nat
  | [] => 0
  | (_, d) :: r => max d.depth (depthMembers r)

end

end Draft

end ContentIndex.Json
