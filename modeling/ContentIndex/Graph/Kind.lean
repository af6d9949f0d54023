/-!
# Field kinds

The kinds of values that fields hold. A reference names the collections it may point into; an
object has one or several templates, which are read as a tagged union.

## Main definitions

* `Graph.Kind`, `Graph.Field`, `Graph.Template`: kinds, fields and templates
* `Graph.Kind.isScalar`, `Graph.Kind.label`, `Graph.Kind.conflicts`: what is asked of kinds
* `Graph.Template.field?`: the field of a name
-/

namespace ContentIndex.Graph

mutual

/-- The kind of values of a field. -/
inductive Kind
  | string
  | number
  | boolean
  | datetime
  | richText
  | reference (targets : List String)
  | list (items : Kind)
  | object (templates : List Template)

/-- A closed list of fields, in declaration order. -/
structure Template where
  /-- The name of the template. -/
  name : String
  /-- Its fields. -/
  fields : List Field

/-- A field of a template. -/
structure Field where
  /-- The name of the field. -/
  name : String
  /-- The kind of its values. -/
  kind : Kind
  /-- A document of the template must have it. -/
  required : Bool
  /-- Listings can be ordered by it. -/
  indexed : Bool

end

instance : Inhabited Kind := ⟨.string⟩
instance : Inhabited Template := ⟨⟨"", []⟩⟩
instance : Inhabited Field := ⟨⟨"", .string, false, false⟩⟩

mutual

/-- Equality of kinds is decidable. -/
def Kind.decEq : (a b : Kind) → Decidable (a = b)
  | .string, .string | .number, .number | .boolean, .boolean | .datetime, .datetime
  | .richText, .richText => isTrue rfl
  | .reference a, .reference b => decidable_of_iff (a = b) (by simp)
  | .list a, .list b => match Kind.decEq a b with
    | isTrue h => isTrue (by rw [h])
    | isFalse h => isFalse fun e => h (Kind.list.inj e)
  | .object a, .object b => match Template.decEqList a b with
    | isTrue h => isTrue (by rw [h])
    | isFalse h => isFalse fun e => h (Kind.object.inj e)
  | .string, .number | .string, .boolean | .string, .datetime | .string, .richText
  | .string, .reference _ | .string, .list _ | .string, .object _
  | .number, .string | .number, .boolean | .number, .datetime | .number, .richText
  | .number, .reference _ | .number, .list _ | .number, .object _
  | .boolean, .string | .boolean, .number | .boolean, .datetime | .boolean, .richText
  | .boolean, .reference _ | .boolean, .list _ | .boolean, .object _
  | .datetime, .string | .datetime, .number | .datetime, .boolean | .datetime, .richText
  | .datetime, .reference _ | .datetime, .list _ | .datetime, .object _
  | .richText, .string | .richText, .number | .richText, .boolean | .richText, .datetime
  | .richText, .reference _ | .richText, .list _ | .richText, .object _
  | .reference _, .string | .reference _, .number | .reference _, .boolean
  | .reference _, .datetime | .reference _, .richText | .reference _, .list _
  | .reference _, .object _
  | .list _, .string | .list _, .number | .list _, .boolean | .list _, .datetime
  | .list _, .richText | .list _, .reference _ | .list _, .object _
  | .object _, .string | .object _, .number | .object _, .boolean | .object _, .datetime
  | .object _, .richText | .object _, .reference _ | .object _, .list _ => isFalse nofun

/-- Equality of templates is decidable. -/
def Template.decEq : (a b : Template) → Decidable (a = b)
  | ⟨n, fs⟩, ⟨m, gs⟩ =>
    if hn : n = m then
      match Field.decEqList fs gs with
      | isTrue h => isTrue (by rw [hn, h])
      | isFalse h => isFalse fun e => h (Template.mk.inj e).2
    else isFalse fun e => hn (Template.mk.inj e).1

/-- Equality of template lists is decidable. -/
def Template.decEqList : (a b : List Template) → Decidable (a = b)
  | [], [] => isTrue rfl
  | [], _ :: _ => isFalse nofun
  | _ :: _, [] => isFalse nofun
  | a :: r, b :: s => match Template.decEq a b, Template.decEqList r s with
    | isTrue h, isTrue h' => isTrue (by rw [h, h'])
    | isFalse h, _ => isFalse fun e => h (List.cons.inj e).1
    | _, isFalse h => isFalse fun e => h (List.cons.inj e).2

/-- Equality of fields is decidable. -/
def Field.decEq : (a b : Field) → Decidable (a = b)
  | ⟨n, k, r, i⟩, ⟨m, l, s, j⟩ =>
    if h : n = m ∧ r = s ∧ i = j then
      match Kind.decEq k l with
      | isTrue hk => isTrue (by rw [h.1, h.2.1, h.2.2, hk])
      | isFalse hk => isFalse fun e => hk (Field.mk.inj e).2.1
    else isFalse fun e => h ⟨(Field.mk.inj e).1, (Field.mk.inj e).2.2⟩

/-- Equality of field lists is decidable. -/
def Field.decEqList : (a b : List Field) → Decidable (a = b)
  | [], [] => isTrue rfl
  | [], _ :: _ => isFalse nofun
  | _ :: _, [] => isFalse nofun
  | a :: r, b :: s => match Field.decEq a b, Field.decEqList r s with
    | isTrue h, isTrue h' => isTrue (by rw [h, h'])
    | isFalse h, _ => isFalse fun e => h (List.cons.inj e).1
    | _, isFalse h => isFalse fun e => h (List.cons.inj e).2

end

instance : DecidableEq Kind := Kind.decEq
instance : DecidableEq Template := Template.decEq
instance : DecidableEq Field := Field.decEq

namespace Kind

/-- One value that can be ordered. -/
def isScalar : Kind → Bool
  | .string | .number | .boolean | .datetime => true
  | _ => false

/-- The name of the kind. -/
def label : Kind → String
  | .string => "string"
  | .number => "number"
  | .boolean => "boolean"
  | .datetime => "datetime"
  | .richText => "rich-text"
  | .reference _ => "reference"
  | .list _ => "list"
  | .object _ => "object"

/-- Fields of one name on two templates cannot have these kinds: values of the union would be
ambiguous. Targets and members may differ, the kind itself and the kind of items may not. -/
def conflicts : Kind → Kind → Bool
  | .list a, .list b => a.conflicts b
  | a, b => a.label ≠ b.label

end Kind

/-- Listings can be ordered by the field. -/
def Field.isSortable (f : Field) : Bool := f.indexed && f.kind.isScalar

/-- The field of the given name. -/
def Template.field? (t : Template) (name : String) : Option Field :=
  t.fields.find? (·.name = name)

/-- The fields that every document of the template has. -/
def Template.requiredFields (t : Template) : List Field := t.fields.filter (·.required)

end ContentIndex.Graph
