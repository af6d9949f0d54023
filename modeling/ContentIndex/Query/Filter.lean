import ContentIndex.Graph.Basic
import ContentIndex.Json.Record
import ContentIndex.Query.Error
import ContentIndex.Record.Basic
import ContentIndex.Time.Reading

/-!
# Filters

A filter compares the fields of a document with values. It is checked against a collection, which
turns it into a predicate on records: every field exists and every value fits it.

## Main definitions

* `Filter`, `Filter.ofDraft?`, `Filter.toValue`: filters and their JSON form
* `Predicate`, `Predicate.holds`: checked filters and their meaning
* `Filter.check`: checking
-/

namespace ContentIndex

open Json (Draft Value)

/-- A comparison. -/
inductive Comparison
  | eq
  | ne
  | lt
  | lte
  | gt
  | gte
  deriving DecidableEq, Repr

/-- A condition on the fields of a document. -/
inductive Filter
  /-- The field compares with the value. -/
  | compare (comparison : Comparison) (field : String) (value : Value)
  /-- The field equals one of the values. -/
  | oneOf (field : String) (values : List Value)
  /-- The field is a text with the given start. -/
  | startsWith (field start : String)
  /-- The document has the field. -/
  | present (field : String)
  /-- All conditions hold. -/
  | all (filters : List Filter)
  /-- Some condition holds. -/
  | any (filters : List Filter)
  /-- The condition does not hold. -/
  | not (filter : Filter)

instance : Inhabited Filter := ⟨.all []⟩

namespace Comparison

/-- The name of a comparison. -/
def name : Comparison → String
  | .eq => "eq"
  | .ne => "ne"
  | .lt => "lt"
  | .lte => "lte"
  | .gt => "gt"
  | .gte => "gte"

/-- The comparison of the given name. -/
def ofName? (name : String) : Option Comparison :=
  [eq, ne, lt, lte, gt, gte].find? (·.name = name)

/-- The comparison holds for two values in the given order. -/
def holds : Comparison → Ordering → Bool
  | .eq, o => o = .eq
  | .ne, o => o ≠ .eq
  | .lt, o => o = .lt
  | .lte, o => o ≠ .gt
  | .gt, o => o = .gt
  | .gte, o => o ≠ .lt

end Comparison

namespace Filter

/-! ### JSON form -/

/-- A filter without filters inside, by its name and its content. -/
def leaf? (name : String) (content : Draft) : Option Filter :=
  match Comparison.ofName? name with
  | some c => do
    match ← content.fields? ["field", "value"] with
    | [some field, some value] => return .compare c (← field.string?) (← value.value?)
    | _ => none
  | none =>
    if name = "in" then do
      match ← content.fields? ["field", "values"] with
      | [some field, some values] => return .oneOf (← field.string?) (← values.list? Draft.value?)
      | _ => none
    else if name = "starts_with" then do
      match ← content.fields? ["field", "prefix"] with
      | [some field, some start] => return .startsWith (← field.string?) (← start.string?)
      | _ => none
    else if name = "exists" then do
      match ← content.fields? ["field"] with
      | [some field] => return .present (← field.string?)
      | _ => none
    else none

mutual

/-- The filter written in a draft: an object with the name of the filter and its content. -/
def ofDraft? : Draft → Option Filter
  | .object [(.text name, content)] =>
    if name = "not" then (ofDraft? content).map .not else ofContent? name content
  | _ => none

/-- A filter by its name and its content. -/
def ofContent? (name : String) : Draft → Option Filter
  | .array items =>
    if name = "and" then (ofItems? items).map .all
    else if name = "or" then (ofItems? items).map .any
    else none
  | .object members => leaf? name (.object members)
  | _ => none

/-- The filters written in the items of an array. -/
def ofItems? : List Draft → Option (List Filter)
  | [] => some []
  | d :: r => do return (← ofDraft? d) :: (← ofItems? r)

end

/-- A name with its content. -/
def named (name : String) (content : List (String × Value)) : Value :=
  .object [(name, .object content)]

mutual

/-- A filter as JSON. -/
def toValue : Filter → Value
  | .compare c field value => named c.name [("field", .string field), ("value", value)]
  | .oneOf field values => named "in" [("field", .string field), ("values", .array values)]
  | .startsWith field start =>
    named "starts_with" [("field", .string field), ("prefix", .string start)]
  | .present field => named "exists" [("field", .string field)]
  | .all filters => .object [("and", .array (toValues filters))]
  | .any filters => .object [("or", .array (toValues filters))]
  | .not filter => .object [("not", filter.toValue)]

/-- Filters as JSON. -/
def toValues : List Filter → List Value
  | [] => []
  | f :: r => f.toValue :: toValues r

end

end Filter

/-! ### Predicates -/

/-- What a predicate looks at. -/
inductive Subject
  | collection
  | path
  | template
  | field (name : String)
  deriving DecidableEq

/-- A value that can be compared. -/
inductive Operand
  | text (s : String)
  | number (x : Binary64)
  | boolean (b : Bool)
  deriving DecidableEq

/-- A filter that fits its collection. -/
inductive Predicate
  | compare (comparison : Comparison) (subject : Subject) (operand : Operand)
  | oneOf (subject : Subject) (operands : List Operand)
  | startsWith (subject : Subject) (start : String)
  | present (subject : Subject)
  | all (predicates : List Predicate)
  | any (predicates : List Predicate)
  | not (predicate : Predicate)

instance : Inhabited Predicate := ⟨.all []⟩

/-- The comparable value of a field; a reference counts as its path. -/
def FieldValue.operand? : FieldValue → Option Operand
  | .string s | .datetime s => some (.text s)
  | .reference t => some (.text t.path)
  | .number x => some (.number x)
  | .boolean b => some (.boolean b)
  | _ => none

/-- The comparable value of a subject of a record, if it has one. -/
def Subject.of? (r : Record) : Subject → Option Operand
  | .collection => some (.text r.collection)
  | .path => some (.text r.path)
  | .template => some (.text r.template)
  | .field name => (Entries.find? name r.fields).bind FieldValue.operand?

/-- The order of two values of one type. -/
def Operand.compare? : Operand → Operand → Option Ordering
  | .text a, .text b => some (compareOfLessAndEq a b)
  | .number a, .number b => a.compare? b
  | .boolean a, .boolean b => some (compareOfLessAndEq a.toNat b.toNat)
  | _, _ => none

mutual

/-- The predicate holds for a record. A missing field differs from every value, and does not
compare with any in another way. -/
def Predicate.holds (r : Record) : Predicate → Bool
  | .compare c subject operand =>
    match subject.of? r with
    | none => c = .ne
    | some value => (value.compare? operand).any c.holds
  | .oneOf subject operands =>
    (subject.of? r).any fun value => operands.any fun o => value.compare? o = some .eq
  | .startsWith subject start =>
    match subject.of? r with
    | some (.text s) => start.toList.isPrefixOf s.toList
    | _ => false
  | .present subject => (subject.of? r).isSome
  | .all predicates => Predicate.allHold r predicates
  | .any predicates => Predicate.someHolds r predicates
  | .not predicate => !predicate.holds r

/-- All predicates hold for a record. -/
def Predicate.allHold (r : Record) : List Predicate → Bool
  | [] => true
  | p :: ps => p.holds r && Predicate.allHold r ps

/-- Some predicate holds for a record. -/
def Predicate.someHolds (r : Record) : List Predicate → Bool
  | [] => false
  | p :: ps => p.holds r || Predicate.someHolds r ps

end

/-! ### Checking -/

/-- The type of values that a subject compares with. -/
inductive OperandType
  | text
  | datetime
  | number
  | boolean
  deriving DecidableEq

/-- The subject of the given name in a collection, and the type of its values. -/
def Subject.named (c : Graph.Collection) (name : String) :
    Except QueryError (Subject × OperandType) :=
  if name = Graph.systemCollection then .ok (.collection, .text)
  else if name = Graph.systemPath then .ok (.path, .text)
  else if name = Graph.systemTemplate then .ok (.template, .text)
  else match c.field? name with
    | none => .error (.unknownField c.name name)
    | some f => match f.kind with
      | .string | .reference _ => .ok (.field name, .text)
      | .datetime => .ok (.field name, .datetime)
      | .number => .ok (.field name, .number)
      | .boolean => .ok (.field name, .boolean)
      | kind => .error (.invalidFilter (.notComparable name kind.label))

/-- The value of the given type. -/
def Operand.ofValue? : OperandType → Value → Option Operand
  | .text, .string s => some (.text s)
  | .datetime, .string s => (Instant.canonical? s).map .text
  | .number, .number n => some (.number n.toFloat)
  | .boolean, .bool b => some (.boolean b)
  | _, _ => none

/-- The value that a field is compared with. -/
def Operand.check (field : String) (type : OperandType) (v : Value) :
    Except QueryError Operand :=
  match Operand.ofValue? type v with
  | some o => .ok o
  | none => .error (.invalidFilter (.wrongOperand field v))

mutual

/-- The predicate that a filter stands for in a collection. -/
def Filter.check (c : Graph.Collection) : Filter → Except QueryError Predicate
  | .compare comparison field value => do
    let (subject, type) ← Subject.named c field
    return .compare comparison subject (← Operand.check field type value)
  | .oneOf field values => do
    let (subject, type) ← Subject.named c field
    return .oneOf subject (← values.mapM (Operand.check field type))
  | .startsWith field start => do
    let (subject, type) ← Subject.named c field
    if type = .text || type = .datetime then return .startsWith subject start
    else throw (.invalidFilter (.notText field))
  | .present field => do
    let (subject, _) ← Subject.named c field
    return .present subject
  | .all filters => do return .all (← Filter.checkAll c filters)
  | .any filters => do return .any (← Filter.checkAll c filters)
  | .not filter => do return .not (← filter.check c)

/-- The predicates that filters stand for. -/
def Filter.checkAll (c : Graph.Collection) : List Filter → Except QueryError (List Predicate)
  | [] => .ok []
  | f :: r => do return (← f.check c) :: (← Filter.checkAll c r)

end

end ContentIndex
