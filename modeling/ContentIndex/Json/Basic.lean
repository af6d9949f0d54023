import ContentIndex.Number.Binary64
import ContentIndex.OrderedMap

/-!
# JSON values

## Main definitions

* `Json.Number`: a 64-bit integer, signed or unsigned, or a finite double
* `Json.Value`: values; the members of an object are a list of named values
* `Json.Value.canonical`: members in key order, the last of several members of one name kept
-/

namespace ContentIndex.Json

-- powers as in the core library, whichever other modules are read
attribute [local instance (2000)] instPowNat

/-- A whole number that fits 64 bits, signed or unsigned, or a finite double. The two kinds are
never equal. -/
inductive Number
  | int (i : Int) (fits : -2 ^ (63 : Nat) ≤ i ∧ i < 2 ^ (64 : Nat))
  | float (x : Binary64) (finite : x.isFinite)
  deriving DecidableEq

namespace Number

/-- The number of a whole number that fits 64 bits. -/
def ofInt? (i : Int) : Option Number :=
  if h : -2 ^ (63 : Nat) ≤ i ∧ i < 2 ^ (64 : Nat) then some (.int i h) else none

/-- The number of a finite double. -/
def ofFloat? (x : Binary64) : Option Number := if h : x.isFinite then some (.float x h) else none

/-- The number as a double, rounded if need be. -/
def toFloat : Number → Binary64
  | .int i _ => .ofInt i
  | .float x _ => x

end Number

/-- A JSON value. -/
inductive Value
  | null
  | bool (b : Bool)
  | number (n : Number)
  | string (s : String)
  | array (items : List Value)
  | object (members : List (String × Value))

instance : Inhabited Value := ⟨.null⟩

namespace Value

mutual

/-- Equality of values is decidable. -/
def decEq : (a b : Value) → Decidable (a = b)
  | .null, .null => isTrue rfl
  | .bool a, .bool b => decidable_of_iff (a = b) (by simp)
  | .number a, .number b => decidable_of_iff (a = b) (by simp)
  | .string a, .string b => decidable_of_iff (a = b) (by simp)
  | .array a, .array b => match decEqItems a b with
    | isTrue h => isTrue (by rw [h])
    | isFalse h => isFalse fun e => h (Value.array.inj e)
  | .object a, .object b => match decEqMembers a b with
    | isTrue h => isTrue (by rw [h])
    | isFalse h => isFalse fun e => h (Value.object.inj e)
  | .null, .bool _ | .null, .number _ | .null, .string _ | .null, .array _ | .null, .object _
  | .bool _, .null | .bool _, .number _ | .bool _, .string _ | .bool _, .array _
  | .bool _, .object _ | .number _, .null | .number _, .bool _ | .number _, .string _
  | .number _, .array _ | .number _, .object _ | .string _, .null | .string _, .bool _
  | .string _, .number _ | .string _, .array _ | .string _, .object _ | .array _, .null
  | .array _, .bool _ | .array _, .number _ | .array _, .string _ | .array _, .object _
  | .object _, .null | .object _, .bool _ | .object _, .number _ | .object _, .string _
  | .object _, .array _ => isFalse nofun

/-- Equality of item lists is decidable. -/
def decEqItems : (a b : List Value) → Decidable (a = b)
  | [], [] => isTrue rfl
  | [], _ :: _ => isFalse nofun
  | _ :: _, [] => isFalse nofun
  | a :: r, b :: s => match decEq a b, decEqItems r s with
    | isTrue h, isTrue h' => isTrue (by rw [h, h'])
    | isFalse h, _ => isFalse fun e => h (List.cons.inj e).1
    | _, isFalse h => isFalse fun e => h (List.cons.inj e).2

/-- Equality of member lists is decidable. -/
def decEqMembers : (a b : List (String × Value)) → Decidable (a = b)
  | [], [] => isTrue rfl
  | [], _ :: _ => isFalse nofun
  | _ :: _, [] => isFalse nofun
  | (k, a) :: r, (l, b) :: s =>
    if hk : k = l then
      match decEq a b, decEqMembers r s with
      | isTrue h, isTrue h' => isTrue (by rw [hk, h, h'])
      | isFalse h, _ => isFalse fun e => h (Prod.mk.inj (List.cons.inj e).1).2
      | _, isFalse h => isFalse fun e => h (List.cons.inj e).2
    else isFalse fun e => hk (Prod.mk.inj (List.cons.inj e).1).1

end

instance : DecidableEq Value := decEq

/-- A whole number that is known to fit. -/
def nat (n : Nat) : Value :=
  match Number.ofInt? n with
  | some n => .number n
  | none => .null

/-- A finite double as it is; an infinity or a NaN has no JSON number and gives `null`. -/
def float (x : Binary64) : Value :=
  match Number.ofFloat? x with
  | some n => .number n
  | none => .null

/-- A text, or `null` for its absence. -/
def optionalString : Option String → Value
  | some s => .string s
  | none => .null

/-- The value is `null`. -/
def isNull : Value → Bool
  | .null => true
  | _ => false

/-- The text of a string. -/
def string? : Value → Option String
  | .string s => some s
  | _ => none

/-- The members of an object. -/
def members? : Value → Option (List (String × Value))
  | .object ms => some ms
  | _ => none

/-- The member of an object of the given name. -/
def get? (v : Value) (name : String) : Option Value := v.members?.bind (Entries.find? name)

mutual

/-- The same value with the members of every object in key order; of several members of one
name the last is kept. -/
def canonical : Value → Value
  | .array items => .array (canonicalItems items)
  | .object members => .object (Entries.ofList (canonicalMembers members))
  | v => v

/-- `canonical` on the items of an array. -/
def canonicalItems : List Value → List Value
  | [] => []
  | v :: r => v.canonical :: canonicalItems r

/-- `canonical` on the members of an object, without reordering them. -/
def canonicalMembers : List (String × Value) → List (String × Value)
  | [] => []
  | (k, v) :: r => (k, v.canonical) :: canonicalMembers r

end

end Value

end ContentIndex.Json
