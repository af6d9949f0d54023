import ContentIndex.Json.Printer
import ContentIndex.Number.Decimal
import ContentIndex.Yaml.Alias

/-!
# The content of YAML

A plain scalar is null, a truth value, a number or a text by its spelling. A tag of the core
schema asks for one of them; a local tag wraps a node in an object with one member, named by the
tag.

## Main definitions

* `Yaml.Resolved`, `Yaml.Resolved.ofPlain`: what plain scalars stand for
* `Yaml.Node.toJson`: the JSON value of a node
-/

namespace ContentIndex.Yaml

open Json (Value)

-- powers as in the core library, whichever other modules are read
attribute [local instance (2000)] instPowNat

/-! ### Spellings -/

/-- The spellings of null. -/
def isNullText (cs : List Char) : Bool :=
  ["null", "Null", "NULL", "~"].any (·.toList = cs)

/-- The truth value of a spelling. -/
def boolOfText? (cs : List Char) : Option Bool :=
  if ["true", "True", "TRUE"].any (·.toList = cs) then some true
  else if ["false", "False", "FALSE"].any (·.toList = cs) then some false
  else none

/-- The text without the prefix. -/
def stripPrefix? (p : String) (cs : List Char) : Option (List Char) :=
  if p.toList.isPrefixOf cs then some (cs.drop p.length) else none

/-- The text without one leading plus sign. -/
def withoutPlus (cs : List Char) : List Char := (stripPrefix? "+" cs).getD cs

/-- The text starts with a sign. -/
def startsSigned (cs : List Char) : Bool := cs.head?.any fun c => c = '+' || c = '-'

/-- Several digits, the first of them zero, which make up a text and no number. -/
def hasLeadingZero (cs : List Char) : Bool :=
  let ds := if startsSigned cs then cs.tail else cs
  match ds with
  | '0' :: d :: r => (d :: r).all Char.isDigit
  | _ => false

/-- The value of a text of digits to a base. -/
def digitsOfBase? (base : Nat) (cs : List Char) : Option Nat :=
  if cs.isEmpty then none
  else cs.foldlM (fun n c => do
    let d ← Bytes.hexValue? c
    if d < base then some (n * base + d) else none) 0

/-- The prefixes of the bases other than ten. -/
def basePrefixes : List (String × Nat) := [("0x", 16), ("0o", 8), ("0b", 2)]

/-- The value of digits below a bound, in base ten or after the prefix of another base. -/
def natOfText? (bound : Nat) (cs : List Char) : Option Nat :=
  let based := basePrefixes.findSome? fun (p, base) => do
    let n ← digitsOfBase? base (← stripPrefix? p cs)
    if n < bound then some n else none
  match based with
  | some n => some n
  | none => do
    if hasLeadingZero cs then none
    let n ← digitsOfBase? 10 cs
    if n < bound then some n else none

/-- The value of a number without sign or with a plus sign, below a bound. -/
def unsignedOfText? (bound : Nat) (cs : List Char) : Option Nat := natOfText? bound (withoutPlus cs)

/-- The value of a number with a minus sign, at most a bound below zero. -/
def negativeOfText? (bound : Nat) (cs : List Char) : Option Int := do
  let n ← natOfText? (bound + 1) (← stripPrefix? "-" cs)
  return -(n : Int)

/-- The finite double of a text; digits are needed on one side of the point. -/
def finiteOfText? (cs : List Char) : Option Binary64 := do
  let l ← DecimalLiteral.split? cs
  if l.whole.isEmpty && l.fractionDigits.isEmpty then none
  let x := l.nearest
  if x.isFinite then some x else none

/-- The double of a text, infinities and the NaN included. -/
def floatOfText? (cs : List Char) : Option Binary64 :=
  let positive := withoutPlus cs
  if positive.length < cs.length && startsSigned positive then none
  else if [".inf", ".Inf", ".INF"].any (·.toList = positive) then some (.infinity false)
  else if ["-.inf", "-.Inf", "-.INF"].any (·.toList = cs) then some (.infinity true)
  else if [".nan", ".NaN", ".NAN"].any (·.toList = cs) then some .nan
  else finiteOfText? positive

/-! ### Plain scalars -/

/-- What a scalar stands for. -/
inductive Resolved
  | null
  | bool (b : Bool)
  | int (i : Int)
  /-- A whole number beyond 64 bits but within 128, which no reader takes. -/
  | wide
  | float (x : Binary64)
  | text (cs : List Char)

/-- The whole number of a text. -/
def Resolved.ofInt? (cs : List Char) : Option Resolved :=
  match unsignedOfText? (2 ^ (64 : Nat)) cs, negativeOfText? (2 ^ (63 : Nat)) cs with
  | some n, _ => some (.int n)
  | none, some i => some (.int i)
  | none, none =>
    if (unsignedOfText? (2 ^ (128 : Nat)) cs).isSome || (negativeOfText? (2 ^ (127 : Nat)) cs).isSome then
      some .wide
    else none

/-- What a plain scalar stands for. -/
def Resolved.ofPlain (cs : List Char) : Resolved :=
  if cs.isEmpty || isNullText cs then .null
  else match boolOfText? cs with
    | some b => .bool b
    | none =>
      match Resolved.ofInt? cs with
      | some r => r
      | none =>
        if hasLeadingZero cs then .text cs
        else match floatOfText? cs with
          | some x => .float x
          | none => .text cs

/-- The JSON value of a scalar; a double that is not finite gives null. -/
def Resolved.toJson? : Resolved → Option Value
  | .null => some .null
  | .bool b => some (.bool b)
  | .int i => (Json.Number.ofInt? i).map .number
  | .wide => none
  | .float x => some (.float x)
  | .text cs => some (.string (String.ofList cs))

/-! ### Tags -/

/-- The tag of the core schema with the given name. -/
def coreTag (name : String) : Bytes := Bytes.ofText ("tag:yaml.org,2002:" ++ name)

/-- A tag that starts with an exclamation mark belongs to no schema. -/
def isLocalTag (tag : Bytes) : Bool := tag.head? = some 0x21

/-- The text without one leading exclamation mark, unless nothing else is left. -/
def withoutMark (name : String) : String :=
  match name.toList with
  | '!' :: c :: r => String.ofList (c :: r)
  | _ => name

/-- The name of a local tag, if it is UTF-8; the bare exclamation mark names itself. -/
def localTag? (tag : Option Bytes) : Option String := do
  let tag ← tag
  if !isLocalTag tag then none
  if tag.tail.isEmpty then return "!" else Bytes.text? tag.tail

/-- What a scalar without tag stands for. -/
def Resolved.ofUntagged (style : ScalarStyle) (cs : List Char) : Resolved :=
  if style = .plain then .ofPlain cs else .text cs

/-- What a scalar stands for, its local tag apart. A text that is not spelled as a tag of the core
schema asks is refused. -/
def Resolved.ofScalar? (tag : Option Bytes) (style : ScalarStyle) (cs : List Char) :
    Option Resolved :=
  match tag with
  | none => some (.ofUntagged style cs)
  | some tag =>
    if tag = coreTag "bool" then (boolOfText? cs).map .bool
    else if tag = coreTag "int" then Resolved.ofInt? cs
    else if tag = coreTag "float" then (floatOfText? cs).map .float
    else if tag = coreTag "null" then if isNullText cs then some .null else none
    else if isLocalTag tag then some (.ofUntagged style cs)
    else some (.text cs)

/-! ### Values -/

/-- Wraps the value of a node with a local tag. -/
def wrapTagged (tag : Option Bytes) (v : Value) : Value :=
  match localTag? tag with
  | some name => .object [("!" ++ withoutMark name, v)]
  | none => v

/-- The member name of a key: texts, whole numbers, truth values and finite doubles have one. -/
def memberName? : Value → Option String
  | .string s => some s
  | .bool b => some (Value.bool b).compact
  | .number n => some (Value.number n).compact
  | _ => none

/-- A key up to equality: both zeros are one key. -/
def keyClass : Value → Value
  | .number (.float x _) => .float (if x.isZero then .zero else x)
  | v => v

/-- No key is given twice. -/
def distinctKeys : List Value → Bool
  | [] => true
  | k :: r => !(r.map keyClass).contains (keyClass k) && distinctKeys r

mutual

/-- The JSON value of a node. Two equal keys are refused; of keys with one member name the last
counts. -/
def Node.toJson? : Node → Option Value
  | .alias _ => none
  | .scalar tag style text => do
    return wrapTagged tag (← (← Resolved.ofScalar? tag style text).toJson?)
  | .sequence tag items => do return wrapTagged tag (.array (← Node.itemsToJson? items))
  | .mapping tag entries => do
    let entries ← Node.entriesToJson? entries
    if !distinctKeys (entries.map (·.1)) then none
    let members ← entries.mapM fun (k, v) => return (← memberName? k, v)
    return wrapTagged tag (.object (Entries.ofList members))

/-- The JSON values of items. -/
def Node.itemsToJson? : List Node → Option (List Value)
  | [] => some []
  | n :: r => do return (← n.toJson?) :: (← Node.itemsToJson? r)

/-- The JSON values of keys and values. -/
def Node.entriesToJson? : List (Node × Node) → Option (List (Value × Value))
  | [] => some []
  | (k, v) :: r => do return (← k.toJson?, ← v.toJson?) :: (← Node.entriesToJson? r)

end

/-- The JSON value of a node, its aliases followed. -/
def Node.toJson (n : Node) : Reading Value := do (← n.expand).toJson?

end ContentIndex.Yaml
