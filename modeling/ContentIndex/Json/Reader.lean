import ContentIndex.Json.Draft
import ContentIndex.Json.Token

/-!
# Reading JSON

The parser is a machine over tokens with a stack of open arrays and objects, so it too is a fold.

## Main definitions

* `Json.Parser.step`: one token
* `Json.Draft.document?`, `Json.Draft.ofBytes?`: the draft of a text, and of bytes
* `Json.Value.document?`: the value of a text, members in the order and number they are written
* `Json.Value.parse?`: the same value in canonical form
-/

namespace ContentIndex.Json

namespace Parser

/-- An open array or object; the parts read so far are reversed. -/
inductive Frame
  | array (read : List Draft)
  | object (read : List (MemberName × Draft)) (name : MemberName)

/-- What the next token may be. -/
inductive Expect
  | value
  | valueOrClose
  | nameOrClose (read : List (MemberName × Draft))
  | name (read : List (MemberName × Draft))
  | colon
  | rest (d : Draft)

/-- The open containers, the innermost first, and what comes next. -/
structure State where
  /-- The open containers around the next token. -/
  stack : List Frame
  /-- What the next token may be. -/
  expect : Expect

/-- Containers may be nested this deep. -/
def maxDepth : Nat := 127

/-- A container inside the given ones, unless it is nested too deep. -/
def close (stack : List Frame) (d : Draft) : State :=
  ⟨stack, .rest (if (stack.drop (maxDepth - 1)).isEmpty then d else .unreadable)⟩

/-- The draft of a part that may have no value. -/
def part {α : Type} (f : α → Draft) : Option α → Draft
  | some a => f a
  | none => .unreadable

/-- The name that a string gives to a member. -/
def nameOf : Option String → MemberName
  | some s => .text s
  | none => .unreadable

/-- A token where a value starts. -/
def start (stack : List Frame) : Token → Option State
  | .null => some ⟨stack, .rest .null⟩
  | .bool b => some ⟨stack, .rest (.bool b)⟩
  | .number n => some ⟨stack, .rest (part .number n)⟩
  | .string s => some ⟨stack, .rest (part .string s)⟩
  | .openArray => some ⟨.array [] :: stack, .valueOrClose⟩
  | .openObject => some ⟨stack, .nameOrClose []⟩
  | _ => none

/-- One token. -/
def step (s : State) (t : Token) : Option State :=
  match s.expect, t with
  | .value, t => start s.stack t
  | .valueOrClose, .closeArray => match s.stack with
    | .array _ :: r => some (close r (.array []))
    | _ => none
  | .valueOrClose, t => start s.stack t
  | .nameOrClose _, .closeObject => some (close s.stack (.object []))
  | .nameOrClose read, .string n => some ⟨.object read (nameOf n) :: s.stack, .colon⟩
  | .name read, .string n => some ⟨.object read (nameOf n) :: s.stack, .colon⟩
  | .colon, .colon => some ⟨s.stack, .value⟩
  | .rest d, .comma => match s.stack with
    | .array read :: r => some ⟨.array (d :: read) :: r, .value⟩
    | .object read n :: r => some ⟨r, .name ((n, d) :: read)⟩
    | [] => none
  | .rest d, .closeArray => match s.stack with
    | .array read :: r => some (close r (.array (d :: read).reverse))
    | _ => none
  | .rest d, .closeObject => match s.stack with
    | .object read n :: r => some (close r (.object ((n, d) :: read).reverse))
    | _ => none
  | _, _ => none

/-- The draft of a finished text. -/
def State.finish? (s : State) : Option Draft :=
  match s.stack, s.expect with
  | [], .rest d => some d
  | _, _ => none

end Parser

namespace Draft

/-- The draft of a text that may have ill-formed parts. -/
def document? (text : List (Option Char)) : Option Draft := do
  (← (← Token.scan? text).foldlM Parser.step ⟨[], .value⟩).finish?

/-- The draft of the text that bytes encode. -/
def ofBytes? (b : Bytes) : Option Draft := document? b.chars

end Draft

namespace Value

/-- The value of a text, with the members of objects as they are written. -/
def document? (text : List Char) : Option Value := do (← Draft.document? (text.map some)).value?

/-- The value of a text, in canonical form. -/
def parse? (text : List Char) : Option Value := (document? text).map canonical

end Value

end ContentIndex.Json
