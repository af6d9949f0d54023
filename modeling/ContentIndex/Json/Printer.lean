import ContentIndex.Json.Basic
import ContentIndex.Bytes
import ContentIndex.Number.Shortest

/-!
# Writing JSON

## Main definitions

* `Json.floatLayout`: how a double is written in JSON text
* `Json.Value.chars`, `Json.Value.compact`: the text without blanks
* `Json.Value.pretty`: one item or member a line, indented by two blanks
-/

namespace ContentIndex.Json

/-- Positional between `10 ^ (-5)` and `10 ^ 16`, whole numbers with `.0`, and a positive
exponent with a plus sign. -/
def floatLayout : FloatLayout := ⟨some (-5), some 16, true, true⟩

/-- The text of a number. -/
def Number.chars : Number → List Char
  | .int i _ => (toString i).toList
  | .float x _ => floatLayout.write x

/-- The escape of one character inside a string; only the quote, the backslash and the control
characters below the blank have one. -/
def escape (c : Char) : List Char :=
  if c = '"' then ['\\', '"']
  else if c = '\\' then ['\\', '\\']
  else if ' ' ≤ c then [c]
  else if c = '\n' then ['\\', 'n']
  else if c = '\r' then ['\\', 'r']
  else if c = '\t' then ['\\', 't']
  else if c = '\x08' then ['\\', 'b']
  else if c = '\x0c' then ['\\', 'f']
  else ['\\', 'u', '0', '0', Bytes.hexDigit (c.toNat / 16), Bytes.hexDigit (c.toNat % 16)]

/-- A quoted string. -/
def quoted (s : String) : List Char := '"' :: s.toList.flatMap escape ++ ['"']

namespace Value

mutual

/-- The text without blanks. -/
def chars : Value → List Char
  | .null => ['n', 'u', 'l', 'l']
  | .bool true => ['t', 'r', 'u', 'e']
  | .bool false => ['f', 'a', 'l', 's', 'e']
  | .number n => n.chars
  | .string s => quoted s
  | .array items => '[' :: itemChars items ++ [']']
  | .object members => '\x7b' :: memberChars members ++ ['\x7d']

/-- The items of an array, separated by commas. -/
def itemChars : List Value → List Char
  | [] => []
  | [v] => v.chars
  | v :: r => v.chars ++ ',' :: itemChars r

/-- The members of an object, separated by commas. -/
def memberChars : List (String × Value) → List Char
  | [] => []
  | [(k, v)] => quoted k ++ ':' :: v.chars
  | (k, v) :: r => quoted k ++ ':' :: v.chars ++ ',' :: memberChars r

end

/-- The text without blanks. -/
def compact (v : Value) : String := String.ofList v.chars

/-- The UTF-8 bytes of the text without blanks. -/
def bytes (v : Value) : Bytes := Bytes.ofText v.compact

/-- A line break and the indentation of a nesting depth. -/
def newline (depth : Nat) : List Char := '\n' :: List.replicate (2 * depth) ' '

mutual

/-- The indented text at a nesting depth; empty arrays and objects stay on one line. -/
def prettyChars (depth : Nat) : Value → List Char
  | .array [] => ['[', ']']
  | .array (v :: r) =>
    '[' :: newline (depth + 1) ++ v.prettyChars (depth + 1) ++ prettyItems (depth + 1) r
      ++ newline depth ++ [']']
  | .object [] => ['\x7b', '\x7d']
  | .object ((k, v) :: r) =>
    '\x7b' :: newline (depth + 1) ++ quoted k ++ ':' :: ' ' :: v.prettyChars (depth + 1)
      ++ prettyMembers (depth + 1) r ++ newline depth ++ ['\x7d']
  | v => v.chars

/-- The items after the first, each on a line of its own. -/
def prettyItems (depth : Nat) : List Value → List Char
  | [] => []
  | v :: r => ',' :: newline depth ++ v.prettyChars depth ++ prettyItems depth r

/-- The members after the first, each on a line of its own. -/
def prettyMembers (depth : Nat) : List (String × Value) → List Char
  | [] => []
  | (k, v) :: r =>
    ',' :: newline depth ++ quoted k ++ ':' :: ' ' :: v.prettyChars depth
      ++ prettyMembers depth r

end

/-- The indented text. -/
def pretty (v : Value) : String := String.ofList (v.prettyChars 0)

end Value

end ContentIndex.Json
