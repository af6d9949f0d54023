import ContentIndex.Base64
import ContentIndex.Json.Reader
import ContentIndex.Json.Record
import ContentIndex.Query.Error
import ContentIndex.Text.Blank

/-!
# Cursors

A cursor stands for the last entry of a page. It names the collection and the order that it was
issued for, so that it cannot be used with another query.

## Main definitions

* `Cursor`, `Cursor.encode`: cursors and their text
* `Cursor.decode`: the key in a cursor for a given collection and order
-/

namespace ContentIndex

open Json (Draft Value)

/-- The place where a page ended. -/
structure Cursor where
  /-- The collection of the query. -/
  collection : String
  /-- The order of the query. -/
  order : String
  /-- The key of the last entry, after the prefix of the order. -/
  key : Bytes
  deriving DecidableEq

namespace Cursor

/-- The content of a cursor. -/
def toValue (c : Cursor) : Value :=
  .object [("c", .string c.collection), ("o", .string c.order), ("k", .string c.key.toHex)]

/-- The text of a cursor. -/
def encode (c : Cursor) : String := String.ofList (Base64.encode c.toValue.bytes)

/-- The three texts in the content of a cursor. -/
def content? (d : Draft) : Option (String × String × String) := do
  match ← d.fields? ["c", "o", "k"] with
  | [some c, some o, some k] => return (← c.string?, ← o.string?, ← k.string?)
  | _ => none

/-- The key in the text of a cursor, which must be issued for the collection and the order. -/
def decode (text collection order : String) : Except CursorFault Bytes := do
  let some bytes := Base64.decode? (Text.trim text.toList) | throw .notEncoded
  let some (c, o, k) := (Draft.ofBytes? bytes).bind content? | throw .malformed
  if c ≠ collection then throw (.otherCollection c collection)
  if o ≠ order then throw (.otherOrder o order)
  match Bytes.ofHex? k with
  | some key => return key
  | none => throw .malformedKey

end Cursor

end ContentIndex
