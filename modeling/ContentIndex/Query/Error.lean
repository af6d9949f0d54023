import ContentIndex.Json.Printer
import ContentIndex.Store.Basic
import ContentIndex.Text.Quoted

/-!
# Failures of queries

## Main definitions

* `CursorFault`, `FilterFault`, `SelectionFault`: what is wrong with a part of a request
* `QueryError`, `QueryError.message`: why a query has no answer
-/

namespace ContentIndex

/-- What is wrong with a cursor. -/
inductive CursorFault
  /-- It is not encoded as a cursor. -/
  | notEncoded
  /-- Its content is not that of a cursor. -/
  | malformed
  /-- It belongs to another collection. -/
  | otherCollection (issued expected : String)
  /-- It belongs to another order. -/
  | otherOrder (issued expected : String)
  /-- Its key is not hexadecimal. -/
  | malformedKey
  deriving DecidableEq

/-- The fault in words. -/
def CursorFault.message : CursorFault → String
  | .notEncoded => "not base64"
  | .malformed => "malformed payload"
  | .otherCollection issued expected =>
    "cursor belongs to collection '" ++ issued ++ "', not '" ++ expected ++ "'"
  | .otherOrder issued expected =>
    "cursor was issued for ordering '" ++ issued ++ "', not '" ++ expected ++ "'"
  | .malformedKey => "malformed key"

/-- What is wrong with a filter. -/
inductive FilterFault
  /-- Values of the kind cannot be compared. -/
  | notComparable (field kind : String)
  /-- The field cannot be compared with the value. -/
  | wrongOperand (field : String) (operand : Json.Value)
  /-- The field holds no text. -/
  | notText (field : String)
  deriving DecidableEq

/-- The fault in words. -/
def FilterFault.message : FilterFault → String
  | .notComparable field kind =>
    "'" ++ field ++ "' is a " ++ kind ++ " field and cannot be filtered"
  | .wrongOperand field operand =>
    "'" ++ field ++ "' cannot be compared with " ++ operand.compact
  | .notText field => "starts_with needs a text field, '" ++ field ++ "' is not one"

/-- Why a field has no fields of its own. -/
inductive SelectionFault
  /-- It is a system field. -/
  | systemField
  /-- Its kind has none. -/
  | plainKind (kind : String)
  deriving DecidableEq

/-- The fault in words. -/
def SelectionFault.message : SelectionFault → String
  | .systemField => "system fields have no sub-fields"
  | .plainKind kind => kind ++ " fields have no sub-fields"

/-- Why a query has no answer. -/
inductive QueryError
  /-- There is no such collection. -/
  | unknownCollection (name : String)
  /-- The owner has no such field. -/
  | unknownField (owner field : String)
  /-- A field is selected into that has no fields. -/
  | invalidSelection (field : String) (fault : SelectionFault)
  /-- There is no such document. -/
  | notFound (collection path : String)
  /-- The cursor cannot be used. -/
  | invalidCursor (fault : CursorFault)
  /-- The filter cannot be used. -/
  | invalidFilter (fault : FilterFault)
  /-- The collection cannot be listed by the field. -/
  | invalidSort (field collection : String)
  /-- The page size is zero or too great. -/
  | invalidPageSize (size greatest : Nat)
  /-- A reference leads outside of the collections it may point into. -/
  | invalidReference (field target : String) (allowed : List String)
  /-- The index was built for another graph. -/
  | schemaMismatch (expected : String) (found : Option String)
  /-- Storage fails. -/
  | storage (e : StorageError)
  deriving DecidableEq

/-- The failure in words. -/
def QueryError.message : QueryError → String
  | .unknownCollection name => "Unknown collection: " ++ name
  | .unknownField owner field => "Unknown field '" ++ field ++ "' on " ++ owner
  | .invalidSelection field fault =>
    "Invalid selection for '" ++ field ++ "': " ++ fault.message
  | .notFound collection path => "Document not found: " ++ collection ++ "/" ++ path
  | .invalidCursor fault => "Invalid cursor: " ++ fault.message
  | .invalidFilter fault => "Invalid filter: " ++ fault.message
  | .invalidSort field collection =>
    "Invalid sort: '" ++ field ++ "' is not an indexed scalar field of '" ++ collection ++ "'"
  | .invalidPageSize size greatest =>
    "Invalid page size " ++ toString size ++ " (allowed 1..=" ++ toString greatest ++ ")"
  | .invalidReference field target allowed =>
    "Reference '" ++ field ++ "' points at " ++ target ++ ", outside the allowed collections "
      ++ Text.quotedList allowed
  | .schemaMismatch expected found =>
    "Active index was built for schema " ++ Text.quotedOption found ++ ", resolver uses "
      ++ expected
  | .storage e => e.message

end ContentIndex
