import ContentIndex.Json.Reader
import ContentIndex.Text.Blank
import ContentIndex.Yaml.Printer

/-!
# Documents

A document is an object, kept in a file of one of three formats: JSON, YAML, or Markdown after
YAML between two lines of three dashes. The text of a Markdown file is a member of the object.

## Main definitions

* `DocumentError`: why a file holds no document, or a document fits no file
* `DocumentFormat.ofPath?`: the format of a file by its extension
* `Document.splitFront`: the parts of a Markdown file
* `Document.parse`, `Document.print`: reading and writing
-/

namespace ContentIndex

open Json (Value)

/-- Why a file holds no document, or a document fits no file. -/
inductive DocumentFault
  /-- The extension names no format. -/
  | unsupportedFormat
  /-- The bytes are no text. -/
  | notText
  /-- The text is not in its format. -/
  | unreadable
  /-- The text holds another value than an object. -/
  | notMapping (v : Value)
  /-- The value is no object. -/
  | notObject
  /-- The member for the text of a Markdown file holds something else. -/
  | notBody (name : String) (v : Value)

/-- A fault in the file of the given path. -/
structure DocumentError where
  /-- The path of the file. -/
  path : String
  /-- The fault. -/
  fault : DocumentFault

/-- The fault in words. The complaint of a reader is not worded. -/
def DocumentFault.message : DocumentFault → String
  | .unsupportedFormat => "unsupported file format"
  | .notText => "not UTF-8: <detail>"
  | .unreadable => "<detail>"
  | .notMapping v => "expected a mapping, got " ++ v.compact
  | .notObject => "document must be an object"
  | .notBody name v => "'" ++ name ++ "' must be a string, got " ++ v.compact

/-- The error in words. -/
def DocumentError.message (e : DocumentError) : String :=
  "Cannot parse " ++ e.path ++ ": " ++ e.fault.message

/-- The format of a file. -/
inductive DocumentFormat
  | markdown
  | json
  | yaml
  deriving DecidableEq

/-- The format that belongs to the extension of a path, in letters of either case. -/
def DocumentFormat.ofPath? (path : String) : Option DocumentFormat :=
  if path.toList.contains '.' then
    match String.ofList
        ((path.toList.reverse.takeWhile (· ≠ '.')).reverse.map Char.toLower) with
    | "md" | "mdx" | "markdown" => some .markdown
    | "json" => some .json
    | "yaml" | "yml" => some .yaml
    | _ => none
  else none

namespace Document

/-- The member that holds the text of a Markdown file unless another one is named. -/
def defaultBodyField : String := "body"

/-! ### Front matter -/

/-- Splits a text at the first line of three dashes, which may be followed by blanks. -/
def splitAtDashes? (cs : List Char) : Option (List Char × List Char) :=
  let line := cs.takeWhile (· ≠ '\n')
  match h : cs.dropWhile (· ≠ '\n') with
  | [] => if Text.trimEnd line = ['-', '-', '-'] then some ([], []) else none
  | _ :: rest =>
    if Text.trimEnd line = ['-', '-', '-'] then some ([], rest)
    else
      have : rest.length < cs.length := by
        have := (List.dropWhile_suffix (l := cs) (· ≠ '\n')).length_le
        rw [h, List.length_cons] at this
        omega
      (splitAtDashes? rest).map fun (front, body) => (line ++ '\n' :: front, body)
termination_by cs.length

/-- The text after a first line of three dashes. -/
def afterDashes? : List Char → Option (List Char)
  | '-' :: '-' :: '-' :: '\n' :: r => some r
  | '-' :: '-' :: '-' :: '\r' :: '\n' :: r => some r
  | _ => none

/-- The text between the two lines of dashes of a Markdown file, if it begins with one, and the
text after them. -/
def splitFront (cs : List Char) : Option (List Char) × List Char :=
  let cs := if cs.head? = some '\uFEFF' then cs.tail else cs
  match (afterDashes? cs).bind splitAtDashes? with
  | some (front, body) => (some front, body)
  | none => (none, cs)

/-! ### Reading -/

/-- The members of the object that a value is. -/
def object (v : Value) : Except DocumentFault (List (String × Value)) :=
  match v with
  | .object members => .ok members
  | _ => .error .notObject

/-- The members of the mapping in a YAML text; an empty text and null have none. -/
def yamlMembers (cs : List Char) : Except DocumentFault (List (String × Value)) :=
  match (Yaml.Document.ofText? cs).bind (Yaml.Document.read? Yaml.Node.toJson) with
  | none => .error .unreadable
  | some .null => .ok []
  | some (.object members) => .ok members
  | some v => .error (.notMapping v)

/-- The members of a Markdown file; a text of blanks is left out. -/
def markdownMembers (bodyField : String) (cs : List Char) :
    Except DocumentFault (List (String × Value)) := do
  let (front, body) := splitFront cs
  let members ← match front with
    | some yaml => yamlMembers yaml
    | none => .ok []
  let body := body.dropWhile fun c => c = '\r' || c = '\n'
  return if body.all Text.isBlank then members
    else Entries.insert bodyField (.string (String.ofList body)) members

/-- The members of a text in the given format. -/
def members (bodyField : String) (cs : List Char) :
    DocumentFormat → Except DocumentFault (List (String × Value))
  | .markdown => markdownMembers bodyField cs
  | .json => match Value.parse? cs with
    | some v => object v
    | none => .error .unreadable
  | .yaml => yamlMembers cs

/-- The members of the document in a file. -/
def parse (bodyField path : String) (content : Bytes) :
    Except DocumentError (List (String × Value)) :=
  Except.mapError (DocumentError.mk path) do
    let some format := DocumentFormat.ofPath? path | throw .unsupportedFormat
    let some text := content.text? | throw .notText
    members bodyField text.toList format

/-! ### Writing -/

/-- A Markdown file with the given members. -/
def printMarkdown (bodyField : String) (ms : List (String × Value)) :
    Except DocumentFault (List Char) := do
  let body ← match Entries.find? bodyField ms with
    | some (.string s) => .ok s.toList
    | some v => .error (.notBody bodyField v)
    | none => .ok []
  let front := Entries.erase bodyField ms
  let dashes := ['-', '-', '-', '\n']
  return (if front.isEmpty then [] else dashes ++ Yaml.print front ++ dashes) ++ body

/-- The text of a document in the given format. -/
def printAs (bodyField : String) (v : Value) :
    DocumentFormat → Except DocumentFault (List Char)
  | .markdown => do printMarkdown bodyField (← object v)
  | .json => do return (Value.object (← object v)).pretty.toList
  | .yaml => do return Yaml.print (← object v)

/-- The file at a path with the given document. -/
def print (bodyField path : String) (v : Value) : Except DocumentError Bytes :=
  Except.mapError (DocumentError.mk path) do
    let some format := DocumentFormat.ofPath? path | throw .unsupportedFormat
    return Bytes.ofText (String.ofList (← printAs bodyField v format))

end Document

end ContentIndex
