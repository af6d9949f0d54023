import ContentIndex.Json.Record
import ContentIndex.Text.Blank
import ContentIndex.Yaml.Record

/-!
# Settings

Every setting has a default, so an empty text is a valid choice of settings.

## Main definitions

* `TemplatePolicy`: how a document is matched to a template
* `Settings`: the settings with their defaults
* `Settings.ofDraft?`, `Settings.ofText?`: reading them from JSON and YAML
* `Settings.toValue`: all settings as JSON
-/

namespace ContentIndex

open Json (Draft Value)

-- powers as in the core library, whichever other modules are read
attribute [local instance (2000)] instPowNat

/-- How a document is matched to one template of its collection. -/
inductive TemplatePolicy
  /-- The first template whose required fields are all present. -/
  | firstMatch
  /-- The first of those that declares every field of the document, if there is one. -/
  | bestFit
  deriving DecidableEq, Inhabited

namespace TemplatePolicy

/-- The name of a policy. -/
def name : TemplatePolicy → String
  | .firstMatch => "first-match"
  | .bestFit => "best-fit"

/-- The policy of the given name. -/
def ofName? (name : String) : Option TemplatePolicy :=
  if name = "first-match" then some .firstMatch
  else if name = "best-fit" then some .bestFit
  else none

/-- The policy written in a draft. -/
def ofDraft? (d : Draft) : Option TemplatePolicy := (d.bareName? false).bind ofName?

/-- The policy written in a YAML node. -/
def ofNode (n : Yaml.Node) : Yaml.Reading TemplatePolicy := do ofName? (← n.variant)

end TemplatePolicy

/-- What can be set. -/
structure Settings where
  /-- The number of items on a page unless a request says otherwise. -/
  defaultPageSize : Nat := 50
  /-- The greatest number of items on a page. -/
  maxPageSize : Nat := 1000
  /-- The age in seconds from which the lock of a rebuild may be taken over. -/
  lockSeconds : Nat := 600
  /-- How documents are matched to templates. -/
  templatePolicy : TemplatePolicy := .firstMatch
  /-- Documents may be read at the same time. -/
  parallel : Bool := true
  deriving DecidableEq, Inhabited

namespace Settings

/-- The names of the settings. -/
def memberNames : List String :=
  ["default_page_size", "max_page_size", "lock_ttl_secs", "template_policy", "parallel"]

/-- The settings written in a draft. -/
def ofDraft? (d : Draft) : Option Settings := do
  match ← d.fields? memberNames with
  | [defaultPageSize, maxPageSize, lockSeconds, templatePolicy, parallel] =>
    let d : Settings := {}
    return {
      defaultPageSize := ←
        Draft.optional (Draft.natBelow? (2 ^ (64 : Nat))) d.defaultPageSize defaultPageSize
      maxPageSize := ← Draft.optional (Draft.natBelow? (2 ^ (64 : Nat))) d.maxPageSize maxPageSize
      lockSeconds := ← Draft.optional (Draft.natBelow? (2 ^ (64 : Nat))) d.lockSeconds lockSeconds
      templatePolicy := ←
        Draft.optional TemplatePolicy.ofDraft? d.templatePolicy templatePolicy
      parallel := ← Draft.optional Draft.bool? d.parallel parallel }
  | _ => none

open Yaml (Node Reading) in
/-- The settings written in a YAML node. -/
def ofNode : Node → Reading Settings :=
  Node.record memberNames fun
    | [defaultPageSize, maxPageSize, lockSeconds, templatePolicy, parallel] => do
      let d : Settings := {}
      return {
        defaultPageSize := ←
          Node.optional (Node.natBelow (2 ^ (64 : Nat))) d.defaultPageSize defaultPageSize
        maxPageSize := ← Node.optional (Node.natBelow (2 ^ (64 : Nat))) d.maxPageSize maxPageSize
        lockSeconds := ← Node.optional (Node.natBelow (2 ^ (64 : Nat))) d.lockSeconds lockSeconds
        templatePolicy := ←
          Node.optional TemplatePolicy.ofNode d.templatePolicy templatePolicy
        parallel := ← Node.optional Node.bool d.parallel parallel }
    | _ => failure

/-- The settings of a YAML text; a text of blanks leaves all defaults. -/
def ofText? (text : String) : Option Settings :=
  if text.toList.all Text.isBlank then some {}
  else (Yaml.Document.ofText? text.toList).bind (Yaml.Document.read? ofNode)

/-- All settings. -/
def toValue (s : Settings) : Value :=
  .object [
    ("default_page_size", .nat s.defaultPageSize),
    ("max_page_size", .nat s.maxPageSize),
    ("lock_ttl_secs", .nat s.lockSeconds),
    ("template_policy", .string s.templatePolicy.name),
    ("parallel", .bool s.parallel)]

end Settings

end ContentIndex
