import ContentIndex.Graph.Basic
import ContentIndex.Settings

/-!
# Matching a document to a template

A document may name its template; otherwise the members that it has decide. A member that is
null counts as missing.

## Main definitions

* `Graph.matchTemplate?`: the template for a list of member names
* `Graph.selectTemplate`: the template for an object
* `Graph.TemplateFault`: why there is none
-/

namespace ContentIndex.Graph

open Json (Value)

/-- The template declares every required field among the given names. -/
def Template.isMetBy (t : Template) (names : List String) : Bool :=
  t.requiredFields.all fun f => names.contains f.name

/-- The template declares every given name. -/
def Template.covers (t : Template) (names : List String) : Bool :=
  names.all fun n => (t.field? n).isSome

/-- The template for a document with members of the given names. -/
def matchTemplate? (policy : TemplatePolicy) (templates : List Template) (names : List String) :
    Option Template :=
  let met := templates.filter (·.isMetBy names)
  match policy with
  | .firstMatch => met.head?
  | .bestFit => (met.find? (·.covers names)).or met.head?

/-- Why an object has no template. -/
inductive TemplateFault
  /-- The member that names the template is no text. -/
  | notText
  /-- No template has the name. -/
  | unknown (name : String)
  /-- No template has its required fields among the names. -/
  | noMatch (names : List String)
  deriving DecidableEq

/-- The fault in words. -/
def TemplateFault.message : TemplateFault → String
  | .notText => "'" ++ systemTemplate ++ "' must be a string"
  | .unknown name => "unknown template '" ++ name ++ "'"
  | .noMatch names => "no template accepts fields [" ++ ", ".intercalate names ++ "]"

/-- The names of the members that count: those that are not null, but for the one that names the
template. -/
def presentNames (members : List (String × Value)) : List String :=
  (members.filter fun (k, v) => !v.isNull && k ≠ systemTemplate).map (·.1)

/-- The template for an object with the given members. -/
def selectTemplate (policy : TemplatePolicy) (templates : List Template)
    (members : List (String × Value)) : Except TemplateFault Template :=
  match Entries.find? systemTemplate members with
  | some (.string name) =>
    match templates.find? (·.name = name) with
    | some t => .ok t
    | none => .error (.unknown name)
  | some _ => .error .notText
  | none =>
    match matchTemplate? policy templates (presentNames members) with
    | some t => .ok t
    | none => .error (.noMatch (presentNames members))

end ContentIndex.Graph
