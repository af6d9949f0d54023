import ContentIndex.Proofs.CompleteGraphs
import ContentIndex.Proofs.SchemaLanguage

/-!
# What a graph declares as types

A type of the schema is made for a place in the graph: for the documents of a collection or of one of
its templates, for the objects in a field, for the targets of a reference, for the pages of a
collection. The name of the type is that of the place, written with capitals. What is read from the
text of a graph are the types for its places, with their fields and members.

## Main definitions

* `Graph.Site`, `Graph.Site.typeName`: the places that types are made for, and the names of the types
* `Graph.TypeEntry`: the type that is made for a place, told by places
* `Graph.Kind.outline`, `Graph.Collection.outline`: the types of kinds and of collections

## Main results

* `Graph.writes_typeName`: the types of a kind are read as they are written
* `Graph.declarations_typeText`: **the text of a graph declares the types of its outline**
-/

namespace ContentIndex

namespace Graph

open Text (Plain plain_of_isName plain_pascalCase plain_camelCase)

/-! ### Places -/

/-- What a type is made for. -/
inductive Purpose
  /-- The values at the place. -/
  | values
  /-- The targets of references at the place. -/
  | targets
  /-- The pages of documents at the place. -/
  | pages
  deriving DecidableEq

/-- How the name of a type ends. -/
def Purpose.ending : Purpose → String
  | .values => ""
  | .targets => "Reference"
  | .pages => "Connection"

/-- A place that a type is made for: the names that lead there, from that of a collection on. -/
structure Site where
  /-- The names. -/
  names : List String
  /-- What the type is made for. -/
  purpose : Purpose
  deriving DecidableEq

/-- Names as the name of a type. -/
def ownerName (names : List String) : String := String.join (names.map Text.pascalCase)

/-- The name of the type that is made for a place. -/
def Site.typeName (s : Site) : String := ownerName s.names ++ s.purpose.ending

/-- A type that is used. -/
inductive TypeRef
  | scalar (name : String)
  | site (s : Site)

/-- The name of the type. -/
def TypeRef.name : TypeRef → String
  | .scalar name => name
  | .site s => s.typeName

/-- A type that is made for a place. -/
inductive TypeEntry
  | object (site : Site) (fields : List (String × TypeRef))
  | union (site : Site) (members : List Site)

namespace TypeEntry

/-- The place. -/
def site : TypeEntry → Site
  | .object site _ | .union site _ => site

/-- The types that are used. -/
def refs : TypeEntry → List TypeRef
  | .object _ fields => fields.map (·.2)
  | .union _ members => members.map .site

/-- The declaration of the type. -/
def declaration : TypeEntry → Declaration
  | .object site fields => .object site.typeName (fields.map fun f => (f.1, f.2.name))
  | .union site members => .union site.typeName (members.map Site.typeName)

/-- The type of the objects, or of the documents, of one template. -/
def ofFields (document : Bool) (names : List String) (fields : List (String × TypeRef)) : TypeEntry :=
  .object ⟨names, .values⟩ ((systemFields document).map (fun f => (f.1, .scalar f.2)) ++ fields)

/-- The union of the types of some templates. -/
def ofTemplates (names : List String) (templates : List Template) : TypeEntry :=
  .union ⟨names, .values⟩ (templates.map fun t => ⟨names ++ [t.name], .values⟩)

end TypeEntry

/-! ### The types of a graph -/

mutual

/-- The type of the values at a place, and the types that are made for them. -/
def Kind.outline (here : List String) : Kind → TypeRef × List TypeEntry
  | .string => (.scalar "String", [])
  | .number => (.scalar "Float", [])
  | .boolean => (.scalar "Boolean", [])
  | .datetime => (.scalar "DateTime", [])
  | .richText => (.scalar "JSON", [])
  | .reference [target] => (.site ⟨[target], .values⟩, [])
  | .reference targets =>
    (.site ⟨here, .targets⟩, [.union ⟨here, .targets⟩ (targets.map fun t => ⟨[t], .values⟩)])
  | .list items => items.outline here
  | .object [⟨_, fields⟩] =>
    let (fields, later) := Field.outline here fields
    (.site ⟨here, .values⟩, .ofFields false here fields :: later)
  | .object templates =>
    let (members, later) := Template.outline here templates
    (.site ⟨here, .values⟩, .ofTemplates here templates :: (members ++ later))

/-- The types of the templates of a union, and the types that are made for their fields. -/
def Template.outline (here : List String) : List Template → List TypeEntry × List TypeEntry
  | [] => ([], [])
  | ⟨name, fields⟩ :: r =>
    let (fields, later) := Field.outline (here ++ [name]) fields
    let (members, later') := Template.outline here r
    (.ofFields false (here ++ [name]) fields :: members, later ++ later')

/-- The types of fields, and the types that are made for them. -/
def Field.outline (here : List String) : List Field → List (String × TypeRef) × List TypeEntry
  | [] => ([], [])
  | ⟨name, kind, _, _⟩ :: r =>
    let (type, later) := kind.outline (here ++ [name])
    let (fields, later') := Field.outline here r
    ((name, type) :: fields, later ++ later')

end

namespace Collection

/-- The type of the pages of a collection. -/
def pages (c : Collection) : TypeEntry :=
  .object ⟨[c.name], .pages⟩ [("items", .site ⟨[c.name], .values⟩), ("endCursor", .scalar "String"),
    ("hasNextPage", .scalar "Boolean")]

/-- The types of the documents and the pages of a collection, and the types that are made for the
fields. -/
def outline (c : Collection) : List TypeEntry × List TypeEntry :=
  match c.templates with
  | [t] =>
    let (fields, later) := Field.outline [c.name] t.fields
    ([.ofFields true [c.name] fields, c.pages], later)
  | ts =>
    let parts := ts.map fun t =>
      let (fields, later) := Field.outline [c.name, t.name] t.fields
      (TypeEntry.ofFields true [c.name, t.name] fields, later)
    (.ofTemplates [c.name] ts :: (parts.map (·.1) ++ [c.pages]), parts.flatMap (·.2))

/-- The fields of queries for a collection. -/
def queries (c : Collection) : List (String × TypeRef) :=
  [(queryField c.name, .site ⟨[c.name], .values⟩),
    (queryField c.name ++ "Connection", .site ⟨[c.name], .pages⟩)]

end Collection

/-- The types that are made before that of queries. -/
def outline (g : Graph) : List TypeEntry := g.collections.flatMap (·.outline.1)

/-- The types that are made after that of queries. -/
def laterOutline (g : Graph) : List TypeEntry := g.collections.flatMap (·.outline.2)

/-- The fields of queries. -/
def queries (g : Graph) : List (String × TypeRef) := g.collections.flatMap Collection.queries

theorem Field.outline_eq (here : List String) (fs : List Field) : Field.outline here fs =
    (fs.map fun f => (f.name, (f.kind.outline (here ++ [f.name])).1),
      fs.flatMap fun f => (f.kind.outline (here ++ [f.name])).2) := by
  induction fs with
  | nil => rfl
  | cons f fs ih =>
    obtain ⟨name, kind, required, indexed⟩ := f
    rw [Field.outline, ih]
    rfl

theorem Template.outline_eq (here : List String) (ts : List Template) : Template.outline here ts =
    (ts.map fun t =>
        TypeEntry.ofFields false (here ++ [t.name]) (Field.outline (here ++ [t.name]) t.fields).1,
      ts.flatMap fun t => (Field.outline (here ++ [t.name]) t.fields).2) := by
  induction ts with
  | nil => rfl
  | cons t ts ih =>
    obtain ⟨name, fields⟩ := t
    rw [Template.outline, ih]
    rfl

/-- The types of several templates of a collection. -/
theorem Collection.outline_of_union {c : Collection} {t u : Template} {ts : List Template}
    (h : c.templates = t :: u :: ts) : c.outline =
      (TypeEntry.ofTemplates [c.name] c.templates :: ((c.templates.map fun t =>
          TypeEntry.ofFields true [c.name, t.name] (Field.outline [c.name, t.name] t.fields).1) ++
            [c.pages]),
        c.templates.flatMap fun t => (Field.outline [c.name, t.name] t.fields).2) := by
  rw [Collection.outline, h]
  simp [List.flatMap_map]

/-! ### Names of places -/

theorem ownerName_concat (names : List String) (name : String) :
    ownerName (names ++ [name]) = ownerName names ++ Text.pascalCase name := by
  simp [ownerName, String.join_append]

theorem plain_ownerName {names : List String} (h : ∀ n ∈ names, isName n) :
    Plain (ownerName names) := by
  induction names with
  | nil => decide
  | cons n names ih =>
    obtain ⟨hn, hnames⟩ := List.forall_mem_cons.mp h
    rw [ownerName, List.map_cons, String.join_cons]
    exact (plain_pascalCase (plain_of_isName hn)).append (ih hnames)

theorem typeName_values (names : List String) :
    Site.typeName ⟨names, .values⟩ = ownerName names := String.append_empty

theorem Site.plain_typeName {s : Site} (h : ∀ n ∈ s.names, isName n) : Plain s.typeName := by
  refine (plain_ownerName h).append ?_
  cases s.purpose <;> decide

theorem ownerName_singleton (name : String) : ownerName [name] = documentType name := by
  simp [ownerName, documentType]

/-! ### Reading types -/

/-- The fields are those that are written. -/
theorem declares_ofFields {names : List String} (hnames : ∀ n ∈ names, isName n) {text : String}
    {fields : List (String × TypeRef)}
    (hfields : GivesFields text (fields.map fun f => (f.1, f.2.name))) (document : Bool) :
    Declares (objectText (ownerName names) document text)
      [(TypeEntry.ofFields document names fields).declaration] := by
  have hobject := declares_objectText (plain_ownerName hnames) hfields document
  have hentry : (TypeEntry.ofFields document names fields).declaration = .object (ownerName names)
      (systemFields document ++ fields.map fun f => (f.1, f.2.name)) := by
    simp [TypeEntry.ofFields, TypeEntry.declaration, typeName_values, TypeRef.name, Function.comp_def]
  rwa [hentry]

/-- The members are those that are written. -/
theorem declares_ofTemplates {names : List String} (hnames : ∀ n ∈ names, isName n)
    {templates : List Template} (hne : templates ≠ []) (htemplates : ∀ t ∈ templates, isName t.name) :
    Declares (unionText (ownerName names)
        (templates.map fun t => ownerName names ++ Text.pascalCase t.name))
      [(TypeEntry.ofTemplates names templates).declaration] := by
  have hplain := plain_ownerName hnames
  have hunion : Declares (unionText (ownerName names)
        (templates.map fun t => ownerName names ++ Text.pascalCase t.name)) [.union (ownerName names)
        (templates.map fun t => ownerName names ++ Text.pascalCase t.name)] := by
    refine declares_unionText hplain (mt List.map_eq_nil_iff.mp hne) ?_
    rw [List.forall_mem_map]
    exact fun t ht => hplain.append (plain_pascalCase (plain_of_isName (htemplates t ht)))
  have hentry : (TypeEntry.ofTemplates names templates).declaration = .union (ownerName names)
      (templates.map fun t => ownerName names ++ Text.pascalCase t.name) := by
    simp [TypeEntry.ofTemplates, TypeEntry.declaration, typeName_values, ownerName_concat,
      Function.comp_def]
  rwa [hentry]

/-- A type as it is written at a field, and texts to be written later, mean a type and the types that
are made for it. -/
structure Writes (written : String × List String) (meant : TypeRef × List TypeEntry) : Prop where
  /-- The type is written with its name. -/
  type : IsTypeText written.1 meant.1.name
  /-- The texts declare the types that are made. -/
  later : Declares (String.join written.2) (meant.2.map TypeEntry.declaration)

theorem writes_scalar {type : String} (h : Plain type) : Writes (type, []) (.scalar type, []) :=
  ⟨isTypeText_of_plain h, declares_empty⟩

theorem writes_site {s : Site} (hs : ∀ n ∈ s.names, isName n) {text : String}
    {entries : List TypeEntry} (h : Declares text (entries.map TypeEntry.declaration)) :
    Writes (s.typeName, [text]) (.site s, entries) := by
  refine ⟨isTypeText_of_plain (Site.plain_typeName hs), ?_⟩
  simpa using h

/-- Documents of one target, or of one of several, are what a reference leads to. -/
theorem writes_targets {here : List String} (hhere : ∀ n ∈ here, isName n) {targets : List String}
    (hne : targets ≠ []) (htargets : ∀ t ∈ targets, isName t) :
    Writes (Site.typeName ⟨here, .targets⟩,
        [unionText (Site.typeName ⟨here, .targets⟩) (targets.map documentType)])
      (.site ⟨here, .targets⟩, [.union ⟨here, .targets⟩ (targets.map fun t => ⟨[t], .values⟩)]) := by
  refine writes_site hhere ?_
  have hmembers : (targets.map fun t => (⟨[t], .values⟩ : Site)).map Site.typeName =
      targets.map documentType := by
    simp [typeName_values, ownerName_singleton, Function.comp_def]
  show Declares _ [Declaration.union _ _]
  rw [hmembers]
  refine declares_unionText (Site.plain_typeName hhere) (mt List.map_eq_nil_iff.mp hne) ?_
  rw [List.forall_mem_map]
  exact fun t ht => plain_pascalCase (plain_of_isName (htargets t ht))

mutual

/-- **The type of a field is read as it is written, and so are the types that are made for it.** -/
theorem writes_typeName {path : List String} (hpath : ∀ n ∈ path, isName n) {field : String}
    (hfield : isName field) : ∀ k : Kind, k.Complete →
      Writes (k.typeName (ownerName path) field) (k.outline (path ++ [field]))
  | .string, _ => writes_scalar (by decide)
  | .number, _ => writes_scalar (by decide)
  | .boolean, _ => writes_scalar (by decide)
  | .datetime, _ => writes_scalar (by decide)
  | .richText, _ => writes_scalar (by decide)
  | .reference [], h => absurd rfl h.1
  | .reference [target], h => by
    have hplain : Plain (documentType target) :=
      plain_pascalCase (plain_of_isName (h.2 target (List.mem_singleton_self _)))
    have htype : Site.typeName ⟨[target], .values⟩ = documentType target := by
      rw [typeName_values, ownerName_singleton]
    refine ⟨?_, declares_empty⟩
    show IsTypeText (documentType target) (Site.typeName _)
    rw [htype]
    exact isTypeText_of_plain hplain
  | .reference (t :: u :: targets), h => by
    have hhere : ∀ n ∈ path ++ [field], isName n :=
      List.forall_mem_append.mpr ⟨hpath, List.forall_mem_singleton.mpr hfield⟩
    have hwrites := writes_targets hhere h.1 h.2
    rwa [Site.typeName, ownerName_concat] at hwrites
  | .list items, h => by
    obtain ⟨htype, hlater⟩ := writes_typeName hpath hfield items h
    exact ⟨htype.list, hlater⟩
  | .object [], h => absurd rfl h.1
  | .object [⟨name, fields⟩], h => by
    have hhere : ∀ n ∈ path ++ [field], isName n :=
      List.forall_mem_append.mpr ⟨hpath, List.forall_mem_singleton.mpr hfield⟩
    obtain ⟨htext, hlater⟩ := givesFields_typeLines hhere fields h.2.2.1
    have hall : Declares _
        ((TypeEntry.ofFields false (path ++ [field]) _ :: _).map TypeEntry.declaration) :=
      (declares_ofFields hhere htext false).append hlater
    have hwrites := writes_site (s := ⟨path ++ [field], .values⟩) hhere hall
    rw [typeName_values, ownerName_concat] at hwrites
    exact hwrites
  | .object (⟨name, fields⟩ :: u :: templates), h => by
    have hhere : ∀ n ∈ path ++ [field], isName n :=
      List.forall_mem_append.mpr ⟨hpath, List.forall_mem_singleton.mpr hfield⟩
    obtain ⟨htext, hlater⟩ := declares_memberTypes hhere (⟨name, fields⟩ :: u :: templates) h.2
    have hnames : ∀ t ∈ ⟨name, fields⟩ :: u :: templates, isName t.name := fun t ht =>
      (Template.allComplete_iff.mp h.2 t ht).1
    have hunion := declares_ofTemplates hhere h.1 hnames
    -- the union is followed by its members, and these by the types for their fields
    have hall := (hunion.append htext).append hlater
    rw [List.append_assoc, ← List.map_append, List.singleton_append, ← List.map_cons] at hall
    have hwrites := writes_site (s := ⟨path ++ [field], .values⟩) hhere hall
    rw [typeName_values, ownerName_concat] at hwrites
    exact hwrites

theorem declares_memberTypes {path : List String} (hpath : ∀ n ∈ path, isName n) :
    ∀ ts : List Template, Template.AllComplete ts →
      Declares (Template.memberTypes (ownerName path) ts).1
        ((Template.outline path ts).1.map TypeEntry.declaration) ∧
      Declares (String.join (Template.memberTypes (ownerName path) ts).2)
        ((Template.outline path ts).2.map TypeEntry.declaration)
  | [], _ => ⟨declares_empty, declares_empty⟩
  | ⟨name, fields⟩ :: r, h => by
    obtain ⟨hname, hfields, hrest⟩ := h
    have hhere : ∀ n ∈ path ++ [name], isName n :=
      List.forall_mem_append.mpr ⟨hpath, List.forall_mem_singleton.mpr hname⟩
    obtain ⟨htext, hlater⟩ := givesFields_typeLines hhere fields hfields
    obtain ⟨htexts, hlaters⟩ := declares_memberTypes hpath r hrest
    have hobject := declares_ofFields hhere htext false
    rw [Template.memberTypes, Template.outline, ← ownerName_concat, String.join_append,
      List.map_append]
    exact ⟨hobject.append htexts, hlater.append hlaters⟩

theorem givesFields_typeLines {path : List String} (hpath : ∀ n ∈ path, isName n) :
    ∀ fs : List Field, Field.AllComplete fs →
      GivesFields (Field.typeLines (ownerName path) fs).1
        ((Field.outline path fs).1.map fun f => (f.1, f.2.name)) ∧
      Declares (String.join (Field.typeLines (ownerName path) fs).2)
        ((Field.outline path fs).2.map TypeEntry.declaration)
  | [], _ => ⟨givesFields_empty, declares_empty⟩
  | ⟨name, kind, required, _⟩ :: r, h => by
    obtain ⟨hname, hkind, hrest⟩ := h
    obtain ⟨htype, hlater⟩ := writes_typeName hpath hname kind hkind
    obtain ⟨hfields, hlaters⟩ := givesFields_typeLines hpath r hrest
    have hmark : IsTypeText (if required then "!" else "") "" := by
      cases required
      · exact ⟨by decide, by decide, by decide⟩
      · exact isTypeText_bang
    have hline := givesFields_typed (plain_of_isName hname) (htype.mark hmark)
    rw [Field.typeLines, Field.outline, String.join_append, List.map_append]
    refine ⟨?_, hlater.append hlaters⟩
    have hboth := hline.append hfields
    simpa only [String.append_assoc, List.singleton_append, List.map_cons] using hboth

end

/-! ### Collections -/

theorem join_flatMap {α : Type} (l : List α) (f : α → List String) :
    String.join (l.flatMap f) = String.join (l.map fun a => String.join (f a)) := by
  induction l with
  | nil => rfl
  | cons a l ih =>
    rw [List.flatMap_cons, String.join_append, ih, List.map_cons, String.join_cons]

/-- The type of pages is read as it is written. -/
theorem declares_pages {c : Collection} (hc : isName c.name) :
    Declares ("type " ++ documentType c.name ++ "Connection \x7b\n  items: [" ++ documentType c.name
      ++ "!]!\n  endCursor: String\n  hasNextPage: Boolean!\n\x7d\n\n") [c.pages.declaration] := by
  have hplain : Plain (documentType c.name) := plain_pascalCase (plain_of_isName hc)
  have hitems : GivesFields
      ("  " ++ "items" ++ ": " ++ ("[" ++ (documentType c.name ++ "!") ++ "]" ++ "!") ++ "\n")
      [("items", documentType c.name)] :=
    givesFields_typed (by decide)
      (((isTypeText_of_plain hplain).mark isTypeText_bang).list.mark isTypeText_bang)
  have hcursor : GivesFields ("  " ++ "endCursor" ++ ": " ++ "String" ++ "\n")
      [("endCursor", "String")] := givesFields_typed (by decide) (isTypeText_of_plain (by decide))
  have hnext : GivesFields ("  " ++ "hasNextPage" ++ ": " ++ ("Boolean" ++ "!") ++ "\n")
      [("hasNextPage", "Boolean")] :=
    givesFields_typed (by decide) ((isTypeText_of_plain (by decide)).mark isTypeText_bang)
  have htype := (declares_type (hplain.append (by decide : Plain "Connection"))
    ((hitems.append hcursor).append hnext)).append declares_blank
  have hentry : c.pages.declaration = .object (documentType c.name ++ "Connection")
      ([("items", documentType c.name)] ++ [("endCursor", "String")] ++
        [("hasNextPage", "Boolean")]) := by
    simp [Collection.pages, TypeEntry.declaration, TypeRef.name, Site.typeName, ownerName_singleton,
      Purpose.ending]
  rw [List.append_nil, ← hentry] at htype
  refine Eq.mp (congrArg (Declares · _) (String.toList_inj.mp ?_)) htype
  simp

/-- The type of the documents of a template is read as it is written. -/
theorem declares_documentText {names : List String} (hnames : ∀ n ∈ names, isName n) {t : Template}
    (ht : Field.AllComplete t.fields) :
    Declares (documentText (ownerName names) t).1
        [(TypeEntry.ofFields true names (Field.outline names t.fields).1).declaration] ∧
      Declares (String.join (documentText (ownerName names) t).2)
        ((Field.outline names t.fields).2.map TypeEntry.declaration) := by
  obtain ⟨htext, hlater⟩ := givesFields_typeLines hnames t.fields ht
  exact ⟨declares_ofFields hnames htext true, hlater⟩

/-- The types of the templates of a collection are read as they are written. -/
theorem declares_variants {c : Collection} (hc : c.Complete) :
    Declares (unionText (documentType c.name)
          (c.templates.map fun t => variantType c.name t.name) ++
        String.join ((c.templates.map fun t => documentText (variantType c.name t.name) t).map (·.1)))
      ((TypeEntry.ofTemplates [c.name] c.templates :: c.templates.map fun t =>
        TypeEntry.ofFields true [c.name, t.name] (Field.outline [c.name, t.name] t.fields).1).map
          TypeEntry.declaration) ∧
    Declares
      (String.join
        ((c.templates.map fun t => documentText (variantType c.name t.name) t).flatMap (·.2)))
      ((c.templates.flatMap fun t => (Field.outline [c.name, t.name] t.fields).2).map
        TypeEntry.declaration) := by
  have htemplates := Template.allComplete_iff.mp hc.templates
  have hvariant (t : Template) : variantType c.name t.name = ownerName [c.name, t.name] := by
    simp [variantType, ownerName]
  have hsite (t : Template) (ht : t ∈ c.templates) : ∀ n ∈ [c.name, t.name], isName n :=
    List.forall_mem_cons.mpr ⟨hc.name, List.forall_mem_singleton.mpr (htemplates t ht).1⟩
  have hdocument (t : Template) (ht : t ∈ c.templates) :=
    declares_documentText (hsite t ht) (htemplates t ht).2
  have hunion := declares_ofTemplates (List.forall_mem_singleton.mpr hc.name) hc.some
    fun t ht => (htemplates t ht).1
  have hmember (t : Template) : documentType c.name ++ Text.pascalCase t.name =
      variantType c.name t.name := rfl
  rw [ownerName_singleton] at hunion
  simp only [hmember] at hunion
  constructor
  · have htexts := declares_join fun t ht => (hdocument t ht).1
    simp only [← hvariant] at htexts
    have hall := hunion.append htexts
    rw [List.singleton_append, ← List.map_eq_flatMap] at hall
    simpa only [List.map_map, List.map_cons, Function.comp_def] using hall
  · have hlaters := declares_join fun t ht => (hdocument t ht).2
    simp only [← hvariant] at hlaters
    rw [List.flatMap_map, join_flatMap, List.map_flatMap]
    exact hlaters

/-- **The types of a collection are read as they are written.** -/
theorem declares_collection {c : Collection} (hc : c.Complete) :
    Declares c.typeText.1 (c.outline.1.map TypeEntry.declaration) ∧
      Declares (String.join c.typeText.2) (c.outline.2.map TypeEntry.declaration) := by
  have hpages := declares_pages hc.name
  rcases htemplates : c.templates with _ | ⟨t, _ | ⟨u, ts⟩⟩
  · exact absurd htemplates hc.some
  · have ht : Field.AllComplete t.fields :=
      (Template.allComplete_iff.mp hc.templates t (htemplates ▸ List.mem_singleton_self t)).2
    obtain ⟨htext, hlater⟩ := declares_documentText (List.forall_mem_singleton.mpr hc.name) ht
    rw [ownerName_singleton] at htext hlater
    rw [Collection.typeText, Collection.outline, htemplates]
    refine ⟨?_, hlater⟩
    have hboth := htext.append hpages
    simpa only [String.append_assoc, List.singleton_append, List.map_cons, List.map_nil] using hboth
  · obtain ⟨htexts, hlaters⟩ := declares_variants hc
    have hboth := htexts.append hpages
    have htypeText : c.typeText = (unionText (documentType c.name)
          (c.templates.map fun t => variantType c.name t.name) ++
        String.join ((c.templates.map fun t => documentText (variantType c.name t.name) t).map (·.1))
          ++ "type " ++ documentType c.name ++ "Connection \x7b\n  items: [" ++ documentType c.name
          ++ "!]!\n  endCursor: String\n  hasNextPage: Boolean!\n\x7d\n\n",
        (c.templates.map fun t => documentText (variantType c.name t.name) t).flatMap (·.2)) := by
      rw [Collection.typeText, htemplates]
    rw [Collection.outline_of_union htemplates, htypeText]
    refine ⟨?_, hlaters⟩
    rw [← List.cons_append, List.map_append]
    simpa only [String.append_assoc, List.map_singleton] using hboth

/-- The fields of queries for a collection are read as they are written. -/
theorem givesFields_queryLines {c : Collection} (hc : isName c.name) :
    GivesFields c.queryLines (c.queries.map fun f => (f.1, f.2.name)) := by
  have hfield : Plain (queryField c.name) := plain_camelCase (plain_of_isName hc)
  have htype : Plain (documentType c.name) := plain_pascalCase (plain_of_isName hc)
  have hpages : Plain (documentType c.name ++ "Connection") := htype.append (by decide)
  have hone : GivesFields ("  " ++ queryField c.name ++ "(" ++ "path:" ++ " " ++ "String!):" ++ " " ++
      documentType c.name ++ "\n") [(queryField c.name, documentType c.name)] :=
    givesFields_arguments hfield (by decide) (by decide) (isTypeText_of_plain htype)
  have hmany : GivesFields ("  " ++ (queryField c.name ++ "Connection") ++ "(" ++ "filter:" ++ " " ++
      "JSON, sort: String, after: String, first: Int):" ++ " " ++
        (documentType c.name ++ "Connection" ++ "!") ++ "\n")
      [(queryField c.name ++ "Connection", documentType c.name ++ "Connection")] :=
    givesFields_arguments (hfield.append (by decide)) (by decide) (by decide)
      ((isTypeText_of_plain hpages).mark isTypeText_bang)
  have hqueries : c.queries.map (fun f => (f.1, f.2.name)) =
      [(queryField c.name, documentType c.name)] ++
        [(queryField c.name ++ "Connection", documentType c.name ++ "Connection")] := by
    simp [Collection.queries, TypeRef.name, Site.typeName, ownerName_singleton, Purpose.ending]
  rw [hqueries]
  refine Eq.mp (congrArg (GivesFields · _) (String.toList_inj.mp ?_)) (hone.append hmany)
  simp [Collection.queryLines]

/-- The scalars are read as they are written. -/
theorem declares_scalars :
    Declares "scalar DateTime\nscalar JSON\n\n" [.scalar "DateTime", .scalar "JSON"] := by
  have hdates : Declares ("scalar DateTime" ++ "\n") [.scalar "DateTime"] :=
    declares_line (by decide) (by decide : wordsOf _ = ["scalar", "DateTime"]) fun _ => by
      simp [Reading.line]
  have hvalues : Declares ("scalar JSON" ++ "\n") [.scalar "JSON"] :=
    declares_line (by decide) (by decide : wordsOf _ = ["scalar", "JSON"]) fun _ => by
      simp [Reading.line]
  refine Eq.mp (congrArg (Declares · _) (String.toList_inj.mp ?_))
    ((hdates.append hvalues).append declares_blank)
  simp

/-- The type of queries is read as it is written. -/
theorem declares_queries {g : Graph} (hg : ∀ c ∈ g.collections, isName c.name) :
    Declares
      ("type Query \x7b\n" ++ String.join (g.collections.map Collection.queryLines) ++ "\x7d\n")
      [.object "Query" (g.queries.map fun f => (f.1, f.2.name))] := by
  have hfields := givesFields_join fun c hc => givesFields_queryLines (hg c hc)
  rw [← List.map_flatMap] at hfields
  refine Eq.mp (congrArg (Declares · _) (String.toList_inj.mp ?_))
    (declares_type (by decide : Plain "Query") hfields)
  simp only [String.toList_append, List.append_assoc]
  simp

/-- **The text of a graph declares the types of its outline**, with the type of queries between those
of the collections and those that are made for fields. -/
theorem declarations_typeText {g : Graph} (hg : ∀ c ∈ g.collections, c.Complete) :
    declarations (typeText g) = [.scalar "DateTime", .scalar "JSON"] ++
      g.outline.map TypeEntry.declaration ++
        [.object "Query" (g.queries.map fun f => (f.1, f.2.name))] ++
          g.laterOutline.map TypeEntry.declaration := by
  have hnow := declares_join fun c hc => (declares_collection (hg c hc)).1
  have hlater := declares_join fun c hc => (declares_collection (hg c hc)).2
  have hqueries := declares_queries fun c hc => (hg c hc).name
  rw [← List.map_flatMap] at hnow hlater
  rw [← join_flatMap] at hlater
  have hall := ((declares_scalars.append hnow).append hqueries).append hlater
  have htext : typeText g = "scalar DateTime\nscalar JSON\n\n" ++
      String.join (g.collections.map fun c => c.typeText.1) ++
      ("type Query \x7b\n" ++ String.join (g.collections.map Collection.queryLines) ++ "\x7d\n") ++
      String.join (g.collections.flatMap fun c => c.typeText.2) := by
    unfold typeText
    simp only [List.map_map, List.flatMap_map, Function.comp_def, String.append_assoc]
  rw [htext]
  exact hall.eq

end Graph

end ContentIndex
