import ContentIndex.Proofs.TypeSites
import Mathlib.Data.List.Perm.Basic

/-!
# The types that are used are defined

A field has a scalar type, the type of a place whose type is made there and then, or the type of the
documents of a collection. References point into collections of the schema, so all of these types are
defined in the text, wherever the field is.

## Main definitions

* `Graph.IsClosed`: every type that a text uses is defined in it
* `Graph.sites`: all places that types are made for
* `Graph.TypeRef.Known`, `Graph.TypeEntry.Closed`: types and declarations that use known places

## Main results

* `Graph.Kind.closed`: the types of a kind use each other, scalars and types of collections
* `Graph.definedTypes_perm`: the types that are defined are the reserved ones and those of the places
* `Graph.isClosed_typeText`: **every type that is used is defined**
-/

namespace ContentIndex

namespace Graph

/-- Every type that is used is defined. -/
def IsClosed (text : String) : Prop :=
  ∀ d ∈ declarations text, ∀ type ∈ d.uses, type ∈ definedTypes text

/-- The types that are there in any case. -/
def reservedTypes : List String := builtInTypes ++ ["DateTime", "JSON", "Query"]

/-- The types that are made for a collection, in both places. -/
def Collection.typeEntries (c : Collection) : List TypeEntry := c.outline.1 ++ c.outline.2

/-- The places that types are made for. -/
def sites (g : Graph) : List Site := g.collections.flatMap fun c => c.typeEntries.map TypeEntry.site

/-! ### Known places -/

/-- The type is a scalar or that of a known place. -/
def TypeRef.Known (known : Site → Prop) : TypeRef → Prop
  | .scalar name => name ∈ reservedTypes
  | .site s => known s

/-- The type uses scalars and the types of known places. -/
def TypeEntry.Closed (known : Site → Prop) (e : TypeEntry) : Prop := ∀ r ∈ e.refs, r.Known known

section Known

variable {known : Site → Prop} {names here : List String}

theorem TypeRef.known_scalar {name : String} (h : name ∈ reservedTypes) :
    (TypeRef.scalar name).Known known := h

theorem TypeEntry.closed_ofFields (document : Bool) {fields : List (String × TypeRef)}
    (h : ∀ f ∈ fields, f.2.Known known) : (TypeEntry.ofFields document here fields).Closed known := by
  have hsystem : ∀ f ∈ systemFields document, (TypeRef.scalar f.2).Known known := by
    cases document <;> simp [systemFields, TypeRef.Known, reservedTypes, builtInTypes]
  intro r hr
  obtain ⟨f, hf, rfl⟩ := List.mem_map.mp hr
  rcases List.mem_append.mp hf with hf | hf
  · obtain ⟨s, hs, rfl⟩ := List.mem_map.mp hf
    exact hsystem s hs
  · exact h f hf

theorem TypeEntry.closed_ofTemplates {ts : List Template}
    (h : ∀ t ∈ ts, known ⟨here ++ [t.name], .values⟩) :
    (TypeEntry.ofTemplates here ts).Closed known := by
  intro r hr
  obtain ⟨s, hs, rfl⟩ := List.mem_map.mp hr
  obtain ⟨t, ht, rfl⟩ := List.mem_map.mp hs
  exact h t ht

theorem TypeEntry.closed_ofTargets {targets : List String} (h : ∀ t ∈ targets, known ⟨[t], .values⟩) :
    (TypeEntry.union ⟨here, .targets⟩ (targets.map fun t => ⟨[t], .values⟩)).Closed known := by
  intro r hr
  obtain ⟨s, hs, rfl⟩ := List.mem_map.mp hr
  obtain ⟨t, ht, rfl⟩ := List.mem_map.mp hs
  exact h t ht

mutual

/-- **The types of a kind use each other, scalars and the types of collections.** -/
theorem Kind.closed (hdocuments : ∀ n ∈ names, known ⟨[n], .values⟩) {here : List String} :
    ∀ k : Kind, k.Declared names → (∀ e ∈ (k.outline here).2, known e.site) →
      (k.outline here).1.Known known ∧ ∀ e ∈ (k.outline here).2, e.Closed known
  | .string, _, _ => ⟨TypeRef.known_scalar (by decide), nofun⟩
  | .number, _, _ => ⟨TypeRef.known_scalar (by decide), nofun⟩
  | .boolean, _, _ => ⟨TypeRef.known_scalar (by decide), nofun⟩
  | .datetime, _, _ => ⟨TypeRef.known_scalar (by decide), nofun⟩
  | .richText, _, _ => ⟨TypeRef.known_scalar (by decide), nofun⟩
  | .reference [target], hk, _ => ⟨hdocuments target (hk target (List.mem_singleton_self _)), nofun⟩
  | .reference [], _, hknown =>
    ⟨hknown _ (List.mem_singleton_self _),
      List.forall_mem_singleton.mpr (TypeEntry.closed_ofTargets nofun)⟩
  | .reference (t :: u :: targets), hk, hknown =>
    ⟨hknown _ (List.mem_singleton_self _), List.forall_mem_singleton.mpr
      (TypeEntry.closed_ofTargets fun target htarget => hdocuments target (hk target htarget))⟩
  | .list items, hk, hknown => Kind.closed hdocuments items hk hknown
  | .object [], _, hknown =>
    ⟨hknown _ (List.mem_singleton_self _),
      List.forall_mem_singleton.mpr (TypeEntry.closed_ofTemplates nofun)⟩
  | .object [⟨name, fields⟩], hk, hknown => by
    obtain ⟨hsite, hlater⟩ := List.forall_mem_cons.mp hknown
    obtain ⟨hfields, hentries⟩ := Field.closed hdocuments fields hk.2.2.1 hlater
    exact ⟨hsite, List.forall_mem_cons.mpr ⟨TypeEntry.closed_ofFields false hfields, hentries⟩⟩
  | .object (⟨name, fields⟩ :: u :: templates), hk, hknown => by
    obtain ⟨hsite, hlater⟩ := List.forall_mem_cons.mp hknown
    -- the members of the union are the types that come right after it
    have hmembers : ∀ t ∈ ⟨name, fields⟩ :: u :: templates, known ⟨here ++ [t.name], .values⟩ := by
      intro t ht
      have hmember := List.mem_map_of_mem (f := fun t : Template => TypeEntry.ofFields false
        (here ++ [t.name]) (Field.outline (here ++ [t.name]) t.fields).1) ht
      rw [Template.outline_eq] at hlater
      exact hlater _ (List.mem_append_left _ hmember)
    have hentries := Template.closed hdocuments (⟨name, fields⟩ :: u :: templates) hk.2 hlater
    exact ⟨hsite, List.forall_mem_cons.mpr ⟨TypeEntry.closed_ofTemplates hmembers, hentries⟩⟩

theorem Template.closed (hdocuments : ∀ n ∈ names, known ⟨[n], .values⟩) {here : List String} :
    ∀ ts : List Template, Template.AllDeclared names ts →
      (∀ e ∈ (Template.outline here ts).1 ++ (Template.outline here ts).2, known e.site) →
      ∀ e ∈ (Template.outline here ts).1 ++ (Template.outline here ts).2, e.Closed known
  | [], _, _ => nofun
  | ⟨name, fields⟩ :: r, hts, hknown => by
    obtain ⟨-, hfields, hrest⟩ := hts
    rw [Template.outline] at hknown ⊢
    simp only [List.cons_append, List.forall_mem_cons, List.forall_mem_append] at hknown ⊢
    obtain ⟨-, hmembers, hlater, hlaters⟩ := hknown
    obtain ⟨hobject, hentries⟩ := Field.closed hdocuments fields hfields hlater
    have hothers := Template.closed hdocuments r hrest
      (List.forall_mem_append.mpr ⟨hmembers, hlaters⟩)
    obtain ⟨hothers, hothers'⟩ := List.forall_mem_append.mp hothers
    exact ⟨TypeEntry.closed_ofFields false hobject, hothers, hentries, hothers'⟩

theorem Field.closed (hdocuments : ∀ n ∈ names, known ⟨[n], .values⟩) {here : List String} :
    ∀ fs : List Field, Field.AllDeclared names fs →
      (∀ e ∈ (Field.outline here fs).2, known e.site) →
      (∀ f ∈ (Field.outline here fs).1, f.2.Known known) ∧
        ∀ e ∈ (Field.outline here fs).2, e.Closed known
  | [], _, _ => ⟨nofun, nofun⟩
  | ⟨name, kind, _, _⟩ :: r, hfs, hknown => by
    obtain ⟨-, hkind, hrest⟩ := hfs
    rw [Field.outline] at hknown ⊢
    obtain ⟨hlater, hlaters⟩ := List.forall_mem_append.mp hknown
    obtain ⟨htype, hentries⟩ := Kind.closed hdocuments kind hkind hlater
    obtain ⟨htypes, hentries'⟩ := Field.closed hdocuments r hrest hlaters
    exact ⟨List.forall_mem_cons.mpr ⟨htype, htypes⟩,
      List.forall_mem_append.mpr ⟨hentries, hentries'⟩⟩

end

/-- The types of a collection use each other, scalars and the types of collections. -/
theorem Collection.closed (hdocuments : ∀ n ∈ names, known ⟨[n], .values⟩) {c : Collection}
    (hc : c.Declared names) (hknown : ∀ e ∈ c.typeEntries, known e.site) :
    ∀ e ∈ c.typeEntries, e.Closed known := by
  have hfields {t : Template} (ht : t ∈ c.templates) {here : List String}
      (hlater : ∀ e ∈ (Field.outline here t.fields).2, known e.site) :=
    Field.closed hdocuments t.fields (Template.allDeclared_iff.mp hc.templates t ht).2 hlater
  have hpages : c.pages.Closed known := by
    simp only [TypeEntry.Closed, Collection.pages, TypeEntry.refs, List.map_cons, List.map_nil,
      List.forall_mem_cons]
    exact ⟨hdocuments c.name hc.known, TypeRef.known_scalar (by decide),
      TypeRef.known_scalar (by decide), List.forall_mem_nil _⟩
  rw [Collection.typeEntries] at hknown ⊢
  rcases htemplates : c.templates with _ | ⟨t, _ | ⟨u, ts⟩⟩
  · rw [Collection.outline, htemplates] at hknown ⊢
    intro e he
    rcases List.mem_cons.mp he with rfl | he
    · exact TypeEntry.closed_ofTemplates (List.forall_mem_nil _)
    · obtain rfl := List.mem_singleton.mp he
      exact hpages
  · have ht : t ∈ c.templates := htemplates ▸ List.mem_singleton_self t
    rw [Collection.outline, htemplates] at hknown ⊢
    simp only [List.cons_append, List.nil_append, List.forall_mem_cons] at hknown ⊢
    obtain ⟨hobject, hentries⟩ := hfields ht hknown.2.2
    exact ⟨TypeEntry.closed_ofFields true hobject, hpages, hentries⟩
  · rw [Collection.outline_of_union htemplates] at hknown ⊢
    simp only [List.cons_append, List.forall_mem_cons, List.forall_mem_append, List.forall_mem_map,
      List.mem_flatMap, forall_exists_index, and_imp] at hknown ⊢
    obtain ⟨-, ⟨hmembers, -⟩, hlater⟩ := hknown
    have hmember (t : Template) (ht : t ∈ c.templates) := hfields ht fun e he => hlater e t ht he
    refine ⟨TypeEntry.closed_ofTemplates hmembers, ⟨fun t ht => ?_, by simpa using hpages⟩, ?_⟩
    · exact TypeEntry.closed_ofFields true (hmember t ht).1
    · exact fun e t ht he => (hmember t ht).2 e he

end Known

/-! ### The text of a graph -/

variable {g : Graph}

theorem TypeEntry.name_declaration (e : TypeEntry) : e.declaration.name = e.site.typeName := by
  cases e <;> rfl

theorem TypeEntry.uses_declaration (e : TypeEntry) :
    e.declaration.uses = e.refs.map TypeRef.name := by
  cases e <;>
    simp [TypeEntry.declaration, Declaration.uses, TypeEntry.refs, TypeRef.name, Function.comp_def]

/-- The types for the documents and the pages of a collection come first and last. -/
theorem Collection.sites_eq (c : Collection) : ∃ between later : List Site,
    c.typeEntries.map TypeEntry.site =
      ⟨[c.name], .values⟩ :: (between ++ [⟨[c.name], .pages⟩] ++ later) := by
  rw [Collection.typeEntries]
  rcases htemplates : c.templates with _ | ⟨t, _ | ⟨u, ts⟩⟩
  · exact ⟨[], [], by rw [Collection.outline, htemplates]; rfl⟩
  · exact ⟨[], _, by rw [Collection.outline, htemplates]; rfl⟩
  · rw [Collection.outline_of_union htemplates, List.cons_append, List.map_cons, List.map_append,
      List.map_append]
    exact ⟨_, _, rfl⟩

theorem mem_sites_values {c : Collection} (hc : c ∈ g.collections) :
    (⟨[c.name], .values⟩ : Site) ∈ g.sites := by
  obtain ⟨between, later, h⟩ := c.sites_eq
  exact List.mem_flatMap.mpr ⟨c, hc, by simp [h]⟩

theorem mem_sites_pages {c : Collection} (hc : c ∈ g.collections) :
    (⟨[c.name], .pages⟩ : Site) ∈ g.sites := by
  obtain ⟨between, later, h⟩ := c.sites_eq
  exact List.mem_flatMap.mpr ⟨c, hc, by simp [h]⟩

/-- The types that are made before and after that of queries are those for the places. -/
theorem outline_perm_sites (g : Graph) :
    ((g.outline ++ g.laterOutline).map TypeEntry.site).Perm g.sites := by
  have hall : (g.outline ++ g.laterOutline).Perm (g.collections.flatMap Collection.typeEntries) :=
    List.flatMap_append_perm g.collections (·.outline.1) (·.outline.2)
  rw [sites, ← List.map_flatMap]
  exact hall.map TypeEntry.site

/-- **The types that are defined are the reserved ones and those of the places.** -/
theorem definedTypes_perm (hg : ∀ c ∈ g.collections, c.Complete) :
    (definedTypes (typeText g)).Perm (reservedTypes ++ g.sites.map Site.typeName) := by
  have hnames (entries : List TypeEntry) : (entries.map TypeEntry.declaration).map (·.name) =
      (entries.map TypeEntry.site).map Site.typeName := by
    rw [List.map_map, List.map_map]
    exact List.map_congr_left fun e _ => e.name_declaration
  have hquery : (definedTypes (typeText g)).Perm (reservedTypes ++
      ((g.outline ++ g.laterOutline).map TypeEntry.site).map Site.typeName) := by
    rw [definedTypes, declarations_typeText hg]
    simp only [List.map_append, hnames, reservedTypes, List.append_assoc]
    -- the type of queries stands between the types of collections and those of fields
    refine List.Perm.append_left _ (List.Perm.append_left ["DateTime", "JSON"] ?_)
    exact List.perm_middle
  exact hquery.trans (((outline_perm_sites g).map _).append_left _)

/-- A type that is known in the graph is defined. -/
theorem mem_definedTypes (hg : ∀ c ∈ g.collections, c.Complete) {r : TypeRef}
    (hr : r.Known (· ∈ g.sites)) : r.name ∈ definedTypes (typeText g) := by
  rw [(definedTypes_perm hg).mem_iff, List.mem_append]
  cases r with
  | scalar name => exact Or.inl hr
  | site s => exact Or.inr (List.mem_map_of_mem hr)

/-- **Every type that is used in the text of a compiled graph is defined.** -/
theorem isClosed_typeText (hg : g.IsCompiled) : IsClosed (typeText g) := by
  have hcomplete := hg.complete
  have hdocuments : ∀ n ∈ g.collections.map (·.name), (⟨[n], .values⟩ : Site) ∈ g.sites :=
    List.forall_mem_map.mpr fun c hc => mem_sites_values hc
  have hentries : ∀ c ∈ g.collections, ∀ e ∈ c.typeEntries, e.Closed (· ∈ g.sites) := by
    intro c hc
    refine Collection.closed hdocuments (hg.declared.2 c hc) fun e he => ?_
    exact List.mem_flatMap.mpr ⟨c, hc, List.mem_map_of_mem he⟩
  have hclosed (e : TypeEntry) (he : e.Closed (· ∈ g.sites)) :
      ∀ type ∈ e.declaration.uses, type ∈ definedTypes (typeText g) := by
    rw [e.uses_declaration, List.forall_mem_map]
    exact fun r hr => mem_definedTypes hcomplete (he r hr)
  have hqueries : ∀ f ∈ g.queries, f.2.Known (· ∈ g.sites) := by
    intro f hf
    obtain ⟨c, hc, hf⟩ := List.mem_flatMap.mp hf
    rcases List.mem_pair.mp hf with rfl | rfl
    · exact mem_sites_values hc
    · exact mem_sites_pages hc
  intro d hd
  rw [declarations_typeText hcomplete] at hd
  simp only [List.mem_append, List.mem_cons, List.mem_map, outline, laterOutline, List.mem_flatMap,
    List.not_mem_nil, or_false] at hd
  rcases hd with (((rfl | rfl) | ⟨e, ⟨c, hc, he⟩, rfl⟩) | rfl) | ⟨e, ⟨c, hc, he⟩, rfl⟩
  · nofun
  · nofun
  · exact hclosed e (hentries c hc e (List.mem_append_left _ he))
  · intro type htype
    obtain ⟨field, hfield, rfl⟩ := List.mem_map.mp htype
    obtain ⟨f, hf, rfl⟩ := List.mem_map.mp hfield
    exact mem_definedTypes hcomplete (hqueries f hf)
  · exact hclosed e (hentries c hc e (List.mem_append_right _ he))

end Graph

end ContentIndex
