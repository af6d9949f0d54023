import ContentIndex.Proofs.ClosedTypes

/-!
# Types of one name

No two types of a graph are made for the same place: members of one owner have different names, and
the places of a member are below those of its owner. Types have one name all the same if the names of
their places are one when they are written with capitals and without what parts their words, and
nothing in a schema keeps such names from each other.

## Main definitions

* `Graph.Spread`: types for different places below a given one
* `Graph.IsUnambiguous`: a text defines every type and every field of queries once
* `Graph.Collapses`: two places, or a place and a reserved type, share a name

## Main results

* `Graph.IsCompiled.nodup_sites`: the types of a compiled graph are made for different places
* `Graph.nodup_definedTypes_iff`, `Graph.nodup_queryFields`: when types are defined once, and fields
  of queries
* `Graph.isClosed_and_isUnambiguous_iff`: **the text of a compiled graph is closed, and it is
  unambiguous if and only if no names collapse**
-/

namespace ContentIndex

namespace Graph

/-- Every type is defined once, and so is every field of queries. -/
def IsUnambiguous (text : String) : Prop := (definedTypes text).Nodup ∧ (queryFields text).Nodup

/-- Two places have types of one name, or a place has a type of a reserved name. -/
def Collapses (g : Graph) : Prop :=
  (∃ s ∈ g.sites, ∃ t ∈ g.sites, s ≠ t ∧ s.typeName = t.typeName) ∨
    ∃ s ∈ g.sites, s.typeName ∈ reservedTypes

instance (g : Graph) : Decidable g.Collapses := inferInstanceAs (Decidable (_ ∨ _))

/-! ### Places below a place -/

/-- The types are made for different places, all of them at or below a given one. -/
structure Spread (here : List String) (entries : List TypeEntry) : Prop where
  /-- The places are there or below. -/
  below : ∀ e ∈ entries, here <+: e.site.names
  /-- They are different. -/
  nodup : (entries.map TypeEntry.site).Nodup

variable {names here : List String}

theorem spread_nil : Spread here [] := ⟨nofun, List.nodup_nil⟩

theorem Spread.perm {entries entries' : List TypeEntry} (h : Spread here entries)
    (hperm : entries.Perm entries') : Spread here entries' :=
  ⟨fun e he => h.below e (hperm.mem_iff.mpr he), (hperm.map _).nodup_iff.mp h.nodup⟩

/-- A type for the place itself comes with those that are made for other places. -/
theorem Spread.cons {e : TypeEntry} {entries : List TypeEntry} (hsite : e.site.names = here)
    (h : Spread here entries) (hne : ∀ d ∈ entries, d.site ≠ e.site) :
    Spread here (e :: entries) := by
  refine ⟨List.forall_mem_cons.mpr ⟨hsite ▸ List.prefix_rfl, h.below⟩, ?_⟩
  rw [List.map_cons, List.nodup_cons]
  refine ⟨fun hmem => ?_, h.nodup⟩
  obtain ⟨d, hd, heq⟩ := List.mem_map.mp hmem
  exact hne d hd heq

/-- A place is below one member of its owner. -/
theorem eq_of_below {l : List String} {a b : String} (ha : here ++ [a] <+: l)
    (hb : here ++ [b] <+: l) : a = b := by
  have hprefix := List.prefix_of_prefix_length_le ha hb (by simp)
  simpa using hprefix.eq_of_length (by simp)

theorem names_ne_of_below {e : TypeEntry} {a : String} (h : here ++ [a] <+: e.site.names) :
    e.site.names ≠ here := by
  intro heq
  have hle := h.length_le
  rw [heq, List.length_append, List.length_singleton] at hle
  omega

section Members

variable {α : Type} {name : α → String} {entries : α → List TypeEntry} {l : List α}

/-- **The types of members of different names are made for different places.** -/
theorem Spread.flatMap (hnodup : (l.map name).Nodup)
    (h : ∀ a ∈ l, Spread (here ++ [name a]) (entries a)) : Spread here (l.flatMap entries) := by
  constructor
  · intro e he
    obtain ⟨a, ha, he⟩ := List.mem_flatMap.mp he
    exact (List.prefix_append here [name a]).trans ((h a ha).below e he)
  · rw [List.map_flatMap, List.nodup_flatMap]
    refine ⟨fun a ha => (h a ha).nodup, ?_⟩
    refine (List.pairwise_map.mp hnodup).imp_of_mem fun {a b} ha hb hne s hs ht => hne ?_
    -- a place of both members would be below each of them
    obtain ⟨d, hd, rfl⟩ := List.mem_map.mp hs
    obtain ⟨e, he, heq⟩ := List.mem_map.mp ht
    have hbelow := (h b hb).below e he
    rw [heq] at hbelow
    exact eq_of_below ((h a ha).below d hd) hbelow

/-- The types of members are not made for the place of their owner. -/
theorem names_ne_of_mem_flatMap (h : ∀ a ∈ l, Spread (here ++ [name a]) (entries a)) :
    ∀ e ∈ l.flatMap entries, e.site.names ≠ here := by
  intro e he
  obtain ⟨a, ha, he⟩ := List.mem_flatMap.mp he
  exact names_ne_of_below ((h a ha).below e he)

end Members

/-! ### Kinds -/

/-- The types that are made for the values of a field. -/
abbrev Field.typeEntries (here : List String) (f : Field) : List TypeEntry :=
  (f.kind.outline (here ++ [f.name])).2

/-- The type of a template of an owner, and the types that are made for its fields. -/
abbrev Template.typeEntries (document : Bool) (here : List String) (t : Template) : List TypeEntry :=
  .ofFields document (here ++ [t.name]) (Field.outline (here ++ [t.name]) t.fields).1 ::
    (Field.outline (here ++ [t.name]) t.fields).2

/-- The types of templates, and those that are made for their fields. -/
theorem Template.outline_perm (ts : List Template) :
    ((Template.outline here ts).1 ++ (Template.outline here ts).2).Perm
      (ts.flatMap (Template.typeEntries false here)) := by
  rw [Template.outline_eq]
  exact List.map_append_flatMap_perm ts _ _

/-- A type with fields comes with those that are made for the fields. -/
theorem spread_ofFields {fs : List Field} (hnodup : (fs.map (·.name)).Nodup)
    (h : ∀ f ∈ fs, Spread (here ++ [f.name]) (f.typeEntries here)) :
    Spread here (Field.outline here fs).2 ∧ ∀ e ∈ (Field.outline here fs).2, e.site.names ≠ here := by
  rw [Field.outline_eq]
  exact ⟨Spread.flatMap hnodup h, names_ne_of_mem_flatMap h⟩

/-- The types of several templates come with those that are made for their fields. -/
theorem spread_ofTemplates {document : Bool} {ts : List Template} (hnodup : (ts.map (·.name)).Nodup)
    (h : ∀ t ∈ ts, Spread (here ++ [t.name]) (t.typeEntries document here)) {entries : List TypeEntry}
    (hentries : entries.Perm (ts.flatMap (Template.typeEntries document here))) :
    Spread here entries ∧ ∀ e ∈ entries, e.site.names ≠ here :=
  ⟨(Spread.flatMap hnodup h).perm hentries.symm,
    fun e he => names_ne_of_mem_flatMap h e (hentries.mem_iff.mp he)⟩

theorem TypeEntry.site_ne_of_names {d e : TypeEntry} (h : d.site.names ≠ here)
    (he : e.site.names = here) : d.site ≠ e.site := fun heq => h (heq ▸ he)

mutual

/-- **The types that are made for the values at a place are made for different places there.** -/
theorem Kind.spread {here : List String} : ∀ k : Kind, k.Declared names →
    Spread here (k.outline here).2
  | .string, _ => spread_nil
  | .number, _ => spread_nil
  | .boolean, _ => spread_nil
  | .datetime, _ => spread_nil
  | .richText, _ => spread_nil
  | .reference [target], _ => spread_nil
  | .reference [], _ => spread_nil.cons rfl nofun
  | .reference (t :: u :: targets), _ => spread_nil.cons rfl nofun
  | .list items, hk => Kind.spread items hk
  | .object [], _ => spread_nil.cons rfl nofun
  | .object [⟨name, fields⟩], hk => by
    obtain ⟨hspread, hne⟩ := spread_ofFields hk.2.1 (Field.spread fields hk.2.2.1)
    exact hspread.cons rfl fun e he => TypeEntry.site_ne_of_names (hne e he) rfl
  | .object (⟨name, fields⟩ :: u :: templates), hk => by
    have hmembers := Template.spread here false (⟨name, fields⟩ :: u :: templates) hk.2
    obtain ⟨hspread, hne⟩ := spread_ofTemplates hk.1.names hmembers (Template.outline_perm _)
    exact hspread.cons rfl fun e he => TypeEntry.site_ne_of_names (hne e he) rfl

theorem Template.spread (here : List String) (document : Bool) : ∀ ts : List Template,
    Template.AllDeclared names ts →
      ∀ t ∈ ts, Spread (here ++ [t.name]) (t.typeEntries document here)
  | [], _ => nofun
  | ⟨name, fields⟩ :: r, hts => by
    obtain ⟨hnodup, hfields, hrest⟩ := hts
    obtain ⟨hspread, hne⟩ := spread_ofFields hnodup (Field.spread fields hfields)
    have htype := hspread.cons (e := .ofFields document (here ++ [name])
      (Field.outline (here ++ [name]) fields).1) rfl fun e he =>
        TypeEntry.site_ne_of_names (hne e he) rfl
    exact List.forall_mem_cons.mpr ⟨htype, Template.spread here document r hrest⟩

theorem Field.spread {here : List String} : ∀ fs : List Field, Field.AllDeclared names fs →
    ∀ f ∈ fs, Spread (here ++ [f.name]) (f.typeEntries here)
  | [], _ => nofun
  | ⟨_, kind, _, _⟩ :: r, hfs =>
    List.forall_mem_cons.mpr ⟨Kind.spread kind hfs.2.1, Field.spread r hfs.2.2⟩

end

/-! ### Collections -/

/-- The types of a collection are made for different places, all of them below its own. -/
theorem Collection.spread {c : Collection} (hc : c.Declared names) :
    Spread [c.name] c.typeEntries := by
  -- the types for the documents and for the pages are made for the place of the collection itself
  have hboth {e : TypeEntry} (he : e.site = ⟨[c.name], .values⟩) {entries : List TypeEntry}
      (h : Spread [c.name] entries ∧ ∀ d ∈ entries, d.site.names ≠ [c.name]) :
      Spread [c.name] (e :: c.pages :: entries) := by
    have hpages := h.1.cons (e := c.pages) rfl fun d hd => TypeEntry.site_ne_of_names (h.2 d hd) rfl
    refine hpages.cons (by rw [he]) (List.forall_mem_cons.mpr ⟨?_, fun d hd => ?_⟩)
    · rw [he]
      exact ne_of_apply_ne Site.purpose (by decide : Purpose.pages ≠ .values)
    · exact TypeEntry.site_ne_of_names (h.2 d hd) (by rw [he])
  rw [Collection.typeEntries]
  rcases htemplates : c.templates with _ | ⟨t, _ | ⟨u, ts⟩⟩
  · rw [Collection.outline, htemplates]
    exact hboth (e := .ofTemplates [c.name] []) rfl ⟨spread_nil, List.forall_mem_nil _⟩
  · have ht : t ∈ c.templates := htemplates ▸ List.mem_singleton_self t
    obtain ⟨hnodup, hfields⟩ := Template.allDeclared_iff.mp hc.templates t ht
    rw [Collection.outline, htemplates]
    exact hboth (e := .ofFields true [c.name] _) rfl
      (spread_ofFields hnodup (Field.spread t.fields hfields))
  · have hmembers := Template.spread [c.name] true c.templates hc.templates
    have hspread := spread_ofTemplates hc.union.names hmembers (List.map_append_flatMap_perm _ _ _)
    rw [Collection.outline_of_union htemplates]
    refine (hboth (e := .ofTemplates [c.name] c.templates) rfl hspread).perm ?_
    rw [List.cons_append, List.append_assoc]
    exact (List.perm_middle.symm).cons _

/-- **The types of a compiled graph are made for different places.** -/
theorem IsCompiled.nodup_sites {g : Graph} (hg : g.IsCompiled) : g.sites.Nodup := by
  obtain ⟨hnodup, hdeclared⟩ := hg.declared
  have hspread : Spread [] (g.collections.flatMap Collection.typeEntries) :=
    Spread.flatMap hnodup fun c hc => Collection.spread (hdeclared c hc)
  rw [sites, ← List.map_flatMap]
  exact hspread.nodup

/-! ### Names that are defined once -/

variable {g : Graph}

/-- **The types of a compiled graph are defined once if and only if no names collapse.** -/
theorem nodup_definedTypes_iff (hg : g.IsCompiled) :
    (definedTypes (typeText g)).Nodup ↔ ¬ g.Collapses := by
  have hreserved : reservedTypes.Nodup := by decide
  rw [(definedTypes_perm hg.complete).nodup_iff, List.nodup_append',
    List.nodup_map_iff_inj_on hg.nodup_sites, Collapses, not_or]
  constructor
  · rintro ⟨-, hinj, hdisjoint⟩
    refine ⟨?_, ?_⟩
    · rintro ⟨s, hs, t, ht, hne, heq⟩
      exact hne (hinj s hs t ht heq)
    · rintro ⟨s, hs, hmem⟩
      exact hdisjoint hmem (List.mem_map_of_mem hs)
  · rintro ⟨hinj, hfree⟩
    refine ⟨hreserved, fun s hs t ht heq => ?_, fun type htype hmem => ?_⟩
    · by_contra hne
      exact hinj ⟨s, hs, t, ht, hne, heq⟩
    · obtain ⟨s, hs, rfl⟩ := List.mem_map.mp hmem
      exact hfree ⟨s, hs, htype⟩

/-- With a capital, a field of queries is the type that it gives. -/
theorem capitalized_of_mem_queries (hg : ∀ c ∈ g.collections, c.Complete) :
    ∀ f ∈ g.queries, Text.capitalized f.1 = f.2.name := by
  intro f hf
  obtain ⟨c, hc, hf⟩ := List.mem_flatMap.mp hf
  have hplain := Text.plain_of_isName (hg c hc).name
  rcases List.mem_pair.mp hf with rfl | rfl
  · have hname := Text.capitalized_camelCase_append hplain (by decide : Text.capitalized "" = "")
    rw [String.append_empty, String.append_empty] at hname
    show Text.capitalized (queryField c.name) = Site.typeName _
    rw [typeName_values, ownerName_singleton]
    exact hname
  · have hname := Text.capitalized_camelCase_append hplain
      (by decide : Text.capitalized "Connection" = "Connection")
    show Text.capitalized (queryField c.name ++ "Connection") = ownerName [c.name] ++ "Connection"
    rw [ownerName_singleton]
    exact hname

/-- The types that fields of queries give are among those of the places. -/
theorem queries_sublist_sites (g : Graph) :
    (g.queries.map fun f => f.2.name).Sublist (g.sites.map Site.typeName) := by
  rw [queries, sites, List.map_flatMap, List.map_flatMap]
  refine List.Sublist.flatMap_right _ fun c _ => ?_
  obtain ⟨between, later, h⟩ := c.sites_eq
  have hsites :
      [⟨[c.name], .values⟩, ⟨[c.name], .pages⟩].Sublist (c.typeEntries.map TypeEntry.site) := by
    rw [h]
    exact ((List.sublist_append_right ..).trans (List.sublist_append_left ..)).cons_cons _
  exact hsites.map Site.typeName

/-- If no type of a place is named like that of queries, the fields of queries are those for the
collections. -/
theorem queryFields_eq (hg : ∀ c ∈ g.collections, c.Complete)
    (hfree : ∀ s ∈ g.sites, s.typeName ≠ "Query") :
    queryFields (typeText g) = g.queries.map (·.1) := by
  have hnone (e : TypeEntry) (he : e.site ∈ g.sites) : e.declaration.queries = [] := by
    cases e with
    | union => rfl
    | object site fields => exact if_neg (hfree site he)
  have hentries (entries : List TypeEntry) (h : ∀ e ∈ entries, e ∈ g.outline ++ g.laterOutline) :
      (entries.map TypeEntry.declaration).flatMap Declaration.queries = [] := by
    rw [List.flatMap_map, List.flatMap_eq_nil_iff]
    intro e he
    exact hnone e ((outline_perm_sites g).mem_iff.mp (List.mem_map_of_mem (h e he)))
  rw [queryFields, declarations_typeText hg]
  simp only [List.flatMap_append, hentries g.outline fun e => List.mem_append_left _,
    hentries g.laterOutline fun e => List.mem_append_right _]
  simp [Declaration.queries, Function.comp_def]

/-- **If no names collapse, the fields of queries are defined once.** -/
theorem nodup_queryFields (hg : g.IsCompiled) (hfree : ¬ g.Collapses) :
    (queryFields (typeText g)).Nodup := by
  have hcomplete := hg.complete
  have hquery : ∀ s ∈ g.sites, s.typeName ≠ "Query" := by
    intro s hs hname
    refine hfree (Or.inr ⟨s, hs, ?_⟩)
    rw [hname]
    decide
  have htypes : (g.queries.map fun f => f.2.name).Nodup := by
    have hall := (definedTypes_perm hcomplete).nodup_iff.mp ((nodup_definedTypes_iff hg).mpr hfree)
    exact (queries_sublist_sites g).nodup (List.nodup_append'.mp hall).2.1
  have hcapitals :
      (g.queries.map (·.1)).map Text.capitalized = g.queries.map fun f => f.2.name := by
    rw [List.map_map]
    exact List.map_congr_left (capitalized_of_mem_queries hcomplete)
  -- fields of one name would have types of one name
  rw [queryFields_eq hcomplete hquery]
  refine List.Nodup.of_map Text.capitalized ?_
  rwa [hcapitals]

/-- **The text of a compiled graph is closed, and it is unambiguous if and only if no names
collapse.** Every type of a field, every member of a union and every result of a query is defined in
the text or is one of the scalars that every schema has. All types are defined once, and so are the
fields of queries, unless two places of the graph give their types one name or the type of a place
takes a name that is there in any case. -/
theorem isClosed_and_isUnambiguous_iff (hg : g.IsCompiled) :
    IsClosed (typeText g) ∧ (IsUnambiguous (typeText g) ↔ ¬ g.Collapses) := by
  refine ⟨isClosed_typeText hg, ?_⟩
  constructor
  · intro h
    exact (nodup_definedTypes_iff hg).mp h.1
  · intro h
    exact ⟨(nodup_definedTypes_iff hg).mpr h, nodup_queryFields hg h⟩

/-- Posts with authors, and authors who are persons or groups. -/
def masthead : Schema :=
  ⟨[⟨"posts", "/posts/", none, some ".json", false, none,
      [.mk "author" (.mk .reference false none ["authors"] none [] []),
        .mk "rows" (.mk .list false none [] (some (.shaped (.mk .object false none [] none []
          [.mk "quote" [.mk "by" (.mk .reference true none ["authors", "posts"] none [] [])],
            .mk "picture" [.mk "alt" (.mk .string false none [] none [] [])]]))) [] [])], []⟩,
    ⟨"authors", "/authors/", none, some ".json", false, none, [],
      [.mk "person" [.mk "born" (.mk .datetime true none [] none [] [])],
        .mk "group" [.mk "size" (.mk .number false none [] none [] [])]]⟩]⟩

/-- What they are compiled to. -/
def mastheadGraph : Graph :=
  .ofCollections
    [⟨"posts", "posts", none, some "json", false, none,
        [⟨"posts", [⟨"author", .reference ["authors"], false, false⟩,
          ⟨"rows", .list (.object
            [⟨"quote", [⟨"by", .reference ["authors", "posts"], true, false⟩]⟩,
              ⟨"picture", [⟨"alt", .string, false, true⟩]⟩]), false, false⟩]⟩]⟩,
      ⟨"authors", "authors", none, some "json", false, none,
        [⟨"person", [⟨"born", .datetime, true, true⟩]⟩,
          ⟨"group", [⟨"size", .number, false, true⟩]⟩]⟩]

/-- The types of posts and authors have names of their own. -/
theorem isClosed_and_isUnambiguous_iff_masthead :
    mastheadGraph.IsCompiled ∧ ¬ mastheadGraph.Collapses ∧
    IsClosed (typeText mastheadGraph) ∧ IsUnambiguous (typeText mastheadGraph) := by
  have hcompiled : mastheadGraph.IsCompiled := ⟨masthead, rfl⟩
  have hfree : ¬ mastheadGraph.Collapses := by decide +kernel
  obtain ⟨hclosed, hiff⟩ := isClosed_and_isUnambiguous_iff hcompiled
  exact ⟨hcompiled, hfree, hclosed, hiff.mpr hfree⟩

/-- Two collections whose names are different in a capital only. -/
def twins : Schema :=
  ⟨[⟨"posts", "/posts/", none, none, false, none,
      [.mk "title" (.mk .string false none [] none [] [])], []⟩,
    ⟨"Posts", "/drafts/", none, none, false, none,
      [.mk "title" (.mk .string false none [] none [] [])], []⟩]⟩

/-- What they are compiled to. -/
def twinsGraph : Graph :=
  .ofCollections
    [⟨"posts", "posts", none, none, false, none, [⟨"posts", [⟨"title", .string, false, true⟩]⟩]⟩,
      ⟨"Posts", "drafts", none, none, false, none, [⟨"Posts", [⟨"title", .string, false, true⟩]⟩]⟩]

/-- **The text of a compiled graph may define a type twice, and give queries a field twice.** -/
theorem exists_compiled_ambiguous : ∃ g : Graph, g.IsCompiled ∧
    ¬ (definedTypes (typeText g)).Nodup ∧ ¬ (queryFields (typeText g)).Nodup := by
  have hcompiled : twinsGraph.IsCompiled := ⟨twins, rfl⟩
  have hcollapses : twinsGraph.Collapses := by decide +kernel
  refine ⟨twinsGraph, hcompiled, fun h => (nodup_definedTypes_iff hcompiled).mp h hcollapses, ?_⟩
  rw [queryFields_eq hcompiled.complete (by decide +kernel)]
  decide +kernel

end Graph

end ContentIndex
