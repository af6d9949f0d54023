import ContentIndex.Proofs.References

/-!
# References and the edges of the graph

A graph tells for each collection which fields may refer to it. That is found in the declarations,
before there is any document. The references that are stored are found in the values, and their
fields are named on the way through lists and objects. Both walks name the fields alike, so whatever
refers to a collection is a field that the graph has announced.

## Main results

* `Graph.mem_referencedBy_iff`: what a graph announces is what its collections declare
* `FieldValue.Conforms.mem_targets`: **the references in a value are targets of its kind**
* `Graph.Collection.announced_of_record`: **the graph announces the references of each record**
* `Database.Built.exists_announced`: so it does for the references in an index
-/

namespace ContentIndex

namespace Graph

/-! ### What a graph announces -/

theorem Edge.mem_insert {d e : Edge} {es : List Edge} : d ∈ e.insert es ↔ d = e ∨ d ∈ es := by
  induction es with
  | nil => simp [Edge.insert]
  | cons a es ih =>
    unfold Edge.insert
    split
    · next heq =>
      subst heq
      simp
    · split
      · simp
      · simp [ih, or_left_comm]

/-- Sorting edges by their target keeps all of them. -/
theorem mem_foldl_insert_iff {edges : List (String × Edge)} {target : String} {e : Edge} :
    e ∈ (Entries.find? target (edges.foldl (fun m (target, e) =>
      Entries.insert target (e.insert ((Entries.find? target m).getD [])) m) [])).getD [] ↔
      (target, e) ∈ edges := by
  -- the last edge is put in last, and touches the edges of its own target only
  induction edges using List.reverseRecOn with
  | nil => simp [Entries.find?]
  | append_singleton edges d ih =>
    obtain ⟨there, d⟩ := d
    rw [List.foldl_append, List.foldl_cons, List.foldl_nil, Entries.find?_insert]
    rw [List.mem_append, List.mem_singleton, ← ih]
    by_cases htarget : target = there
    · subst htarget
      rw [if_pos rfl, Option.getD_some, Edge.mem_insert, or_comm, Prod.mk.injEq, and_iff_right rfl]
    · rw [if_neg htarget, or_iff_left fun heq => htarget (Prod.mk.inj heq).1]

/-- **What a graph announces is what its collections declare.** -/
theorem mem_referencedBy_iff {G : Graph} {target : String} {e : Edge} :
    e ∈ G.referencedBy target ↔ ∃ c ∈ G.collections, (target, e) ∈ c.edges := by
  rw [referencedBy, reverseEdges, mem_foldl_insert_iff, List.mem_flatMap]

theorem Field.mem_targets_iff {fs : List Field} {path : String} {x : String × String} :
    x ∈ Field.targets path fs ↔ ∃ f ∈ fs, x ∈ f.kind.targets (path ++ "." ++ f.name) := by
  induction fs with
  | nil => simp [Field.targets]
  | cons f fs ih =>
    obtain ⟨name, kind, required, indexed⟩ := f
    simp [Field.targets, ih]

theorem Template.mem_targets_iff {ts : List Template} {path : String} {x : String × String} :
    x ∈ Template.targets path ts ↔
      ∃ t ∈ ts, ∃ f ∈ t.fields, x ∈ f.kind.targets (path ++ "." ++ f.name) := by
  induction ts with
  | nil => simp [Template.targets]
  | cons t ts ih =>
    obtain ⟨name, fields⟩ := t
    simp [Template.targets, Field.mem_targets_iff, ih]

end Graph

/-! ### References in values -/

/-- **The references in a value are targets of its kind**, and both are named alike. -/
theorem FieldValue.Conforms.mem_targets {G : Graph} {v : FieldValue} {k : Graph.Kind}
    (h : v.Conforms G k) {path field target : String} {t : Target}
    (href : (field, t) ∈ v.references path) (htarget : t.collection = some target) :
    (target, field) ∈ k.targets path := by
  induction h generalizing path with
  | string | number | boolean | datetime | richText => cases href
  | @reference t' targets points =>
    rw [references, List.mem_singleton] at href
    cases href
    obtain ⟨before, after, rfl, -⟩ := points.collection target htarget
    rw [Graph.Kind.targets]
    exact List.mem_map_of_mem (List.mem_append_right _ (List.mem_cons_self ..))
  | list all ih =>
    -- the items of a list share the path of the list
    obtain ⟨v, hv, href⟩ := mem_references_list.mp href
    exact ih v hv href
  | object template sorted declared required values ih =>
    obtain ⟨x, hx, href⟩ := mem_references_object.mp href
    obtain ⟨f, hf⟩ := Option.isSome_iff_exists.mp (declared x hx)
    have hmember := ih x hx f hf href
    rw [← eq_of_find?_name hf] at hmember
    rw [Graph.Kind.targets, Graph.Template.mem_targets_iff]
    exact ⟨_, template, f, List.mem_of_find?_eq_some hf, hmember⟩

/-- The references in a record are edges of its collection. -/
theorem Record.Conforms.mem_edges {G : Graph} {c : Graph.Collection} {r : Record}
    (h : r.Conforms G c) {field target : String} {t : Target} (href : (field, t) ∈ r.references)
    (htarget : t.collection = some target) : (target, ⟨c.name, r.template, field⟩) ∈ c.edges := by
  obtain ⟨x, hx, href⟩ := List.mem_flatMap.mp href
  unfold Record.Conforms at h
  generalize hname : r.template = template at h
  cases h with
  | @object _ u _ template sorted declared required values =>
    obtain ⟨f, hf⟩ := Option.isSome_iff_exists.mp (declared x hx)
    have hfield := (values x hx f hf).mem_targets href htarget
    rw [← eq_of_find?_name hf] at hfield
    refine List.mem_flatMap.mpr ⟨u, template, List.mem_flatMap.mpr ⟨f, ?_, ?_⟩⟩
    · exact List.mem_of_find?_eq_some hf
    · exact List.mem_map.mpr ⟨_, hfield, rfl⟩

namespace Graph

variable {G : Graph} {c : Collection} {r : Record}

theorem mem_referencedBy_of_conforms (hc : c ∈ G.collections) (h : r.Conforms G c)
    {field target : String} {t : Target} (href : (field, t) ∈ r.references)
    (htarget : t.collection = some target) :
    ⟨c.name, r.template, field⟩ ∈ G.referencedBy target :=
  mem_referencedBy_iff.mpr ⟨c, hc, h.mem_edges href htarget⟩

/-- **The graph announces the references of each record**, and with them what is stored of the record
for lookups of references. -/
theorem Collection.announced_of_record (hG : G.IsCompiled) (hc : c ∈ G.collections)
    {policy : TemplatePolicy} {path contentHash : String} {document : Json.Value}
    {ws : List Warning} (h : c.record G policy path contentHash document = .ok (r, ws)) :
    (∀ field t target, (field, t) ∈ r.references → t.collection = some target →
      ⟨c.name, r.template, field⟩ ∈ G.referencedBy target) ∧
    ∀ (g : Generation) (e : Entry), e ∈ r.entries g c → Key.Family.start g .backlink <+: e.1 →
      ∃ field target p, e.1 = (Key.backlink g target p ⟨c.name, path, field⟩).encode ∧
        ⟨c.name, r.template, field⟩ ∈ G.referencedBy target := by
  have hconforms := conforms_of_record (hG.declared.2 c hc) h
  obtain ⟨hname, hpath, -⟩ := eq_of_record h
  constructor
  · intro field t target href htarget
    exact mem_referencedBy_of_conforms hc hconforms href htarget
  · intro g e he hfamily
    -- neither the record itself nor its places in orders are stored for lookups of references
    rcases Record.mem_entries he with rfl | he | he
    · cases Key.Family.eq_of_start (Key.document_starts r.collection r.path) hfamily rfl
    · exact absurd (Or.inr hfamily) (Record.not_outlined_of_mem_sortEntries he)
    · simp only [Record.backlinkEntries, List.mem_filterMap, Option.map_eq_some_iff] at he
      obtain ⟨⟨field, t⟩, href, target, htarget, rfl⟩ := he
      refine ⟨field, target, t.path, by rw [hname, hpath], ?_⟩
      exact mem_referencedBy_of_conforms hc hconforms href htarget

/-- Issues made of parts in groups; a part may be taken from another issue. -/
def issues : Collection :=
  ⟨"issues", "issues", none, none, false, none,
    [⟨"issue", [⟨"groups", .list (.list (.object
      [⟨"text", [⟨"body", .string, true, true⟩, ⟨"from", .reference ["issues"], false, false⟩]⟩,
        ⟨"image", [⟨"file", .string, true, true⟩]⟩])), false, false⟩]⟩]⟩

theorem issues_compiled : (ofCollections [issues]).IsCompiled :=
  ⟨⟨[⟨"issues", "issues", none, none, false, none, [],
    [.mk "issue" [.mk "groups" (.mk .list false none [] (some (.shaped (.mk .list false none []
      (some (.shaped (.mk .object false none [] none []
        [.mk "text" [.mk "body" (.mk .string true none [] none [] []),
            .mk "from" (.mk .reference false none ["issues"] none [] [])],
          .mk "image" [.mk "file" (.mk .string true none [] none [] [])]])))
      [] []))) [] [])]]⟩]⟩, rfl⟩

/-- An issue with one group, of an image and of a text from another issue. -/
def secondIssue : Json.Value :=
  .object [("groups", .array [.array [.object [("file", .string "a.png")],
    .object [("body", .string "hi"), ("from", .string "./issues/1.json")]]])]

/-- The reference of the text is announced as one of the field `groups.from`. -/
theorem Collection.announced_of_record_issues : ∃ r ws,
    issues.record (ofCollections [issues]) .firstMatch "issues/2.json" "" secondIssue = .ok (r, ws) ∧
      ("groups.from", ⟨some "issues", "issues/1.json"⟩) ∈ r.references ∧
      ⟨"issues", r.template, "groups.from"⟩ ∈ (ofCollections [issues]).referencedBy "issues" := by
  have hcheck : (issues.record (ofCollections [issues]) .firstMatch "issues/2.json" ""
      secondIssue).toOption.any (fun x =>
        x.1.references = [("groups.from", ⟨some "issues", "issues/1.json"⟩)]) := by
    decide +kernel
  cases hmade : issues.record (ofCollections [issues]) .firstMatch "issues/2.json" "" secondIssue with
  | error skip =>
    rw [hmade] at hcheck
    cases hcheck
  | ok x =>
    rw [hmade] at hcheck
    obtain ⟨r, ws⟩ := x
    have href : r.references = [("groups.from", ⟨some "issues", "issues/1.json"⟩)] := by
      simpa [Except.toOption] using hcheck
    have hmem : ("groups.from", ⟨some "issues", "issues/1.json"⟩) ∈ r.references := by simp [href]
    have hannounced := announced_of_record issues_compiled (List.mem_singleton_self issues) hmade
    exact ⟨r, ws, rfl, hmem, hannounced.1 _ _ _ hmem rfl⟩

end Graph

/-! ### References in an index -/

namespace Database

/-- **Whatever refers to a document in an index is announced by the graph.** -/
theorem Built.exists_announced {db : Database} {U : Set Bytes} {s : Store}
    (hG : db.graph.IsCompiled) (h : db.Built U s) :
    ∃ g, s.Presents g db.graph ∧ ∀ k v, s.get? k = some v → Key.Family.start g .backlink <+: k →
      ∃ target p source template, k = (Key.backlink g target p source).encode ∧
        ⟨source.collection, template, source.field⟩ ∈ db.graph.referencedBy target := by
  obtain ⟨g, D, htells⟩ := h.exists_tells hG
  refine ⟨g, htells.presents, fun k v hv hfamily => ?_⟩
  obtain ⟨r, hr, hentry⟩ := (htells.outlines k (Or.inr hfamily) v).mp hv
  have hmade := htells.makes r hr
  obtain ⟨field, target, p, href, rfl⟩ :=
    (Graph.mem_keys_iff_of_backlink hG (hmade.locates hG) hfamily).mp ⟨v, hentry⟩
  obtain ⟨-, c, hc, content, -, ws, hrecord⟩ := hmade
  refine ⟨target, p, _, r.template, rfl, ?_⟩
  rw [(eq_of_record hrecord).1]
  exact Graph.mem_referencedBy_of_conforms hc (conforms_of_record hG hc hrecord) href rfl

end Database

end ContentIndex
