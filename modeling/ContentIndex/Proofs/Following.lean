import ContentIndex.Proofs.Lookup
import ContentIndex.Proofs.Outline
import ContentIndex.Proofs.Ownership

/-!
# Following references

A reference was bound to a collection when its document was indexed: to the first one that its field
allows and that has the path. The document that it names is stored under the collection that the
path belongs to, the first one of the graph that has it. Where collections overlap these need not be
the same. A reference reaches its document if and only if no other collection that has the path too
comes before the owner in the order of the field; otherwise the document is missed, though it is
there.

## Main definitions

* `FieldValue.Cites`, `Record.Cites`: the references in a value and in a record, by the kinds
* `Graph.Shadows`: another collection comes first
* `Snapshot.Reaches`, `Snapshot.Misses`: what is shown of a reference

## Main results

* `Record.Resembles.points`: the references of a record that is read back are bound to collections
* `Graph.reaches_iff_not_shadows`: **a reference reaches its document unless another collection
  comes first**
-/

namespace ContentIndex

open Graph (Kind Template)

/-! ### The references in a record -/

/-- The value holds a reference to the target, in a place for references into the given
collections. -/
inductive FieldValue.Cites (targets : List String) (t : Target) : Kind → FieldValue → Prop
  /-- The value is the reference. -/
  | here : Cites targets t (.reference targets) (.reference t)
  /-- The reference is in an item of the list. -/
  | item {k : Kind} {v : FieldValue} {vs : List FieldValue} (hv : v ∈ vs)
    (h : Cites targets t k v) : Cites targets t (.list k) (.list vs)
  /-- The reference is in a field of the object. -/
  | member {templates : List Template} {template name : String}
    {fields : List (String × FieldValue)} {k : Kind} {v : FieldValue}
    (hv : (Composite.ofObject templates template fields).field? name = some (k, v))
    (h : Cites targets t k v) : Cites targets t (.object templates) (.object template fields)

/-- The record of the collection holds a reference to the target, in a place for references into the
given collections. -/
def Record.Cites (c : Graph.Collection) (r : Record) (targets : List String) (t : Target) : Prop :=
  (FieldValue.object r.template r.fields).Cites targets t (.object c.templates)

variable {G : Graph} {names targets : List String} {t : Target}

/-- The references in a value that conforms to its kind are bound to collections, and so are those
in an echo of the value. -/
theorem FieldValue.Cites.points {k : Kind} {v w : FieldValue} (h : v.Cites targets t k)
    (hecho : v.Echoes w) (hw : w.Conforms G k) (hk : k.Declared names) : G.Points targets t := by
  induction h generalizing w with
  | here =>
    cases hecho with
    | reference =>
      cases hw with
      | reference points => exact points
    | plain _ other => exact absurd rfl other.2.2
  | item hv h ih =>
    cases hecho with
    | list items =>
      cases hw with
      | list all =>
        obtain ⟨w, hw, hecho⟩ := items.exists_of_mem hv
        exact ih hecho (all w hw) hk
    | plain _ other => exact absurd rfl other.1
  | @member templates template name fields k v hv h ih =>
    cases hecho with
    | object _ fields =>
      simp only [Composite.field?, Option.bind_eq_bind, Option.bind_eq_some_iff] at hv
      obtain ⟨u, hu, f, hf, v', hv', heq⟩ := hv
      cases heq
      cases hw with
      | @object _ u' _ template sorted declared required values =>
        obtain ⟨w, hw, hecho⟩ := fields.exists_of_find? hv'
        obtain rfl : u = u' := by
          have hfound := find?_name_eq hk.1.names template
          exact Option.some.inj (hu.symm.trans hfound)
        have hmem : f ∈ u.fields := List.mem_of_find?_eq_some hf
        have hdeclared := (Graph.Template.allDeclared_iff.mp hk.2 u template).2
        exact ih hecho (values _ ((Entries.find?_eq_some_iff sorted).mp hw) f hf)
          (Graph.Field.allDeclared_iff.mp hdeclared f hmem).2
    | plain _ other => exact absurd rfl other.2.1

/-- **The references of a record that is read back are bound to collections.** -/
theorem Record.Resembles.points {c : Graph.Collection} {r r' : Record} (h : r'.Resembles r)
    (hc : c.Declared names) (hr : r.Conforms G c) (hcites : r'.Cites c targets t) :
    G.Points targets t := by
  unfold Record.Conforms at hr
  rw [← h.template] at hr
  exact FieldValue.Cites.points hcites (.object _ h.fields) hr ⟨hc.union, hc.templates⟩

/-! ### The collection of a reference -/

namespace Graph

variable {o : Collection}

/-- Before the collection that the path belongs to, the field allows another one that has the
path. -/
def Shadows (G : Graph) (targets : List String) (o : Collection) (path : String) : Prop :=
  ∃ n ∈ targets.takeWhile (· ≠ o.name), G.Has path n

/-- **A reference is bound to the owner of its path unless another collection comes first.** -/
theorem Points.exists_collection (hG : G.IsCompiled) (h : G.Points targets t)
    (howner : G.owner? t.path = some o) (hallowed : o.name ∈ targets) :
    ∃ c ∈ G.collections, t.collection = some c.name ∧ c.name ∈ targets ∧
      (c = o ↔ ¬ G.Shadows targets o t.path) := by
  have hhas : G.Has t.path o.name :=
    ⟨o, hG.collection?_eq (mem_of_owner? howner),
      List.find?_some (p := fun d : Collection => d.containsPath t.path) howner⟩
  cases hcollection : t.collection with
  | none => exact absurd hhas (h.absent hcollection o.name hallowed)
  | some name =>
    obtain ⟨before, after, rfl, ⟨c, hc, hcontains⟩, hbefore⟩ := h.collection name hcollection
    obtain rfl : c.name = name := eq_of_find?_name hc
    -- the owner has the path, so it does not come before the collection
    have hpass : ∀ n ∈ before, (n ≠ o.name : Bool) := by
      intro n hn
      rw [decide_eq_true_eq]
      rintro rfl
      exact hbefore _ hn hhas
    refine ⟨c, List.mem_of_find?_eq_some hc, rfl, by simp, ?_⟩
    rw [Shadows, List.takeWhile_append_of_pos hpass]
    constructor
    · rintro rfl ⟨n, hn, hhas'⟩
      refine hbefore n ?_ hhas'
      simpa using hn
    · intro hnot
      by_contra hne
      refine hnot ⟨c.name, ?_, c, hc, hcontains⟩
      have hname : c.name ≠ o.name := fun heq => hne <| List.inj_on_of_nodup_map hG.names.2
        (List.mem_of_find?_eq_some hc) (mem_of_owner? howner) heq
      simp [hname]

end Graph

/-! ### What is shown of a reference -/

section Showing

open Json (Value)

variable {s : Store}

namespace Snapshot

variable {x : Snapshot} {c : Graph.Collection}

/-- What is shown of the document of a collection. -/
def shown (x : Snapshot) (c : Graph.Collection) (path : String) (inner : Selection)
    (here : String) : Projecting Value := do
  match ← (x.record? c.name path : Failing QueryError _) with
  | some r => inner.project x (.ofRecord c r) here
  | none => throw (.notFound c.name path)

/-- A selection in the reference shows the document of the collection, and notes nothing itself. -/
def Reaches (x : Snapshot) (s : Store) (targets : List String) (t : Target)
    (c : Graph.Collection) : Prop :=
  ∀ inner : Selection, inner.isEmpty = false → ∀ here ws,
    Failing.on s ((inner.visit x (.reference targets) (.reference t) here).run ws) =
      Failing.on s ((x.shown c t.path inner here).run ws)

/-- A selection in the reference shows nothing, and notes that the reference leads nowhere. -/
def Misses (x : Snapshot) (s : Store) (targets : List String) (t : Target) : Prop :=
  ∀ inner : Selection, inner.isEmpty = false → ∀ here ws, ∃ n,
    Failing.on s ((inner.visit x (.reference targets) (.reference t) here).run ws) =
      some (.ok (.null, ws ++ [⟨here, n, t.path⟩]))

theorem visit_eq (hc : x.graph.collection? c.name = some c) (hcollection : t.collection = some c.name)
    (hallowed : c.name ∈ targets) {inner : Selection} (hinner : inner.isEmpty = false)
    (here : String) :
    inner.visit x (.reference targets) (.reference t) here =
      (liftM (liftM (x.record? c.name t.path) : Failing QueryError _) : Projecting _) >>= fun
        | some r => inner.project x (.ofRecord c r) here
        | none => modify (· ++ [⟨here, c.name, t.path⟩]) >>= fun _ => pure .null := by
  have hfound : (t.collection.filter targets.contains).bind x.graph.collection? = some c := by
    rw [hcollection, Option.filter_some, if_pos (List.contains_iff_mem.mpr hallowed)]
    exact hc
  rw [Selection.visit, hinner, follow, hfound]
  simp only [Bool.false_eq_true, if_false, bind_assoc]
  refine bind_congr fun r => ?_
  cases r <;> simp

/-- A reference whose document is stored under its collection reaches it. -/
theorem reaches_of_stored (hc : x.graph.collection? c.name = some c)
    (hcollection : t.collection = some c.name) (hallowed : c.name ∈ targets) {v : Bytes}
    (hstored : s.get? (x.key c.name t.path) = some v) : x.Reaches s targets t c := by
  intro inner hinner here ws
  rw [visit_eq hc hcollection hallowed hinner, shown, Projecting.on_lift_bind,
    Projecting.on_lift_bind, Failing.on_storage, on_record? hstored, Record.ofStored?]
  split <;> rfl

/-- A reference whose document is not stored under its collection misses it. -/
theorem misses_of_not_stored (hc : x.graph.collection? c.name = some c)
    (hcollection : t.collection = some c.name) (hallowed : c.name ∈ targets)
    (hstored : s.get? (x.key c.name t.path) = none) : x.Misses s targets t := by
  intro inner hinner here ws
  refine ⟨c.name, ?_⟩
  rw [visit_eq hc hcollection hallowed hinner, Projecting.on_lift_bind, Failing.on_storage,
    on_record? hstored]
  rfl

/-- A projection shows an object. -/
theorem on_project_ne_null (inner : Selection) (d : Composite) (here : String)
    (ws ws' : List Dangling) :
    Failing.on s ((inner.project x d here).run ws) ≠ some (.ok (.null, ws')) := by
  have hobject {α : Type} (u : Projecting α) (f : α → List (String × Value)) :
      Failing.on s ((u >>= fun a => pure (d.withTemplate (f a))).run ws) ≠
        some (.ok (.null, ws')) := by
    intro h
    replace h : Failing.on s (u.run ws >>= fun r => pure (d.withTemplate (f r.1), r.2)) =
      some (.ok (.null, ws')) := h
    rw [Failing.on_bind] at h
    obtain ⟨r, -, hr⟩ := Option.bind_eq_some_iff.mp h
    cases r with
    | error e => cases hr
    | ok r =>
      have hnull : d.withTemplate (f r.1) = .null :=
        (Prod.mk.inj (Except.ok.inj (Option.some.inj hr))).1
      unfold Composite.withTemplate at hnull
      split at hnull <;> cases hnull
  cases inner with
  | mk fields =>
    rw [Selection.project]
    split
    · exact hobject (pure ()) fun _ => FieldValue.fieldsToJson d.fields
    · exact hobject _ Entries.ofList

/-- Who misses a document that is stored does not reach it. -/
theorem Misses.not_reaches (h : x.Misses s targets t) {v : Bytes}
    (hstored : s.get? (x.key c.name t.path) = some v) : ¬ x.Reaches s targets t c := by
  intro hreaches
  obtain ⟨n, hmisses⟩ := h (.mk [("", .empty)]) rfl "" []
  rw [hreaches _ rfl, shown, Projecting.on_lift_bind, Failing.on_storage, on_record? hstored,
    Record.ofStored?] at hmisses
  split at hmisses
  · exact on_project_ne_null _ _ _ _ _ hmisses
  · cases hmisses

end Snapshot

end Showing

/-! ### References of indexed documents -/

namespace Graph

section Runs

variable {ι : Type} [DecidableEq ι] {runs : ι → Run} {trace : Trace ι}
  {w : World ι (Except IndexError Report)} {g : Generation} {c d o : Collection} {p : String}
  {r : Record}

/-- The references of a document that is found in an index are bound to collections. -/
theorem points_of_found (hG : G.IsCompiled) (hruns : ∀ i, (runs i).database.graph = G)
    (run : Interleaving (fun i => (runs i).program) OrderedMap.empty trace w)
    (hc : c ∈ G.collections)
    (hr : (Snapshot.record? ⟨G, g⟩ c.name p).on w.store = some (.ok (some r)))
    (hcites : r.Cites c targets t) : G.Points targets t := by
  rw [Snapshot.on_record? rfl] at hr
  have hread := Option.some.inj hr
  cases hv : w.store.get? (Key.document g c.name p).encode with
  | none =>
    rw [Snapshot.key, hv] at hread
    cases hread
  | some v =>
    obtain ⟨r₀, rfl, -, hmakes⟩ := exists_makes_of_get? hG hruns run hc hv
    obtain ⟨db, rfl, content, ws, hrecord⟩ := hmakes.made
    have hresembles : r.Resembles r₀ := by
      rw [Snapshot.key, hv, Record.ofStored?] at hread
      split at hread
      · next r' hr' =>
        cases hread
        exact Record.resembles_of_ofBytes? hr' (Database.ordered_of_record hG hc hrecord)
      · cases hread
    exact hresembles.points (hG.declared.2 c hc) (Database.conforms_of_record hG hc hrecord) hcites

/-- **A reference reaches its document unless another collection comes first.** Whatever rebuilds
and updates of databases of the graph have shared a store, let a document that is found there refer
to a path in a place where the owner of the path is allowed, and let that path be stored too. Then a
selection in the reference shows the document of the path, if and only if no other collection that
has the path comes before the owner in the order of the field. Otherwise nothing is shown, and it is
noted that the reference leads nowhere. -/
theorem reaches_iff_not_shadows (hG : G.IsCompiled) (hruns : ∀ i, (runs i).database.graph = G)
    (run : Interleaving (fun i => (runs i).program) OrderedMap.empty trace w)
    (hc : c ∈ G.collections)
    (hr : (Snapshot.record? ⟨G, g⟩ c.name p).on w.store = some (.ok (some r)))
    (hcites : r.Cites c targets t) (howner : G.owner? t.path = some o)
    (hallowed : o.name ∈ targets) (hd : d ∈ G.collections)
    (hstored : w.store.get? (Key.document g d.name t.path).encode ≠ none) :
    (Snapshot.Reaches ⟨G, g⟩ w.store targets t o ↔ ¬ G.Shadows targets o t.path) ∧
      (G.Shadows targets o t.path → Snapshot.Misses ⟨G, g⟩ w.store targets t) := by
  have hpoints := points_of_found hG hruns run hc hr hcites
  obtain ⟨b, hb, hcollection, hbound, hiff⟩ := hpoints.exists_collection hG howner hallowed
  have hfound := hG.collection?_eq hb
  -- the path is stored under its owner only
  have hunder {d : Collection} {v : Bytes} (hd : d ∈ G.collections)
      (hv : w.store.get? (Key.document g d.name t.path).encode = some v) : d = o := by
    obtain ⟨r', -, hpath, hmakes⟩ := exists_makes_of_get? hG hruns run hd hv
    exact Option.some.inj (hmakes.owner.symm.trans (hpath ▸ howner))
  obtain ⟨v, hv⟩ := Option.ne_none_iff_exists'.mp hstored
  obtain rfl := hunder hd hv
  have hmisses (hshadows : G.Shadows targets d t.path) :
      Snapshot.Misses ⟨G, g⟩ w.store targets t := by
    refine Snapshot.misses_of_not_stored hfound hcollection hbound ?_
    by_contra hne
    obtain ⟨v', hv'⟩ := Option.ne_none_iff_exists'.mp hne
    exact hiff.mp (hunder hb hv') hshadows
  refine ⟨⟨fun hreaches hshadows => ?_, fun hnot => ?_⟩, hmisses⟩
  · exact (hmisses hshadows).not_reaches hv hreaches
  · obtain rfl := hiff.mpr hnot
    exact Snapshot.reaches_of_stored hfound hcollection hbound hv

end Runs

/-! ### Fields in declaration order -/

theorem takeWhile_subset_of_sublist {a : String} {l l' : List String} (h : l.Sublist l')
    (hnodup : l'.Nodup) (ha : a ∈ l) : l.takeWhile (· ≠ a) ⊆ l'.takeWhile (· ≠ a) := by
  induction h with
  | slnil => cases ha
  | @cons l l' b h ih =>
    obtain ⟨hb, hnodup⟩ := List.nodup_cons.mp hnodup
    have hne : b ≠ a := fun heq => hb (heq ▸ h.subset ha)
    rw [List.takeWhile_cons_of_pos (by simpa using hne)]
    exact List.subset_cons_of_subset _ (ih hnodup ha)
  | @cons_cons l l' b h ih =>
    by_cases hb : b = a
    · simp [hb]
    · have ha : a ∈ l := (List.mem_cons.mp ha).resolve_left (Ne.symm hb)
      rw [List.takeWhile_cons_of_pos (by simpa using hb),
        List.takeWhile_cons_of_pos (by simpa using hb)]
      exact List.cons_subset_cons _ (ih (List.nodup_cons.mp hnodup).2 ha)

/-- **Nothing comes before the owner if the field has its collections in declaration order.** -/
theorem not_shadows_of_sublist (hG : G.IsCompiled)
    (h : targets.Sublist (G.collections.map (·.name))) {o : Collection} {path : String}
    (howner : G.owner? path = some o) (hallowed : o.name ∈ targets) :
    ¬ G.Shadows targets o path := by
  rintro ⟨n, hn, c, hc, hcontains⟩
  obtain ⟨-, before, after, hsplit, hbefore⟩ := List.find?_eq_some_iff_append.mp howner
  have hnodup := hG.names.2
  have hmem := takeWhile_subset_of_sublist h hnodup hallowed hn
  rw [hsplit, List.map_append, List.map_cons] at hnodup hmem
  have hpass : ∀ m ∈ before.map (·.name), (m ≠ o.name : Bool) := fun m hm => by
    simpa using (List.nodup_append.mp hnodup).2.2 m hm o.name (List.mem_cons_self ..)
  rw [List.takeWhile_append_of_pos hpass] at hmem
  obtain ⟨b, hb, rfl⟩ : ∃ b ∈ before, b.name = n := by simpa using hmem
  obtain rfl : b = c := by
    have hmem : b ∈ G.collections := hsplit ▸ List.mem_append_left _ hb
    exact Option.some.inj ((hG.collection?_eq hmem).symm.trans hc)
  exact absurd hcontains (by simpa using hbefore b hb)

end Graph

/-! ### A path of two collections -/

namespace Following

/-- The posts of a blog, which lies among the documents. -/
def blog : Graph.Collection :=
  ⟨"blog", "docs/blog", none, none, false, none,
    [⟨"blog", [⟨"title", .string, false, true⟩]⟩]⟩

/-- Documents, which refer to others in two fields. -/
def docs : Graph.Collection :=
  ⟨"docs", "docs", none, none, false, none,
    [⟨"docs", [⟨"next", .reference ["docs", "blog"], false, false⟩,
      ⟨"prev", .reference ["blog", "docs"], false, false⟩]⟩]⟩

/-- A database of posts and documents. -/
def site : Database := ⟨.ofCollections [blog, docs], {}, "body"⟩

theorem site_compiled : site.graph.IsCompiled :=
  ⟨⟨[⟨"blog", "docs/blog", none, none, false, none,
      [.mk "title" (.mk .string false none [] none [] [])], []⟩,
    ⟨"docs", "docs", none, none, false, none,
      [.mk "next" (.mk .reference false none ["docs", "blog"] none [] []),
        .mk "prev" (.mk .reference false none ["blog", "docs"] none [] [])], []⟩]⟩, rfl⟩

/-- The path of a post, which is one of documents too. -/
def post : String := "docs/blog/a.json"

/-- A document that refers to the post in both fields. -/
def linking : Bytes :=
  Bytes.ofText "\x7b\"next\":\"docs/blog/a.json\",\"prev\":\"docs/blog/a.json\"\x7d"

/-- The post and the document. -/
def siteFiles : Source.Files :=
  (OrderedMap.empty.insert post (Bytes.ofText "\x7b\x7d")).insert "docs/b.json" linking

/-- The index of the two. -/
@[irreducible] def siteStore : Store := (site.rebuild 4).leaves siteFiles 0 OrderedMap.empty

theorem exists_succeeds_site : ∃ report,
    (site.rebuild 4).Succeeds siteFiles OrderedMap.empty report siteStore := by
  unfold siteStore
  exact Failing.exists_succeeds 0 (by decide +kernel)

/-- The index has the records of the two. -/
theorem exists_built : ∃ (trace : Trace Unit) (w : World Unit (Except IndexError Report))
    (g : Generation), Interleaving (fun _ => (Run.rebuild site 4).program) OrderedMap.empty trace w ∧
      site.Tells Set.univ w.store g {r | r ∈ Rebuild.records site siteFiles} := by
  obtain ⟨report, h⟩ := exists_succeeds_site
  have hpaths : ∀ p ∈ siteFiles.keys, Text.ZeroFree p := by decide
  have htells := Database.tells_of_rebuild (U := Set.univ) site_compiled Store.reachable_empty
    (fun p b hb => ⟨hpaths p (Source.Files.mem_keys_of_get? hb), trivial⟩) h
  have hstart : Interleaving (fun _ : Unit => (Run.rebuild site 4).program) OrderedMap.empty []
      ⟨OrderedMap.empty, fun _ => (Run.rebuild site 4).program⟩ := .start
  obtain ⟨trace, run, -⟩ := hstart.exists_of_runs (i := ()) h
    (Program.bind_done (site.rebuild 4).run).symm
  exact ⟨_, _, report.generation, run, htells⟩

/-- The names and the targets of the two fields of a record. -/
def links? (r : Record) : Option (List (String × Target)) :=
  match r.fields with
  | [(a, .reference t), (b, .reference u)] => some [(a, t), (b, u)]
  | _ => none

/-- What the two fields of the document refer to: each is bound to the first collection of its
field. -/
def next : Target := ⟨some "docs", post⟩

/-- The same path, bound to the other collection. -/
def prev : Target := ⟨some "blog", post⟩

theorem exists_linked : ∃ r ∈ Rebuild.records site siteFiles, r.collection = docs.name ∧
    r.path = "docs/b.json" ∧ r.template = "docs" ∧
    r.fields = [("next", .reference next), ("prev", .reference prev)] := by
  have hcheck : (site.record docs "docs/b.json" linking).toOption.any fun x =>
      x.1.template = "docs" ∧ links? x.1 = some [("next", next), ("prev", prev)] := by
    decide +kernel
  cases hr : site.record docs "docs/b.json" linking with
  | error skip =>
    rw [hr] at hcheck
    cases hcheck
  | ok x =>
    obtain ⟨r, ws⟩ := x
    rw [hr] at hcheck
    obtain ⟨htemplate, hlinks⟩ : r.template = "docs" ∧
        links? r = some [("next", next), ("prev", prev)] := by
      simpa [Except.toOption] using hcheck
    obtain ⟨hname, hpath, -⟩ := Database.eq_of_record hr
    refine ⟨r, (Rebuild.mem_records_iff site_compiled).mpr ⟨"docs/b.json", docs, ?_⟩, hname, hpath,
      htemplate, ?_⟩
    · refine Database.document?_eq_ok_iff.mpr ⟨by rfl, linking, ws, ?_, hr⟩
      rfl
    · unfold links? at hlinks
      split at hlinks
      · next hfields =>
        simp only [Option.some.injEq, List.cons.injEq, Prod.mk.injEq] at hlinks
        obtain ⟨⟨rfl, rfl⟩, ⟨rfl, rfl⟩, -⟩ := hlinks
        exact hfields
      · cases hlinks

theorem post_owner : site.graph.owner? post = some blog := by
  rfl

theorem exists_posted : ∃ r ∈ Rebuild.records site siteFiles,
    r.collection = blog.name ∧ r.path = post := by
  have hcheck : (site.record blog post (Bytes.ofText "\x7b\x7d")).toOption.isSome := by
    decide
  cases hr : site.record blog post (Bytes.ofText "\x7b\x7d") with
  | error skip =>
    rw [hr] at hcheck
    cases hcheck
  | ok x =>
    obtain ⟨r, ws⟩ := x
    obtain ⟨hname, hpath, -⟩ := Database.eq_of_record hr
    refine ⟨r, (Rebuild.mem_records_iff site_compiled).mpr ⟨post, blog, ?_⟩, hname, hpath⟩
    refine Database.document?_eq_ok_iff.mpr ⟨post_owner, _, ws, ?_, hr⟩
    rfl

/-- The document is found in the index, with its two references, and the post is there too. -/
theorem exists_index : ∃ (trace : Trace Unit) (w : World Unit (Except IndexError Report))
    (g : Generation) (r : Record),
    Interleaving (fun _ => (Run.rebuild site 4).program) OrderedMap.empty trace w ∧
      w.store.get? Key.active.encode = some g.toBytes ∧
      (Snapshot.record? ⟨site.graph, g⟩ docs.name "docs/b.json").on w.store = some (.ok (some r)) ∧
      r.Cites docs ["docs", "blog"] next ∧ r.Cites docs ["blog", "docs"] prev ∧
      w.store.get? (Key.document g blog.name post).encode ≠ none := by
  obtain ⟨trace, w, g, run, htells⟩ := exists_built
  obtain ⟨r, hr, hname, hpath, htemplate, hfields⟩ := exists_linked
  obtain ⟨r', hr', hname', hpath'⟩ := exists_posted
  have hget := (htells.get?_document_eq_some_iff site_compiled).mpr ⟨r, hr, hname, hpath, rfl⟩
  have hget' := (htells.get?_document_eq_some_iff site_compiled).mpr ⟨r', hr', hname', hpath', rfl⟩
  have hread : Record.ofBytes? r.toBytes = some r :=
    Record.ofBytes?_toBytes_of_fields (by rw [hfields]; rfl)
  refine ⟨trace, w, g, r, run, htells.presents.active, ?_, ?_, ?_, by rw [hget']; nofun⟩
  · rw [Snapshot.on_record? (x := ⟨site.graph, g⟩) (c := docs.name) (p := "docs/b.json") hget,
      Record.ofStored?, hread]
  · unfold Record.Cites
    rw [htemplate, hfields]
    have hfield : (Composite.ofObject docs.templates "docs"
        [("next", .reference next), ("prev", .reference prev)]).field? "next" =
          some (.reference ["docs", "blog"], .reference next) := rfl
    exact .member hfield .here
  · unfold Record.Cites
    rw [htemplate, hfields]
    have hfield : (Composite.ofObject docs.templates "docs"
        [("next", .reference next), ("prev", .reference prev)]).field? "prev" =
          some (.reference ["blog", "docs"], .reference prev) := rfl
    exact .member hfield .here

theorem not_shadowed : ¬ site.graph.Shadows ["blog", "docs"] blog post := by
  rintro ⟨n, hn, -⟩
  simp [blog] at hn

theorem shadowed : site.graph.Shadows ["docs", "blog"] blog post :=
  ⟨"docs", by decide, docs, by rfl, by rfl⟩

end Following

open Following

/-- Of the two references to one post, the one whose field names the blog first reaches it. -/
theorem Graph.reaches_iff_not_shadows_site : ∃ (trace : Trace Unit)
    (w : World Unit (Except IndexError Report)) (g : Generation),
    Interleaving (fun _ => (Run.rebuild site 4).program) OrderedMap.empty trace w ∧
      Snapshot.Reaches ⟨site.graph, g⟩ w.store ["blog", "docs"] prev blog ∧
      ¬ Snapshot.Reaches ⟨site.graph, g⟩ w.store ["docs", "blog"] next blog := by
  obtain ⟨trace, w, g, r, run, -, hfound, hnext, hprev, hstored⟩ := exists_index
  have hblog : blog ∈ site.graph.collections := List.mem_cons_self ..
  have hdocs : docs ∈ site.graph.collections := List.mem_cons_of_mem _ (List.mem_singleton_self _)
  have hleft := reaches_iff_not_shadows site_compiled (fun _ => rfl) run hdocs hfound hprev post_owner
    (by decide) hblog hstored
  have hright := reaches_iff_not_shadows site_compiled (fun _ => rfl) run hdocs hfound hnext post_owner
    (by decide) hblog hstored
  exact ⟨trace, w, g, run, hleft.1.mpr not_shadowed, fun h => hright.1.mp h shadowed⟩

/-- **A reference may miss its document.** The document is indexed, its owner is one of the
collections that the field allows, and still a selection in the reference shows nothing. -/
theorem Graph.exists_missed : ∃ (G : Graph) (runs : Unit → Run) (trace : Trace Unit)
    (w : World Unit (Except IndexError Report)) (g : Generation) (c o : Collection) (p : String)
    (r : Record) (targets : List String) (t : Target), G.IsCompiled ∧
      (∀ i, (runs i).database.graph = G) ∧
      Interleaving (fun i => (runs i).program) OrderedMap.empty trace w ∧
      w.store.get? Key.active.encode = some g.toBytes ∧ c ∈ G.collections ∧
      (Snapshot.record? ⟨G, g⟩ c.name p).on w.store = some (.ok (some r)) ∧
      r.Cites c targets t ∧ G.owner? t.path = some o ∧ o.name ∈ targets ∧
      w.store.get? (Key.document g o.name t.path).encode ≠ none ∧
      Snapshot.Misses ⟨G, g⟩ w.store targets t ∧ ¬ Snapshot.Reaches ⟨G, g⟩ w.store targets t o := by
  obtain ⟨trace, w, g, r, run, hactive, hfound, hnext, -, hstored⟩ := exists_index
  have hdocs : docs ∈ site.graph.collections := List.mem_cons_of_mem _ (List.mem_singleton_self _)
  have hmisses : Snapshot.Misses ⟨site.graph, g⟩ w.store ["docs", "blog"] next := by
    refine Snapshot.misses_of_not_stored (site_compiled.collection?_eq hdocs) rfl (by decide) ?_
    by_contra hne
    obtain ⟨v, hv⟩ := Option.ne_none_iff_exists'.mp hne
    obtain ⟨r', -, hpath, hmakes⟩ :=
      exists_makes_of_get? site_compiled (fun _ => rfl) run hdocs hv
    have howner := hpath ▸ hmakes.owner
    exact absurd (howner.symm.trans post_owner) (by decide)
  obtain ⟨v, hv⟩ := Option.ne_none_iff_exists'.mp hstored
  exact ⟨site.graph, fun _ => .rebuild site 4, trace, w, g, docs, blog, "docs/b.json", r,
    ["docs", "blog"], next, site_compiled, fun _ => rfl, run, hactive, hdocs, hfound, hnext,
    post_owner, by decide, hstored, hmisses, hmisses.not_reaches hv⟩

end ContentIndex
