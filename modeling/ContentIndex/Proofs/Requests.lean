import ContentIndex.Proofs.Names
import ContentIndex.Query.Resolve

/-!
# Requests for pages

What a request for a page asks for is found part by part. A request whose parts make sense is not
refused: in a compiled graph, the default order of a collection is one that it can be listed in.

## Main definitions

* `PageQuery.AskedBy`: the query of a request
* `Request.Opens`: the request for a first page makes sense

## Main results

* `Database.query_eq_page_iff`: which query a request comes to
* `Graph.IsCompiled.exists_listing`: the default order of a collection exists
* `Request.Opens.exists_query`: **a request that makes sense is a query**
-/

namespace ContentIndex

/-! ### Sortable fields -/

namespace Graph

variable {c c' : Collection} {f : Field}

/-- A sortable field gives its name to one of the fields that are collected. -/
theorem Collection.exists_of_foldl_addSortable {fs acc : List Field}
    (h : f ∈ acc ∨ f ∈ fs ∧ f.isSortable) :
    ∃ f' ∈ fs.foldl Collection.addSortable acc, f'.name = f.name := by
  induction fs generalizing f acc with
  | nil =>
    rcases h with h | ⟨h, -⟩
    · exact ⟨f, h, rfl⟩
    · cases h
  | cons d fs ih =>
    -- what was collected stays, and `d` is collected or has the name of a field that was
    have hstays {x : Field} (hx : x ∈ acc) : x ∈ addSortable acc d := by
      unfold addSortable
      split
      · exact List.mem_append_left _ hx
      · exact hx
    rcases h with h | ⟨h, hsortable⟩
    · exact ih (Or.inl (hstays h))
    · rcases List.mem_cons.mp h with rfl | h
      · by_cases hany : acc.any (·.name = f.name)
        · obtain ⟨f', hf', hname⟩ := List.any_eq_true.mp hany
          obtain ⟨f'', hf'', hname'⟩ := ih (Or.inl (hstays hf'))
          exact ⟨f'', hf'', hname'.trans (of_decide_eq_true hname)⟩
        · refine ih (Or.inl ?_)
          rw [addSortable, if_pos (by simp [hsortable, hany])]
          exact List.mem_append_right _ (List.mem_singleton_self f)
      · exact ih (Or.inr ⟨h, hsortable⟩)

/-- The default order of a collection that passes is by one of its sortable fields. -/
theorem sortable_of_checkDefaultSort (h : checkDefaultSort c = .ok c') :
    ∀ name ∈ c'.defaultSort, ∃ f ∈ c'.sortableFields, f.name = name := by
  obtain rfl := eq_of_checkDefaultSort h
  intro name hname
  unfold checkDefaultSort at h
  rw [show c'.defaultSort = some name from hname] at h
  dsimp only at h
  cases hfield : c'.field? name with
  | none =>
    rw [hfield] at h
    cases h
  | some f =>
    rw [hfield] at h
    dsimp only at h
    split at h
    · next hsortable =>
      obtain ⟨t, ht, hf⟩ := List.exists_of_findSome?_eq_some hfield
      have hfname : f.name = name := by
        simpa using List.find?_some hf
      have hmem : f ∈ c'.templates.flatMap (·.fields) :=
        List.mem_flatMap.mpr ⟨t, ht, List.mem_of_find?_eq_some hf⟩
      obtain ⟨f', hf', hname'⟩ : ∃ f' ∈ c'.sortableFields, f'.name = f.name :=
        Collection.exists_of_foldl_addSortable (Or.inr ⟨hmem, hsortable⟩)
      exact ⟨f', hf', hname'.trans hfname⟩
    · cases h

/-- The default order of a collection of a compiled graph is by one of its sortable fields. -/
theorem IsCompiled.sortable {g : Graph} (h : g.IsCompiled) (hc : c ∈ g.collections) :
    ∀ name ∈ c.defaultSort, ∃ f ∈ c.sortableFields, f.name = name :=
  sortable_of_checkDefaultSort (h.declared.2 c hc).order

/-- A collection is listed by path, or by a sortable field. -/
theorem Collection.exists_listing {order : Option SortOrder}
    (h : ∀ o ∈ order, o.field = systemPath ∨ ∃ f ∈ c.sortableFields, f.name = o.field) :
    ∃ l, c.listing order = .ok l := by
  unfold Collection.listing
  cases order with
  | none => exact ⟨_, rfl⟩
  | some o =>
    dsimp only
    by_cases hpath : o.field = systemPath
    · exact ⟨_, if_pos hpath⟩
    · rcases h o rfl with hfield | ⟨f, hf, hname⟩
      · exact absurd hfield hpath
      · have hany : c.sortableFields.any (·.name = o.field) :=
          List.any_eq_true.mpr ⟨f, hf, decide_eq_true hname⟩
        exact ⟨_, (if_neg hpath).trans (if_pos hany)⟩

/-- A collection of a compiled graph is listed in its default order if no other is asked for. -/
theorem IsCompiled.exists_listing {g : Graph} (h : g.IsCompiled) (hc : c ∈ g.collections)
    {r : Request} (hsort : r.sort = none) : ∃ l, c.listing (Database.sortOrder? c r) = .ok l := by
  refine Collection.exists_listing fun o ho => ?_
  unfold Database.sortOrder? at ho
  rw [hsort] at ho
  obtain ⟨name, hname, rfl⟩ := Option.map_eq_some_iff.mp ho
  exact Or.inr (h.sortable hc name hname)

end Graph

/-! ### The query of a request -/

/-- The query is what the request asks for. -/
structure PageQuery.AskedBy (q : PageQuery) (db : Database) (r : Request) : Prop where
  /-- No document is asked for. -/
  path : r.path = none
  /-- The collection. -/
  collection : db.graph.collection? r.collection = some q.collection
  /-- The selection makes sense. -/
  checked : q.collection.checkSelection db.graph r.selection = .ok ()
  /-- The greatest number of items. -/
  size : db.pageSize r.pageSize = .ok q.size
  /-- The condition. -/
  predicate : r.filter.mapM (·.check q.collection) = .ok q.predicate
  /-- The order. -/
  listing : q.collection.listing (Database.sortOrder? q.collection r) = .ok q.listing
  /-- The end of the page before. -/
  after : (r.cursor.mapM fun text =>
    (Cursor.decode text q.collection.name q.listing.signature).mapError QueryError.invalidCursor) =
      .ok q.after
  /-- The selection. -/
  selection : q.selection = r.selection

namespace Database

variable {db : Database} {r : Request} {q : PageQuery}

/-- What a request comes to, once everything but its cursor makes sense. -/
theorem query_eq_map (hpath : r.path = none)
    (hcollection : db.graph.collection? r.collection = some q.collection)
    (hchecked : q.collection.checkSelection db.graph r.selection = .ok ())
    (hsize : db.pageSize r.pageSize = .ok q.size)
    (hpredicate : r.filter.mapM (·.check q.collection) = .ok q.predicate)
    (hlisting : q.collection.listing (sortOrder? q.collection r) = .ok q.listing)
    (hselection : q.selection = r.selection) :
    db.query r = (r.cursor.mapM fun text =>
      (Cursor.decode text q.collection.name q.listing.signature).mapError
        QueryError.invalidCursor).map fun after => .page { q with after := after } := by
  have hfound : db.collection r.collection = .ok q.collection := by
    rw [collection, hcollection]
  have hpage : db.pageQuery q.collection r = (r.cursor.mapM fun text =>
      (Cursor.decode text q.collection.name q.listing.signature).mapError
        QueryError.invalidCursor).map fun after => { q with after := after } := by
    show (db.pageSize r.pageSize >>= fun _ => _) = _
    rw [hsize]
    show ((r.filter.mapM (·.check q.collection) : Except QueryError _) >>= fun _ => _) = _
    rw [hpredicate]
    show (q.collection.listing _ >>= fun _ => _) = _
    rw [hlisting, hselection]
    show ((r.cursor.mapM _ : Except QueryError _) >>= fun _ => _) = Except.map _ (r.cursor.mapM _)
    cases (r.cursor.mapM fun text => (Cursor.decode text q.collection.name
      q.listing.signature).mapError QueryError.invalidCursor : Except QueryError _) <;> rfl
  rw [query, hfound]
  show (q.collection.checkSelection _ _ >>= fun _ => _) = _
  rw [hchecked]
  show (pure () >>= fun _ => _) = _
  rw [pure_bind, hpath]
  show (db.pageQuery q.collection r >>= fun _ => _) = _
  rw [hpage]
  cases (r.cursor.mapM fun text => (Cursor.decode text q.collection.name
    q.listing.signature).mapError QueryError.invalidCursor : Except QueryError _) <;> rfl

/-- **Which query a request comes to.** -/
theorem query_eq_page_iff : db.query r = .ok (.page q) ↔ q.AskedBy db r := by
  constructor
  · intro h
    unfold query at h
    obtain ⟨c, hcollection, h⟩ := exists_of_bind_eq_ok h
    obtain ⟨_, hchecked, h⟩ := exists_of_bind_eq_ok h
    have hfound : db.graph.collection? r.collection = some c := by
      unfold collection at hcollection
      split at hcollection
      · cases hcollection
        assumption
      · cases hcollection
    split at h
    · cases h
    · next hpath =>
      obtain ⟨q', hq, h⟩ := exists_of_bind_eq_ok h
      cases h
      unfold pageQuery at hq
      obtain ⟨size, hsize, hq⟩ := exists_of_bind_eq_ok hq
      obtain ⟨predicate, hpredicate, hq⟩ := exists_of_bind_eq_ok hq
      obtain ⟨listing, hlisting, hq⟩ := exists_of_bind_eq_ok hq
      obtain ⟨after, hafter, hq⟩ := exists_of_bind_eq_ok hq
      cases hq
      exact ⟨hpath, hfound, hchecked, hsize, hpredicate, hlisting, hafter, rfl⟩
  · intro h
    rw [query_eq_map h.path h.collection h.checked h.size h.predicate h.listing h.selection, h.after]
    rfl

end Database

namespace PageQuery.AskedBy

variable {db : Database} {r : Request} {q : PageQuery}

theorem mem_collections (h : q.AskedBy db r) : q.collection ∈ db.graph.collections :=
  List.mem_of_find?_eq_some h.collection

theorem name_eq (h : q.AskedBy db r) : q.collection.name = r.collection := by
  simpa using List.find?_some h.collection

theorem size_pos (h : q.AskedBy db r) : 0 < q.size := by
  have hsize := h.size
  unfold Database.pageSize at hsize
  dsimp only at hsize
  split at hsize
  · cases hsize
  · next hbounds =>
    rw [← Except.ok.inj hsize]
    omega

end PageQuery.AskedBy

/-! ### Requests that make sense -/

/-- The request for the first page of a collection makes sense: there are its selection and the
fields of its condition, it asks for an order that there is, if it asks for one, and for at most the
greatest number of items. -/
structure Request.Opens (r : Request) (db : Database) (c : Graph.Collection) : Prop where
  /-- The collection. -/
  collection : r.collection = c.name
  /-- No document is asked for. -/
  path : r.path = none
  /-- There is no page before. -/
  cursor : r.cursor = none
  /-- The selection makes sense. -/
  selection : c.checkSelection db.graph r.selection = .ok ()
  /-- The condition makes sense. -/
  filter : ∀ f ∈ r.filter, ∃ p, f.check c = .ok p
  /-- The order is by path or by a sortable field. -/
  sort : ∀ o ∈ r.sort, o.field = Graph.systemPath ∨ ∃ f ∈ c.sortableFields, f.name = o.field
  /-- The number of items is at least one. -/
  size_pos : 0 < r.pageSize.getD db.settings.defaultPageSize
  /-- It is not too great. -/
  size_le : r.pageSize.getD db.settings.defaultPageSize ≤ db.settings.maxPageSize

namespace Request.Opens

variable {db : Database} {r : Request} {c : Graph.Collection}

theorem exists_listing (hG : db.graph.IsCompiled) (hc : c ∈ db.graph.collections)
    (h : r.Opens db c) : ∃ l, c.listing (Database.sortOrder? c r) = .ok l := by
  cases hsort : r.sort with
  | none => exact hG.exists_listing hc hsort
  | some o =>
    refine Graph.Collection.exists_listing fun o' ho' => ?_
    rw [Database.sortOrder?, hsort] at ho'
    cases ho'
    exact h.sort o hsort

/-- **A request that makes sense is a query.** -/
theorem exists_query (hG : db.graph.IsCompiled) (hc : c ∈ db.graph.collections)
    (h : r.Opens db c) : ∃ q : PageQuery, q.AskedBy db r ∧ q.collection = c ∧ q.after = none := by
  obtain ⟨l, hl⟩ := h.exists_listing hG hc
  obtain ⟨p, hp⟩ : ∃ p, r.filter.mapM (·.check c) = (.ok p : Except QueryError _) := by
    cases hfilter : r.filter with
    | none => exact ⟨none, rfl⟩
    | some f =>
      obtain ⟨p, hp⟩ := h.filter f hfilter
      refine ⟨some p, ?_⟩
      show some <$> f.check c = _
      rw [hp]
      rfl
  have hsize : db.pageSize r.pageSize = .ok (r.pageSize.getD db.settings.defaultPageSize) := by
    have hpos := h.size_pos
    have hle := h.size_le
    exact if_neg (by omega)
  refine ⟨⟨c, l, p, none, _, r.selection⟩,
    ⟨h.path, ?_, h.selection, hsize, hp, hl, ?_, rfl⟩, rfl, rfl⟩
  · rw [h.collection]
    exact hG.collection?_eq hc
  · rw [h.cursor]
    rfl

end Request.Opens

end ContentIndex
