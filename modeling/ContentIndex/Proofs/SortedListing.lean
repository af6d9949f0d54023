import ContentIndex.Proofs.Contents
import ContentIndex.Proofs.Lookup
import ContentIndex.Proofs.SortOrder

/-!
# Sorted listings

In a consistent generation, an order of a collection has one entry for each record of the collection,
and the entries are ordered like the records are to be.

## Main definitions

* `Store.records`: the records of a generation
* `Store.Indexes`: the active generation is consistent, and built with the version of a graph
* `Listing.entry`, `Listing.Follows`: the place of a record in an order

## Main results

* `Store.Consistent.exists_within`: **the entries of an order are the places of the records in
  order**, each once
-/

namespace ContentIndex

open Json (Value)

/-! ### Records of an index -/

namespace Store

variable {s : Store} {g : Generation} {G : Graph} {r r' : Record}

/-- The records that a generation has under the keys of documents. -/
def records (s : Store) (g : Generation) : Set Record := {r | ∃ c p, s.record? g c p = some r}

/-- The active generation is consistent, and it was built with the version of the graph. -/
structure Indexes (s : Store) (g : Generation) (G : Graph) : Prop where
  /-- It is active and has the version. -/
  presents : s.Presents g G
  /-- It is consistent. -/
  consistent : s.Consistent g G

namespace Consistent

/-- A record is under the key of its own document. -/
theorem record?_eq (h : s.Consistent g G) (hr : r ∈ s.records g) :
    s.record? g r.collection r.path = some r := by
  obtain ⟨c, p, hrecord⟩ := hr
  obtain ⟨v, hv, hread⟩ := Option.bind_eq_some_iff.mp hrecord
  obtain ⟨r', hread', hc, hp⟩ := h.documents c p v hv
  obtain rfl : r = r' := Option.some.inj (hread.symm.trans hread')
  rw [hc, hp]
  exact hrecord

/-- The stored bytes are those of the record, and its entries are those for a collection. -/
theorem exists_collection_of_mem (h : s.Consistent g G) (hr : r ∈ s.records g) :
    s.get? (r.key g) = some r.toBytes ∧ ∃ c, G.collection? r.collection = some c := by
  obtain ⟨v, hv, hread⟩ := Option.bind_eq_some_iff.mp (h.record?_eq hr)
  obtain ⟨r', hr', hmem⟩ := (h.entries _ v (document_starts _ _) (Store.document_ne_info _ _)).mp hv
  obtain ⟨v', hv', hread'⟩ := Option.bind_eq_some_iff.mp (h.record?_eq hr')
  unfold Graph.entries at hmem
  cases hc : G.collection? r'.collection with
  | none =>
    rw [hc] at hmem
    cases hmem
  | some c =>
    rw [hc] at hmem
    rcases Record.mem_entries hmem with heq | hsort | hback
    · -- one key holds one value, which is read as one record
      obtain ⟨hkey, rfl⟩ := Prod.mk.inj heq
      rw [hkey] at hv
      obtain rfl : r = r' := by
        rw [hv] at hv'
        rw [← Option.some.inj hv'] at hread'
        exact Option.some.inj (hread.symm.trans hread')
      exact ⟨hv, c, hc⟩
    · simp only [Record.sortEntries, List.mem_flatMap, List.mem_map] at hsort
      obtain ⟨f, -, b, -, heq⟩ := hsort
      cases Key.Family.eq_of_start (Key.document_starts r.collection r.path)
        (Key.sort_starts c.name f.name b _ r'.path) (congrArg Prod.fst heq).symm
    · simp only [Record.backlinkEntries, List.mem_filterMap, Option.map_eq_some_iff] at hback
      obtain ⟨y, -, t, -, heq⟩ := hback
      cases Key.Family.eq_of_start (Key.document_starts r.collection r.path)
        (Key.backlink_starts t y.2.path _) (congrArg Prod.fst heq).symm

theorem get?_document (h : s.Consistent g G) (hr : r ∈ s.records g) :
    s.get? (r.key g) = some r.toBytes :=
  (h.exists_collection_of_mem hr).1

/-- The records belong to collections. -/
theorem exists_collection (h : s.Consistent g G) (hr : r ∈ s.records g) :
    ∃ c ∈ G.collections, r.collection = c.name := by
  obtain ⟨-, c, hc⟩ := h.exists_collection_of_mem hr
  exact ⟨c, List.mem_of_find?_eq_some hc, (by simpa using List.find?_some hc : c.name = _).symm⟩

/-- The records are read back as they were written. -/
theorem reads (h : s.Consistent g G) (hr : r ∈ s.records g) : Record.ofBytes? r.toBytes = some r := by
  have hread : (s.get? (r.key g)).bind Record.ofBytes? = some r := h.record?_eq hr
  rwa [h.get?_document hr, Option.bind_some] at hread

/-- No two of the records are of one document. -/
theorem unique (h : s.Consistent g G) (hr : r ∈ s.records g) (hr' : r' ∈ s.records g)
    (hc : r.collection = r'.collection) (hp : r.path = r'.path) : r = r' := by
  have heq := h.record?_eq hr
  rw [hc, hp, h.record?_eq hr'] at heq
  exact (Option.some.inj heq).symm

end Consistent

end Store

/-! ### Prefixes of orders -/

namespace Key

open Text (ZeroFree)

variable {g : Generation} {c c' f f' p : String} {d d' : Bool}

theorem part_append_inj {a b : String} (ha : ZeroFree a) (hb : ZeroFree b) {x y : Bytes}
    (h : part a ++ x = part b ++ y) : a = b ∧ x = y := by
  simp only [part, List.append_assoc, List.cons_append, List.nil_append] at h
  obtain ⟨hab, hxy⟩ := append_zero_inj ha.zero_notMem hb.zero_notMem h
  exact ⟨Bytes.ofText_inj.mp hab, hxy⟩

/-- The documents of a collection are under its prefix only. -/
theorem eq_of_documentPrefix (hc : ZeroFree c) (hc' : ZeroFree c')
    (h : documentPrefix g c <+: (document g c' p).encode) : c = c' := by
  obtain ⟨x, hx⟩ := h
  simp only [encode, documentPrefix, List.append_assoc, List.append_cancel_left_eq] at hx
  exact (part_append_inj hc hc' hx).1

/-- The places in an order are under its prefix only. -/
theorem eq_of_sortPrefix (hc : ZeroFree c) (hc' : ZeroFree c') (hf : ZeroFree f)
    (hf' : ZeroFree f') {v : Option FieldValue}
    (h : sortPrefix g c f d <+: (sort g c' f' d' v p).encode) : c = c' ∧ f = f' ∧ d = d' := by
  obtain ⟨x, hx⟩ := h
  simp only [encode, sortPrefix, List.append_assoc, List.append_cancel_left_eq] at hx
  obtain ⟨hcc, hx⟩ := part_append_inj hc hc' hx
  obtain ⟨hff, hx⟩ := part_append_inj hf hf' hx
  refine ⟨hcc, hff, ?_⟩
  have ha : Bytes.ofText "a" = [97] := by decide
  have hd : Bytes.ofText "d" = [100] := by decide
  have := congrArg List.head? hx
  cases d <;> cases d' <;> simp [ha, hd] at this ⊢

theorem start_documentPrefix : Family.start g .document <+: documentPrefix g c := by
  simp [Family.start, documentPrefix, List.append_assoc]

theorem start_sortPrefix : Family.start g .sort <+: sortPrefix g c f d := by
  simp [Family.start, sortPrefix, List.append_assoc]

end Key

/-! ### Places in orders -/

namespace Listing

variable {G : Graph} {c : Graph.Collection} {l : Listing} {order : Option SortOrder}
  {g : Generation} {r r' : Record} {x : Entry}

/-- The place of a record in an order. -/
def entry (l : Listing) (g : Generation) (r : Record) : Entry :=
  (l.start g r.collection ++ l.suffix r, match l with
    | byPath _ => r.toBytes
    | byField _ _ => Bytes.ofText r.path)

/-- An order by a field is by one of the sortable fields. -/
theorem sortable_of_listing (h : c.listing order = .ok l) {field : String} {descending : Bool}
    (hl : l = byField field descending) : ∃ f ∈ c.sortableFields, f.name = field := by
  subst hl
  unfold Graph.Collection.listing at h
  split at h
  · cases h
  · split at h
    · cases h
    · split at h
      · next hany =>
        cases h
        simpa using hany
      · cases h

/-- The end of the key tells the path. -/
theorem path_eq_of_suffix (h : l.suffix r = l.suffix r') : r.path = r'.path := by
  cases l with
  | byPath => exact Bytes.ofText_inj.mp h
  | byField field descending => exact Bytes.ofText_inj.mp (Key.sortBytes_append_inj h)

/-- In an order of a collection there are the places of its records only. -/
theorem eq_entry_of_mem (hG : G.IsCompiled) (hc : c ∈ G.collections)
    (hl : c.listing order = .ok l) (hr : ∃ d ∈ G.collections, r.collection = d.name)
    (hx : x ∈ G.entries g r) (hstart : l.start g c.name <+: x.1) :
    r.collection = c.name ∧ x = l.entry g r := by
  obtain ⟨d, hd, hname⟩ := hr
  have hcname := (hG.names.1 c hc).1
  have hdname := (hG.names.1 d hd).1
  rw [Graph.entries_eq hG hd hname] at hx
  cases l with
  | byPath descending =>
    have hfamily : Key.Family.start g .document <+: x.1 := Key.start_documentPrefix.trans hstart
    rcases Record.mem_entries hx with rfl | hx | hx
    · exact ⟨(Key.eq_of_documentPrefix hcname (hname ▸ hdname) hstart).symm, rfl⟩
    · simp only [Record.sortEntries, List.mem_flatMap, List.mem_map] at hx
      obtain ⟨f, -, b, -, rfl⟩ := hx
      cases Key.Family.eq_of_start hfamily (Key.sort_starts d.name f.name b _ r.path) rfl
    · simp only [Record.backlinkEntries, List.mem_filterMap, Option.map_eq_some_iff] at hx
      obtain ⟨y, -, t, -, rfl⟩ := hx
      cases Key.Family.eq_of_start hfamily (Key.backlink_starts t y.2.path _) rfl
  | byField field descending =>
    have hfamily : Key.Family.start g .sort <+: x.1 := Key.start_sortPrefix.trans hstart
    obtain ⟨f, hf, rfl⟩ := sortable_of_listing hl rfl
    rcases Record.mem_entries hx with rfl | hx | hx
    · cases Key.Family.eq_of_start hfamily (Key.document_starts r.collection r.path) rfl
    · simp only [Record.sortEntries, List.mem_flatMap, List.mem_map] at hx
      obtain ⟨f', hf', b, -, rfl⟩ := hx
      obtain ⟨hcollection, hfield, rfl⟩ := Key.eq_of_sortPrefix hcname hdname
        (Graph.zeroFree_of_sortable (hG.names.1 c hc).2 hf)
        (Graph.zeroFree_of_sortable (hG.names.1 d hd).2 hf') hstart
      refine ⟨hname.trans hcollection.symm, ?_⟩
      rw [entry, hname, hfield]
      simp only [Key.encode, start, suffix, List.append_assoc]
    · simp only [Record.backlinkEntries, List.mem_filterMap, Option.map_eq_some_iff] at hx
      obtain ⟨y, -, t, -, rfl⟩ := hx
      cases Key.Family.eq_of_start hfamily (Key.backlink_starts t y.2.path _) rfl

/-- **A record has its place in each order of its collection.** -/
theorem entry_mem (hG : G.IsCompiled) (hc : c ∈ G.collections) (hl : c.listing order = .ok l)
    (hr : r.collection = c.name) : l.entry g r ∈ G.entries g r := by
  -- something is stored under the key, and it can be nothing but the path
  suffices h : ∃ v, ((l.entry g r).1, v) ∈ G.entries g r by
    obtain ⟨v, hv⟩ := h
    have hstart : l.start g c.name <+: (l.entry g r).1 := by
      rw [← hr]
      exact List.prefix_append ..
    obtain ⟨-, heq⟩ := eq_entry_of_mem hG hc hl ⟨c, hc, hr⟩ hv hstart
    exact heq ▸ hv
  rw [Graph.entries_eq hG hc hr]
  cases l with
  | byPath descending =>
    exact ⟨_, (Entries.find?_eq_some_iff (r.sorted_entries g c)).mp (r.find?_document g c)⟩
  | byField field descending =>
    obtain ⟨f, hf, rfl⟩ := sortable_of_listing hl rfl
    have hmem : (((byField f.name descending).entry g r).1, Bytes.ofText r.path) ∈
        r.documentEntry g :: r.sortEntries g c ++ r.backlinkEntries g := by
      refine List.mem_append_left _ (List.mem_cons_of_mem _ ?_)
      simp only [Record.sortEntries, List.mem_flatMap, List.mem_map]
      refine ⟨f, hf, descending, by cases descending <;> simp, ?_⟩
      simp [entry, start, suffix, Key.encode, hr, List.append_assoc]
    exact Entries.exists_mem_ofList hmem

end Listing

/-! ### What a scan goes through -/

/-- If all items of a list are values of a function, then so is the list. -/
theorem exists_map_eq {α β : Type} {f : α → β} {P : α → Prop} {l : List β}
    (h : ∀ y ∈ l, ∃ x, P x ∧ f x = y) : ∃ m : List α, (∀ x ∈ m, P x) ∧ m.map f = l := by
  induction l with
  | nil => exact ⟨[], nofun, rfl⟩
  | cons y l ih =>
    obtain ⟨x, hx, rfl⟩ := h y (List.mem_cons_self ..)
    obtain ⟨m, hm, rfl⟩ := ih fun z hz => h z (List.mem_cons_of_mem _ hz)
    exact ⟨x :: m, List.forall_mem_cons.mpr ⟨hx, hm⟩, rfl⟩

/-- The record comes after the end of the page before, if there is one. -/
def Listing.Follows (l : Listing) (after : Option Bytes) (r : Record) : Prop :=
  ∀ a ∈ after, l.direction.Before a (l.suffix r)

instance (l : Listing) (after : Option Bytes) (r : Record) : Decidable (l.Follows after r) :=
  match after with
  | none => isTrue nofun
  | some a => decidable_of_iff (l.direction.Before a (l.suffix r)) (by simp [Listing.Follows])

theorem Direction.before_append_iff {d : Direction} {p a b : Bytes} :
    d.Before (p ++ a) (p ++ b) ↔ d.Before a b := by
  cases d <;> exact Bytes.append_lt_append_left_iff

namespace Store.Consistent

variable {s : Store} {g : Generation} {G : Graph} {c : Graph.Collection}
  {l : Listing} {order : Option SortOrder} {r : Record}

/-- The place of each record of a collection is stored. -/
theorem get?_entry (h : s.Consistent g G) (hG : G.IsCompiled) (hc : c ∈ G.collections)
    (hl : c.listing order = .ok l) (hr : r ∈ s.records g) (hname : r.collection = c.name) :
    s.get? (l.entry g r).1 = some (l.entry g r).2 := by
  have hmem := Listing.entry_mem (g := g) hG hc hl hname
  obtain ⟨a, ha⟩ : ∃ a, Key.Family.start g a <+: (l.entry g r).1 := by
    rw [Graph.entries_eq hG hc hname] at hmem
    exact Record.exists_start_of_mem_entries hmem
  refine (h.entries _ _ (a.starts_start.trans ha) ?_).mpr ⟨r, hr, hmem⟩
  intro hinfo
  exact Key.not_start_info (hinfo ▸ ha)

/-- What is stored in an order of a collection is the place of one of its records. -/
theorem exists_entry (h : s.Consistent g G) (hG : G.IsCompiled) (hc : c ∈ G.collections)
    (hl : c.listing order = .ok l) {x : Entry} (hx : s.get? x.1 = some x.2)
    (hstart : l.start g c.name <+: x.1) :
    ∃ r ∈ s.records g, r.collection = c.name ∧ l.entry g r = x := by
  obtain ⟨a, ha⟩ : ∃ a, Key.Family.start g a <+: l.start g c.name := by
    cases l with
    | byPath => exact ⟨.document, Key.start_documentPrefix⟩
    | byField => exact ⟨.sort, Key.start_sortPrefix⟩
  have hstart' := ha.trans hstart
  have hne : x.1 ≠ (Key.info g).encode := fun hinfo => Key.not_start_info (hinfo ▸ hstart')
  obtain ⟨r, hr, hmem⟩ := (h.entries _ _ (a.starts_start.trans hstart') hne).mp hx
  obtain ⟨hname, heq⟩ := Listing.eq_entry_of_mem hG hc hl (h.exists_collection hr) hmem hstart
  exact ⟨r, hr, hname, heq.symm⟩

/-- **The entries of an order are the places of the records in order**, each once. -/
theorem exists_within (h : s.Consistent g G) (hG : G.IsCompiled) (hc : c ∈ G.collections)
    (hl : c.listing order = .ok l) (after : Option Bytes) :
    ∃ L : List Record,
      s.within (l.range (l.start g c.name) after) l.direction = L.map (l.entry g) ∧
      (∀ r, r ∈ L ↔ r ∈ s.records g ∧ r.collection = c.name ∧ l.Follows after r) ∧
      L.Pairwise (SortOrder.Precedes order) := by
  generalize hes : s.within (l.range (l.start g c.name) after) l.direction = es
  have hmem (x : Entry) : x ∈ es ↔ s.get? x.1 = some x.2 ∧ l.start g c.name <+: x.1 ∧
      ∀ a ∈ after, l.direction.Before (l.start g c.name ++ a) x.1 := by
    rw [← hes, Store.mem_within, Listing.contains_range_iff]
  -- the key of a place is its end after the start of the order
  have hkey {r : Record} (hr : r.collection = c.name) :
      (l.entry g r).1 = l.start g c.name ++ l.suffix r := by
    rw [← hr]
    rfl
  have hfollows {r : Record} (hr : r.collection = c.name) : l.Follows after r ↔
      ∀ a ∈ after, l.direction.Before (l.start g c.name ++ a) (l.entry g r).1 := by
    rw [hkey hr]
    exact forall₂_congr fun a _ => Direction.before_append_iff.symm
  have hplaces (x : Entry) (hx : x ∈ es) :
      ∃ r, (r ∈ s.records g ∧ r.collection = c.name ∧ l.Follows after r) ∧ l.entry g r = x := by
    obtain ⟨hget, hstart, hafter⟩ := (hmem x).mp hx
    obtain ⟨r, hr, hname, rfl⟩ := h.exists_entry hG hc hl hget hstart
    exact ⟨r, ⟨hr, hname, (hfollows hname).mpr hafter⟩, rfl⟩
  obtain ⟨L, hL, hmap⟩ := exists_map_eq hplaces
  refine ⟨L, hmap.symm, fun r => ⟨hL r, ?_⟩, ?_⟩
  · rintro ⟨hr, hname, hafter⟩
    have hplace : l.entry g r ∈ es := (hmem _).mpr ⟨h.get?_entry hG hc hl hr hname,
      hkey hname ▸ List.prefix_append _ _, (hfollows hname).mp hafter⟩
    rw [← hmap] at hplace
    obtain ⟨r', hr', heq⟩ := List.mem_map.mp hplace
    obtain ⟨hD, hname', -⟩ := hL r' hr'
    have hsuffix : l.suffix r' = l.suffix r := by
      have := congrArg Prod.fst heq
      rw [hkey hname', hkey hname] at this
      exact List.append_cancel_left this
    obtain rfl := h.unique hD hr (hname'.trans hname.symm) (Listing.path_eq_of_suffix hsuffix)
    exact hr'
  · have hsorted := Store.pairwise_within s (l.range (l.start g c.name) after) l.direction
    rw [hes, ← hmap, List.pairwise_map] at hsorted
    refine hsorted.imp_of_mem fun {r r'} hr hr' hlt => ?_
    rw [hkey (hL r hr).2.1, hkey (hL r' hr').2.1, Direction.before_append_iff] at hlt
    exact (Listing.before_suffix_iff hl).mp hlt

end Store.Consistent

end ContentIndex
