import ContentIndex.Proofs.Requests
import ContentIndex.Proofs.SortedListing
import ContentIndex.Proofs.Upkeep

/-!
# Pages of listings

A page is read entry by entry, until it is full and another document would follow, or until the
order has come to its end. What is read is what comes after the end of the page before, so a page
shows the first of those records, in order.

## Main definitions

* `PageQuery.page`: the page of a list of records

## Main results

* `PageQuery.on_fill`: reading entry by entry comes to the same as showing the first records
* `Database.run_resolve_page`: **a listing shows the records of its collection that meet the
  condition, in the order that was asked for**
-/

namespace ContentIndex

open Json (Value)

/-! ### Steps of projections on a store -/

namespace Projecting

variable {α β : Type} {s : Store} {ws : List Dangling}

/-- What is asked first is asked for something that is known. -/
theorem on_lift_bind_ok {t : Failing QueryError α} {a : α} (h : t.on s = some (.ok a))
    (f : α → Projecting β) :
    Failing.on s (((liftM t : Projecting α) >>= f).run ws) = Failing.on s ((f a).run ws) := by
  rw [on_lift_bind, h, Option.bind_some]

/-- Programs that go on alike do the same. -/
theorem on_bind_congr (t : Projecting α) {f f' : α → Projecting β}
    (h : ∀ a ws, Failing.on s ((f a).run ws) = Failing.on s ((f' a).run ws)) :
    Failing.on s ((t >>= f).run ws) = Failing.on s ((t >>= f').run ws) := by
  show Failing.on s (t.run ws >>= _) = Failing.on s (t.run ws >>= _)
  rw [Failing.on_bind, Failing.on_bind]
  refine congrArg _ (funext fun r => ?_)
  cases r with
  | ok p => exact h p.1 p.2
  | error e => rfl

end Projecting

namespace PageQuery

variable {q : PageQuery} {x : Snapshot} {s : Store} {G : Graph}
  {r : Record} {L : List Record} {items : Items} {ws : List Dangling}

/-! ### What a page shows -/

/-- What is shown of records, from a place on the page on. -/
def showAll (q : PageQuery) (x : Snapshot) : Nat → List Record → Projecting (List Value)
  | _, [] => return []
  | n, r :: rest => do
    let item ← q.selection.project x (.ofRecord q.collection r) ("[" ++ toString n ++ "]")
    return item :: (← q.showAll x (n + 1) rest)

/-- The page on which the first of some records follow the items that it has. -/
def complete (q : PageQuery) (x : Snapshot) (items : Items) (L : List Record) :
    Projecting Items := do
  let shown := L.take (q.size - items.data.length)
  let data ← q.showAll x items.data.length shown
  return ⟨items.data ++ data, (shown.getLast?.map q.listing.suffix).or items.last,
    q.size < items.data.length + L.length⟩

/-- The page of the first of some records. -/
def page (q : PageQuery) (x : Snapshot) (L : List Record) : Failing QueryError Answer := do
  let (items, warnings) ← (q.complete x noItems L).run []
  return q.answer items warnings

theorem complete_nil (h : items.data.length ≤ q.size) (hmore : items.more = false) :
    q.complete x items [] = pure items := by
  obtain ⟨data, last, more⟩ := items
  have hsize : ¬ q.size < data.length := Nat.not_lt.mpr h
  simp only [complete, List.take_nil, showAll, pure_bind, List.append_nil, List.getLast?_nil,
    Option.map_none, Option.none_or, List.length_nil, Nat.add_zero, decide_eq_false hsize]
  rw [show more = false from hmore]

/-- Nothing is added to a full page. -/
theorem complete_cons_of_full (h : items.data.length = q.size) :
    q.complete x items (r :: L) = pure { items with more := true } := by
  have hmore : q.size < q.size + (L.length + 1) := by omega
  simp only [complete, h, Nat.sub_self, List.take_zero, showAll, pure_bind, List.append_nil,
    List.getLast?_nil, Option.map_none, Option.none_or, List.length_cons, decide_eq_true hmore]

/-- The next record is added to a page that is not full. -/
theorem complete_cons (h : items.data.length < q.size) :
    q.complete x items (r :: L) =
      q.selection.project x (.ofRecord q.collection r) ("[" ++ toString items.data.length ++ "]") >>=
        fun item => q.complete x ⟨items.data ++ [item], some (q.listing.suffix r), false⟩ L := by
  have htake : q.size - items.data.length = q.size - (items.data.length + 1) + 1 := by omega
  simp only [complete, htake, List.take_succ_cons, showAll, bind_assoc, pure_bind,
    List.length_append, List.append_assoc, List.singleton_append,
    List.length_cons, List.length_nil, List.getLast?_cons, Option.map_some, Option.some_or]
  have hmore : items.data.length + (L.length + 1) = items.data.length + 1 + L.length := by omega
  refine bind_congr fun item => bind_congr fun rest => ?_
  simp only [hmore, Nat.zero_add]
  cases (L.take (q.size - (items.data.length + 1))).getLast? <;> rfl

/-! ### Reading -/

/-- The record of a place is what is read of its document. -/
theorem exists_on_recordOf? (hstored : s.get? (r.key x.generation) = some r.toBytes)
    (hname : r.collection = q.collection.name) :
    ∃ k, (q.recordOf? x (q.listing.entry x.generation r)).on s =
      some (Record.ofStored? k (some r.toBytes)) := by
  unfold PageQuery.recordOf? Listing.entry
  cases q.listing with
  | byPath descending =>
    have hlift (k : Bytes) : Failing.on s (liftM (Record.ofStored? k (some r.toBytes)) :
        Storage (Option Record)) = some (Record.ofStored? k (some r.toBytes)) := by
      cases Record.ofStored? k (some r.toBytes) <;> rfl
    exact ⟨_, hlift _⟩
  | byField field descending =>
    have hdocument : s.get? (x.key q.collection.name r.path) = some r.toBytes := by
      rw [← hname]
      exact hstored
    simp only [Bytes.text?_ofText]
    exact ⟨_, Snapshot.on_record? hdocument⟩

/-- The record of a place is found. -/
theorem on_recordOf? (h : s.Consistent x.generation G) (hr : r ∈ s.records x.generation)
    (hname : r.collection = q.collection.name) :
    (q.recordOf? x (q.listing.entry x.generation r)).on s = some (.ok (some r)) := by
  obtain ⟨k, hk⟩ := exists_on_recordOf? (q := q) (h.get?_document hr) hname
  rw [hk, Record.ofStored?, h.reads hr]

/-- Reading entry by entry comes to the same as showing the first records that meet the
condition. -/
theorem on_fill (h : s.Consistent x.generation G) {rounds : Nat} {scan : Scan}
    (hL : ∀ r ∈ L, r ∈ s.records x.generation ∧ r.collection = q.collection.name)
    (hrest : scan.rest s = L.map (q.listing.entry x.generation)) (hrounds : L.length < rounds)
    (hsize : items.data.length ≤ q.size) (hmore : items.more = false) :
    Failing.on s ((q.fill x rounds scan items).run ws) =
      Failing.on s ((q.complete x items (L.filter q.accepts)).run ws) := by
  induction L generalizing rounds scan items ws with
  | nil =>
    obtain ⟨rounds, rfl⟩ := Nat.exists_eq_add_one.mpr hrounds
    rw [List.filter_nil, complete_nil hsize hmore, fill,
      Projecting.on_lift_bind_ok (Failing.on_storage_ok (Scan.on_next_nil hrest))]
  | cons r L ih =>
    obtain ⟨rounds, rfl⟩ := Nat.exists_eq_add_one.mpr (Nat.zero_lt_of_lt hrounds)
    obtain ⟨hr, hname⟩ := hL r (List.mem_cons_self ..)
    have hL' : ∀ r ∈ L, r ∈ s.records x.generation ∧ r.collection = q.collection.name := fun r' hr' =>
      hL r' (List.mem_cons_of_mem _ hr')
    have hlt : L.length < rounds := Nat.lt_of_succ_lt_succ hrounds
    obtain ⟨scan', hnext, hrest'⟩ := Scan.on_next_cons hrest
    rw [fill, Projecting.on_lift_bind_ok (Failing.on_storage_ok hnext),
      Projecting.on_lift_bind_ok (Failing.on_storage_ok (on_recordOf? h hr hname))]
    by_cases haccepts : q.accepts r
    · rw [List.filter_cons_of_pos haccepts, Option.filter_some, if_pos haccepts]
      dsimp only
      by_cases hfull : items.data.length = q.size
      · rw [if_pos hfull, complete_cons_of_full hfull]
      · have hroom : items.data.length < q.size := Nat.lt_of_le_of_ne hsize hfull
        have hsuffix : (q.listing.entry x.generation r).1.drop
            (q.listing.start x.generation q.collection.name).length = q.listing.suffix r := by
          rw [← hname]
          exact List.drop_left
        rw [if_neg hfull, complete_cons hroom, hsuffix]
        refine Projecting.on_bind_congr _ fun item ws => ih hL' hrest' hlt ?_ rfl
        rw [List.length_append]
        exact hroom
    · rw [List.filter_cons_of_neg haccepts, Option.filter_some, if_neg haccepts]
      exact ih hL' hrest' hlt hsize hmore

/-! ### Matching records -/

variable {order : Option SortOrder} {D : Set Record} {g : Generation}

/-- The records that a listing is to show, in order. -/
structure Matching (q : PageQuery) (order : Option SortOrder) (D : Set Record) (L : List Record) :
    Prop where
  /-- They belong to the collection and meet the condition. -/
  mem : ∀ r, r ∈ L ↔ r ∈ D ∧ r.collection = q.collection.name ∧ q.accepts r
  /-- They are ordered. -/
  sorted : L.Pairwise (SortOrder.Precedes order)

/-- Ordered records are ordered by the ends of their keys. -/
theorem pairwise_suffix (hl : q.collection.listing order = .ok q.listing)
    (h : L.Pairwise (SortOrder.Precedes order)) :
    L.Pairwise fun r r' => q.listing.direction.Before (q.listing.suffix r) (q.listing.suffix r') :=
  h.imp (Listing.before_suffix_iff hl).mpr

theorem Matching.nodup (hl : q.collection.listing order = .ok q.listing)
    (h : q.Matching order D L) : L.Nodup :=
  Direction.Before.nodup (pairwise_suffix hl h.sorted)

/-- The records that match can be put in order. -/
theorem exists_matching (h : s.Consistent g G) (hG : G.IsCompiled) (hc : q.collection ∈ G.collections)
    (hl : q.collection.listing order = .ok q.listing) :
    ∃ L, q.Matching order (s.records g) L ∧ L.length ≤ s.entries.length := by
  obtain ⟨L, hwithin, hmem, hsorted⟩ := h.exists_within hG hc hl none
  refine ⟨L.filter q.accepts, ⟨fun r => ?_, hsorted.sublist List.filter_sublist⟩, ?_⟩
  · rw [List.mem_filter, hmem]
    simp [Listing.Follows, and_assoc]
  · have hle := s.length_within_le (q.listing.range (q.listing.start g q.collection.name) none)
      q.listing.direction
    rw [hwithin, List.length_map] at hle
    exact Nat.le_trans (List.length_filter_le ..) hle

/-- **A page shows the records that match and come after the page before.** -/
theorem on_read (h : s.Consistent x.generation G) (hG : G.IsCompiled)
    (hc : q.collection ∈ G.collections) (hl : q.collection.listing order = .ok q.listing)
    (hL : q.Matching order (s.records x.generation) L) {rounds : Nat}
    (hrounds : s.entries.length < rounds) :
    (q.read x rounds).on s = (q.page x (L.filter (q.listing.Follows q.after))).on s := by
  obtain ⟨A, hwithin, hmem, hsorted⟩ := h.exists_within hG hc hl q.after
  -- what the scan goes through and the condition accepts is what matches and comes after
  have hafter : A.filter q.accepts = L.filter (q.listing.Follows q.after) := by
    refine Direction.Before.eq_of_pairwise
      (pairwise_suffix hl (hsorted.sublist List.filter_sublist))
      (pairwise_suffix hl (hL.sorted.sublist List.filter_sublist)) ?_
    intro r
    simp only [List.mem_filter, hmem, hL.mem]
    simp [and_assoc, and_comm, and_left_comm]
  have hlength : A.length < rounds := by
    have hle := s.length_within_le
      (q.listing.range (q.listing.start x.generation q.collection.name) q.after) q.listing.direction
    rw [hwithin, List.length_map] at hle
    omega
  have hfill : Failing.on s ((q.fill x rounds (Scan.ofRange (q.listing.range
      (q.listing.start x.generation q.collection.name) q.after) q.listing.direction
        Scan.defaultChunk) noItems).run []) =
      Failing.on s ((q.complete x noItems (A.filter q.accepts)).run []) :=
    on_fill h (fun r hr => ⟨((hmem r).mp hr).1, ((hmem r).mp hr).2.1⟩)
      ((Scan.rest_ofRange ..).trans hwithin) hlength (Nat.zero_le _) rfl
  rw [← hafter, page, read, Failing.on_bind, Failing.on_bind, hfill]

end PageQuery

namespace Database

variable {db : Database} {g : Generation} {request : Request} {q : PageQuery} {s : Store}
  {L : List Record}

/-- A page of a consistent index is read from the active generation. -/
theorem on_resolve_page (hG : db.graph.IsCompiled) (h : s.Indexes g db.graph)
    (hq : q.AskedBy db request)
    (hL : q.Matching (sortOrder? q.collection request) (s.records g) L) {rounds : Nat}
    (hrounds : s.entries.length < rounds) :
    (db.resolve rounds request).on s =
      (q.page ⟨db.graph, g⟩ (L.filter (q.listing.Follows q.after))).on s := by
  have hread := PageQuery.on_read (x := ⟨db.graph, g⟩) h.consistent hG hq.mem_collections
    hq.listing hL hrounds
  rw [resolve, query_eq_page_iff.mpr hq, ← hread]
  show Failing.on s (db.snapshot? >>= _) = _
  rw [on_snapshot?_bind h.presents]

/-- **A listing shows the records of its collection that meet the condition, in the order that was
asked for.** In a consistent index, of whatever collection, condition, order and page size, the
records that match are ordered in one way: by the values of the field, where a missing one comes
first, `false` before `true`, numbers by value and texts by their bytes, and then by path; the values
go the other way if the order descends, and the paths do not; by path only, if no field is asked for.
The page shows the first of those that come after the end of the page before, each once. -/
theorem run_resolve_page (hG : db.graph.IsCompiled) {host : Host}
    (h : host.store.Indexes g db.graph) (hq : db.query request = .ok (.page q)) {rounds : Nat}
    (hrounds : host.store.entries.length < rounds) :
    ∃ L : List Record, L.Nodup ∧
      (∀ r, r ∈ L ↔ r ∈ host.store.records g ∧ r.collection = request.collection ∧ q.accepts r) ∧
      L.Pairwise (SortOrder.Precedes (sortOrder? q.collection request)) ∧
      Host.run (db.resolve rounds request).run host =
        ((q.page ⟨db.graph, g⟩ (L.filter (q.listing.Follows q.after))).on host.store, host) := by
  have hasked := query_eq_page_iff.mp hq
  obtain ⟨L, hL, -⟩ := PageQuery.exists_matching h.consistent hG hasked.mem_collections hasked.listing
  have hon := on_resolve_page hG h hasked hL hrounds
  refine ⟨L, hL.nodup hasked.listing, ?_, hL.sorted, ?_⟩
  · rw [← hasked.name_eq]
    exact hL.mem
  · rw [(db.reads_resolve rounds request).run_eq, ← hon]
    rfl

end Database

/-! ### After a rebuild -/

/-- The index that a rebuild has left is consistent. -/
theorem Rebuild.Exact.indexes {db : Database} {fs : Source.Files} {before after : Store}
    {report : Report} (hG : db.graph.IsCompiled) (hlegible : db.Legible fs)
    (h : Exact db fs before report after) : after.Indexes report.generation db.graph := by
  have hholds : after.Holds report.generation db.graph {r | r ∈ records db fs} := by
    obtain ⟨previous, -, -, hentries⟩ := h.entries
    intro k v hk hinfo
    rw [hentries k v hk, or_iff_right (fun hkv => hinfo hkv.1)]
    constructor
    · rintro ⟨p, c, r, hp, hmem⟩
      obtain ⟨-, hc, hname, -⟩ := admits_of_document hG hlegible hp
      refine ⟨r, (mem_records_iff hG).mpr ⟨p, c, hp⟩, ?_⟩
      rwa [Graph.entries_eq hG hc hname]
    · rintro ⟨r, hr, hmem⟩
      obtain ⟨p, c, hp⟩ := (mem_records_iff hG).mp hr
      obtain ⟨-, hc, hname, -⟩ := admits_of_document hG hlegible hp
      rw [Graph.entries_eq hG hc hname] at hmem
      exact ⟨p, c, r, hp, hmem⟩
  obtain ⟨i, hi, -⟩ := h.presents.info
  refine ⟨h.presents, hholds.consistent hG (library_records hG hlegible) ?_⟩
  rw [hi]
  exact nofun

namespace Database

open Upkeep (laterFiles laterFiles_legible)

/-- The index of two notes. -/
@[irreducible] def notesStore : Store := (notebook.rebuild 4).leaves laterFiles 0 OrderedMap.empty

theorem notesStore_indexes : ∃ g, notesStore.Indexes g notebook.graph := by
  obtain ⟨report, h⟩ : ∃ report, (notebook.rebuild 4).Succeeds laterFiles OrderedMap.empty report
      notesStore := by
    unfold notesStore
    exact Failing.exists_succeeds 0 Upkeep.runs.2.2.2.1
  exact ⟨_, (Rebuild.exact_of_nextFree notebook_compiled laterFiles_legible
    Store.reachable_empty.nextFree h).indexes notebook_compiled laterFiles_legible⟩

/-- Asks for the notes, those that are done first. -/
def doneFirst : Request :=
  { Request.list "notes" .empty with sort := some ⟨"done", true⟩ }

theorem doneFirst_opens : doneFirst.Opens notebook notes where
  collection := rfl
  path := rfl
  cursor := rfl
  selection := rfl
  filter := nofun
  sort := by
    rintro o ⟨⟩
    exact Or.inr (by decide)
  size_pos := by decide
  size_le := by decide

/-- A host with the index of two notes. -/
def notesHost : Host := ⟨notesStore, .files laterFiles, 0, 0, false⟩

/-- The page of the two notes, those that are done first. -/
theorem run_resolve_page_notebook : ∃ (g : Generation) (q : PageQuery) (L : List Record),
    notesHost.store.Indexes g notebook.graph ∧ notebook.query doneFirst = .ok (.page q) ∧
      L.Nodup ∧
      (∀ r, r ∈ L ↔ r ∈ notesHost.store.records g ∧ r.collection = "notes" ∧ q.accepts r) ∧
      L.Pairwise (SortOrder.Precedes (sortOrder? q.collection doneFirst)) ∧
      Host.run (notebook.resolve (notesHost.store.entries.length + 1) doneFirst).run notesHost =
        ((q.page ⟨notebook.graph, g⟩ (L.filter (q.listing.Follows q.after))).on notesHost.store,
          notesHost) := by
  obtain ⟨g, h⟩ : ∃ g, notesHost.store.Indexes g notebook.graph := notesStore_indexes
  generalize notesHost = host at h
  obtain ⟨q, hq, -, -⟩ := doneFirst_opens.exists_query notebook_compiled (List.mem_singleton_self _)
  have hquery := query_eq_page_iff.mpr hq
  obtain ⟨L, hL⟩ := run_resolve_page notebook_compiled h hquery (Nat.lt_succ_self _)
  exact ⟨g, q, L, h, hquery, hL⟩

end Database

end ContentIndex
