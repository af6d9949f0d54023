import ContentIndex.Proofs.Paging
import ContentIndex.Proofs.Refusals

/-!
# What a cursor can reach

A cursor comes back from outside, so it may be any text at all. It is taken only if it was issued for
the collection and the order that are listed, and then its key is put after the start of the order.
Whatever the key is, the range from there on does not leave the order: a page shows records of its
own collection in the active generation, the first of those whose keys come after the one that the
cursor names.

## Main results

* `Database.refuses_foreign`: a cursor of another listing is refused
* `Database.confines_cursor`: **a cursor names its key in its own listing only, and whatever text is
  sent, a page shows what comes after the key in it**
-/

namespace ContentIndex

open Json (Value)

namespace Database

variable {db : Database} {g : Generation} {q : PageQuery} {host : Host} {request : Request}
  {rounds : Nat} {answer : Answer} {text : String}

/-- A request that would make sense with another cursor is refused for the fault of its cursor. -/
theorem query_eq_invalidCursor (hq : q.AskedBy db request) {fault : CursorFault}
    (h : Cursor.decode text q.collection.name q.listing.signature = .error fault) :
    db.query { request with cursor := some text } = .error (.invalidCursor fault) := by
  have hrequest : db.query { request with cursor := some text } = Except.map _ _ :=
    query_eq_map hq.path hq.collection hq.checked hq.size hq.predicate hq.listing hq.selection
  rw [hrequest]
  show ((((Cursor.decode text q.collection.name q.listing.signature).mapError
    QueryError.invalidCursor).map some).map _ : Except QueryError _) = _
  rw [h]
  rfl

/-- **A cursor of another listing is refused**, and nothing is read. -/
theorem refuses_foreign (hq : q.AskedBy db request) {k : Cursor}
    (h : k.collection ≠ q.collection.name ∨ k.order ≠ q.listing.signature) :
    ∃ fault, ∀ rounds host,
      Host.run (db.resolve rounds { request with cursor := some k.encode }).run host =
        (some (.error (.invalidCursor fault)), host) := by
  obtain ⟨fault, hfault⟩ : ∃ fault,
      Cursor.decode k.encode q.collection.name q.listing.signature = .error fault := by
    rw [Cursor.decode_encode_eq]
    rcases h with h | h
    · exact ⟨_, if_pos h⟩
    · rw [if_pos h]
      split <;> exact ⟨_, rfl⟩
  refine ⟨fault, fun rounds host => ?_⟩
  rw [resolve_of_query_error (query_eq_invalidCursor hq hfault)]
  rfl

/-- A request for a page that is answered makes sense. -/
theorem exists_askedBy (hpath : request.path = none) {host' : Host}
    (hrun : Host.run (db.resolve rounds request).run host = (some (.ok answer), host')) :
    ∃ q : PageQuery, q.AskedBy db request := by
  cases hquery : db.query request with
  | error e =>
    rw [resolve_of_query_error hquery] at hrun
    cases congrArg Prod.fst hrun
  | ok query =>
    cases query with
    | page q => exact ⟨q, query_eq_page_iff.mp hquery⟩
    | lookup c path selection =>
      unfold query at hquery
      obtain ⟨_, -, hquery⟩ := exists_of_bind_eq_ok hquery
      obtain ⟨_, -, hquery⟩ := exists_of_bind_eq_ok hquery
      rw [hpath] at hquery
      obtain ⟨_, -, hquery⟩ := exists_of_bind_eq_ok hquery
      cases hquery

/-- The key that a page goes on after is the one in the cursor. -/
theorem decode_of_askedBy (hq : q.AskedBy db request) (hcursor : request.cursor = some text) :
    ∃ k, q.after = some k ∧
      Cursor.decode text request.collection q.listing.signature = .ok k := by
  have hafter := hq.after
  rw [hcursor] at hafter
  rw [← hq.name_eq]
  cases hdecode : Cursor.decode text q.collection.name q.listing.signature with
  | error fault =>
    simp only [Option.mapM_some, hdecode] at hafter
    cases hafter
  | ok k =>
    simp only [Option.mapM_some, hdecode] at hafter
    exact ⟨k, (Except.ok.inj hafter).symm, rfl⟩

/-- **A cursor names its key in its own listing only, and whatever text is sent, a page shows what
comes after the key in it.** The text of a cursor has the key for its own collection and order, and
is refused for others. And let a request for a page with any text as its cursor be answered on a
consistent index. Then the text has a key for the collection and the order that are listed. The range
after the key does not leave the order. Of the records of the collection in the active generation
that meet the condition, in order, the page shows the first ones of those whose keys come after the
key, in the direction of the order, and tells whether there are more. -/
theorem confines_cursor (hG : db.graph.IsCompiled) :
    (∀ (k : Cursor) (collection order : String),
      Cursor.decode k.encode collection order =
        if k.collection ≠ collection then .error (.otherCollection k.collection collection)
        else if k.order ≠ order then .error (.otherOrder k.order order)
        else .ok k.key) ∧
    (∀ (request : Request) (q : PageQuery), q.AskedBy db request → ∀ k : Cursor,
      k.collection ≠ q.collection.name ∨ k.order ≠ q.listing.signature →
        ∃ fault, ∀ rounds host,
          Host.run (db.resolve rounds { request with cursor := some k.encode }).run host =
            (some (.error (.invalidCursor fault)), host)) ∧
    ∀ (host : Host) (g : Generation) (rounds : Nat) (request : Request) (text : String)
      (answer : Answer) (host' : Host), host.store.Indexes g db.graph →
      host.store.entries.length < rounds → request.path = none → request.cursor = some text →
      Host.run (db.resolve rounds request).run host = (some (.ok answer), host') →
        host' = host ∧ ∃ (q : PageQuery) (k : Bytes) (L : List Record),
          q.AskedBy db request ∧
          Cursor.decode text request.collection q.listing.signature = .ok k ∧
          (∀ key, (q.listing.range (q.listing.start g request.collection) (some k)).contains key →
            q.listing.start g request.collection <+: key) ∧
          L.Nodup ∧
          (∀ r, r ∈ L ↔ r ∈ host.store.records g ∧ r.collection = request.collection ∧
            q.accepts r) ∧
          L.Pairwise (SortOrder.Precedes (sortOrder? q.collection request)) ∧
          (∃ data, ((L.filter (q.listing.Follows (some k))).take q.size).mapM
              (q.shown? ⟨db.graph, g⟩ host.store) = some data ∧ answer.data = .array data) ∧
          answer.page = some ⟨((L.filter (q.listing.Follows (some k))).take q.size).getLast?.map
              fun r => q.cursor (q.listing.suffix r),
            q.size < (L.filter (q.listing.Follows (some k))).length⟩ := by
  refine ⟨Cursor.decode_encode_eq, fun request q hq k h => refuses_foreign hq h, ?_⟩
  intro host g rounds request text answer host' hindexes hrounds hpath hcursor hrun
  obtain ⟨q, hq⟩ := exists_askedBy hpath hrun
  obtain ⟨k, hafter, hdecode⟩ := decode_of_askedBy hq hcursor
  obtain rfl : host' = host := by
    rw [(db.reads_resolve rounds request).run_eq] at hrun
    exact (congrArg Prod.snd hrun).symm
  have hreads : db.Reads rounds request ⟨host', g, answer⟩ := ⟨hindexes, hrounds, hrun⟩
  obtain ⟨L, hL, hshows, hpage⟩ := hreads.exists_matching hG hq
  rw [hafter] at hshows hpage
  refine ⟨rfl, q, k, L, hq, hdecode, ?_, hL.nodup hq.listing, ?_, hL.sorted, hshows.data, hpage⟩
  · exact fun key hkey => (Listing.contains_range_iff.mp hkey).1
  · rw [← hq.name_eq]
    exact hL.mem

/-! ### A forged cursor -/

/-- All fields of a document can be shown. -/
theorem exists_shown?_empty (x : Snapshot) (s : Store) (c : Graph.Collection) (r : Record) :
    ∃ v, x.shown? s .empty c r = some v := by
  refine ⟨(Composite.ofRecord c r).withTemplate
    (FieldValue.fieldsToJson (Composite.ofRecord c r).fields), ?_⟩
  rw [Snapshot.shown?, Selection.empty, Selection.project]
  rfl

/-- Any documents can be shown together. -/
theorem exists_mapM_shown? (hselection : q.selection = .empty) (x : Snapshot) (s : Store)
    (L : List Record) : ∃ data, L.mapM (q.shown? x s) = some data := by
  induction L with
  | nil => exact ⟨[], rfl⟩
  | cons r L ih =>
    obtain ⟨data, hdata⟩ := ih
    obtain ⟨v, hv⟩ := exists_shown?_empty x s q.collection r
    refine ⟨v :: data, ?_⟩
    rw [List.mapM_cons, hdata, PageQuery.shown?, hselection, hv]
    rfl

/-- Asks for the notes that come after a key that no note has. -/
def forged : Request :=
  { doneFirst with cursor := some (Cursor.mk "notes" "done:desc" [0, 255]).encode }

/-- The page after the key is answered with the notes that come after it. -/
theorem confines_cursor_notebook : ∃ (g : Generation) (answer : Answer) (q : PageQuery)
    (L : List Record), notesHost.store.Indexes g notebook.graph ∧
      Host.run (notebook.resolve (notesHost.store.entries.length + 1) forged).run notesHost =
        (some (.ok answer), notesHost) ∧
      q.AskedBy notebook forged ∧
      (∀ r, r ∈ L ↔ r ∈ notesHost.store.records g ∧ r.collection = "notes" ∧ q.accepts r) ∧
      (∃ data, ((L.filter (q.listing.Follows (some [0, 255]))).take q.size).mapM
        (q.shown? ⟨notebook.graph, g⟩ notesHost.store) = some data ∧ answer.data = .array data) := by
  obtain ⟨g, h⟩ : ∃ g, notesHost.store.Indexes g notebook.graph := notesStore_indexes
  generalize notesHost = host at h
  obtain ⟨q, hq, hcollection, -⟩ :=
    doneFirst_opens.exists_query notebook_compiled (List.mem_singleton_self _)
  have hlisting : q.listing = .byField "done" true := by
    have := hq.listing
    rw [hcollection] at this
    exact (Except.ok.inj this).symm
  have hcursor : q.cursor [0, 255] = (Cursor.mk "notes" "done:desc" [0, 255]).encode := by
    rw [PageQuery.cursor, hcollection, hlisting]
    rfl
  have hforged : PageQuery.AskedBy { q with after := some [0, 255] } notebook forged := by
    rw [forged, ← hcursor]
    exact hq.next [0, 255]
  -- the page is answered, since all fields of its documents can be shown
  obtain ⟨answer, hanswer⟩ : ∃ answer,
      Host.run (notebook.resolve (host.store.entries.length + 1) forged).run host =
        (some (.ok answer), host) := by
    obtain ⟨L, -, -, -, hrun⟩ := run_resolve_page notebook_compiled h
      (query_eq_page_iff.mpr hforged) (Nat.lt_succ_self _)
    obtain ⟨data, hdata⟩ := exists_mapM_shown? hforged.selection ⟨notebook.graph, g⟩ host.store
      ((L.filter (q.listing.Follows (some [0, 255]))).take q.size)
    obtain ⟨ws, hpage⟩ := PageQuery.on_page_some hdata
    exact ⟨_, hrun.trans (congrArg (·, host) hpage)⟩
  obtain ⟨-, q', k, L, hq', hdecode, -, -, hmem, -, hdata, -⟩ :=
    (confines_cursor notebook_compiled).2.2 host g _ forged _ answer host h (Nat.lt_succ_self _) rfl
      rfl hanswer
  obtain rfl : q' = { q with after := some [0, 255] } :=
    Query.page.inj (Except.ok.inj
      ((query_eq_page_iff.mpr hq').symm.trans (query_eq_page_iff.mpr hforged)))
  have hkey : k = [0, 255] := by
    replace hdecode : Cursor.decode _ "notes" q.listing.signature = .ok k := hdecode
    rw [hlisting] at hdecode
    exact (Except.ok.inj ((Cursor.decode_encode ⟨"notes", "done:desc", [0, 255]⟩).symm.trans
      hdecode)).symm
  exact ⟨g, answer, _, L, h, hanswer, hq', hmem, hkey ▸ hdata⟩

end Database

end ContentIndex
