import ContentIndex.Proofs.Following
import ContentIndex.Proofs.Locations
import ContentIndex.Proofs.Refusals

/-!
# Answers mirror requests

What a request asks for and what a store holds determine what a query meets on its way, and with that
its result. An answer mirrors the selection of its request. Its notes are those of the references that
lead nowhere, one from each, in the order in which they are met. And a request fails for a reference if
and only if it meets one that no collection is stored with, or one that its field does not allow.

## Main definitions

* `Query.tour`: what a query meets
* `Query.Mirrors`: data with notes that mirror a query

## Main results

* `Query.on_answer`: the result of a query from what it meets
* `Database.answer_mirrors`: **answers mirror requests**
-/

namespace ContentIndex

open Graph (Kind)
open Json (Value)
open Location (Under)
open Projecting (Takes)
open Visit (locations)

/-! ### References without collections -/

/-- A reference that is met is allowed to lead into collections of the given names only. -/
def Visit.Declared (names : List String) : Visit → Prop
  | .reference _ allowed _ => ∀ n ∈ allowed, n ∈ names
  | _ => True

/-- A request fails for a reference if and only if no collection is stored with the reference, or one
that its field does not allow. -/
theorem Visit.isUnbound_iff {x : Snapshot} {s : Store} {v : Visit}
    (hv : v.Declared (x.graph.collections.map (·.name))) :
    (∃ location path allowed, v.failure? x s = some (.invalidReference location path allowed)) ↔
      v.IsUnbound := by
  cases v with
  | missing collection path => exact ⟨nofun, nofun⟩
  | unreadable e => exact ⟨nofun, nofun⟩
  | reference location allowed t =>
    rw [failure?]
    cases hbound : x.bound? allowed t with
    | none =>
      refine iff_of_true ⟨_, _, _, rfl⟩ fun c hc hallowed => ?_
      -- an allowed collection is one of the graph
      obtain ⟨o, ho, hname⟩ := List.mem_map.mp (hv c hallowed)
      rw [Snapshot.bound?, Option.mem_def.mp hc, Option.filter_some_pos (by simpa using hallowed),
        Option.bind_some] at hbound
      exact absurd hname (by simpa using List.find?_eq_none.mp hbound o ho)
    | some c =>
      obtain ⟨n, hn, -⟩ := Option.bind_eq_some_iff.mp hbound
      obtain ⟨hn, hallowed⟩ := Option.filter_eq_some_iff.mp hn
      refine iff_of_false ?_ fun h => h n hn (by simpa using hallowed)
      rintro ⟨_, _, _, h⟩
      dsimp only at h
      split at h
      · cases h
      · cases h

namespace Selection

variable {x : Snapshot} {s : Store}

theorem declared_tourLeaf (hG : x.graph.IsCompiled) {inner : Selection}
    (hinner : ∀ (d : Composite) (here : String), d.Declared (x.graph.collections.map (·.name)) →
      ∀ v ∈ inner.tour x s d here, v.Declared (x.graph.collections.map (·.name)))
    {l : Kind × FieldValue × String} (hl : l.1.Declared (x.graph.collections.map (·.name))) :
    ∀ v ∈ inner.tourLeaf x s l, v.Declared (x.graph.collections.map (·.name)) := by
  unfold tourLeaf
  split
  · next templates template fields here =>
    exact hinner (.ofObject templates template fields) here hl.2
  · next allowed t here =>
    split
    · exact List.forall_mem_nil _
    · refine List.forall_mem_cons.mpr ⟨hl, ?_⟩
      cases htarget : x.target? s allowed t with
      | none => exact List.forall_mem_nil _
      | some d => exact hinner d here (Snapshot.declared_of_target? hG htarget)
  · exact List.forall_mem_nil _

mutual

/-- The references that a projection meets are allowed to lead into collections of the graph only. -/
theorem declared_tour (hG : x.graph.IsCompiled) : ∀ (sel : Selection) (d : Composite) (here : String),
    d.Declared (x.graph.collections.map (·.name)) →
      ∀ v ∈ sel.tour x s d here, v.Declared (x.graph.collections.map (·.name))
  | .mk fields, d, here, hd => by
    rw [tour]
    exact declared_tourFields hG fields d here hd

theorem declared_tourFields (hG : x.graph.IsCompiled) :
    ∀ (fields : List (String × Selection)) (d : Composite) (here : String),
      d.Declared (x.graph.collections.map (·.name)) →
        ∀ v ∈ tourFields x s d here fields, v.Declared (x.graph.collections.map (·.name))
  | [], _, _, _ => by
    rw [tourFields]
    exact nofun
  | (name, inner) :: rest, d, here, hd => by
    rw [tourFields_cons]
    refine List.forall_mem_append.mpr ⟨fun v hv => ?_, declared_tourFields hG rest d here hd⟩
    obtain ⟨l, hl, hv⟩ := List.mem_flatMap.mp hv
    unfold Composite.leaves at hl
    split at hl
    · next k fv _ hfield =>
      have hk := (k.leaves_spread fv _).2.2 (hd.of_field? hfield).2 l hl
      exact declared_tourLeaf hG (declared_tour hG inner) hk v hv
    · cases hl

end

end Selection

/-! ### Pages -/

namespace PageQuery

variable (q : PageQuery) (x : Snapshot) (s : Store)

/-- The record that an entry of the order stands for, on a store. -/
def recordAt (e : Entry) : Except StorageError (Option Record) :=
  match q.listing with
  | .byPath _ => Record.ofStored? e.1 (some e.2)
  | .byField _ _ =>
    match e.2.text? with
    | some path => x.stored? s q.collection.name path
    | none => .error (.corrupt e.1.textLossy .unreadable)

theorem on_recordOf?_eq (e : Entry) : (q.recordOf? x e).on s = some (q.recordAt x s e) := by
  unfold recordOf? recordAt
  cases q.listing with
  | byPath descending => cases Record.ofStored? e.1 (some e.2) <;> rfl
  | byField field descending =>
    cases e.2.text? with
    | some path => exact x.on_record?_eq s _ _
    | none => rfl

/-- The record of an entry, if it can be read and meets the condition. -/
def accepted? (e : Entry) : Option Record :=
  (q.recordAt x s e).toOption.bind fun found => found.filter q.accepts

/-- The entries that a page is read from. -/
def entries : List Entry :=
  s.within (q.listing.range (q.listing.start x.generation q.collection.name) q.after)
    q.listing.direction

/-- What a page meets in its entries, with some items on it: the records of the entries in order, and
what their projections meet, until the page is full and another record would follow. -/
def tour : Nat → List Entry → List Visit
  | _, [] => []
  | n, e :: L =>
    match q.recordAt x s e with
    | .error fault => [.unreadable fault]
    | .ok found =>
      match found.filter q.accepts with
      | none => tour n L
      | some r =>
        if n = q.size then []
        else q.selection.tour x s (.ofRecord q.collection r) ("[" ++ toString n ++ "]") ++
          tour (n + 1) L

/-- Records on a page, from a number on, with what is shown of them and the notes on it. -/
inductive ItemsMirror : Nat → List Record → List Value → List Dangling → Prop
  | nil {n} : ItemsMirror n [] [] []
  | cons {n r v ws rs values ws'}
      (h : q.selection.Mirrors x s (.ofRecord q.collection r) ("[" ++ toString n ++ "]") v ws)
      (hrest : ItemsMirror (n + 1) rs values ws') :
    ItemsMirror n (r :: rs) (v :: values) (ws ++ ws')

variable {q x s} {L : List Entry} {items : Items}

/-- **A page shows the first records that meet its condition**, unless something that it meets cannot
be passed. -/
theorem takes_fill (hdistinct : q.selection.Distinct) {rounds : Nat} {scan : Scan}
    (hrest : scan.rest s = L) (hrounds : L.length < rounds) (hsize : items.data.length ≤ q.size) :
    Takes x s (q.fill x rounds scan items) (q.tour x s items.data.length L) fun items' ws =>
      ∃ values, items'.data = items.data ++ values ∧ q.ItemsMirror x s items.data.length
        ((L.filterMap (q.accepted? x s)).take (q.size - items.data.length)) values ws := by
  induction L generalizing rounds scan items with
  | nil =>
    obtain ⟨rounds, rfl⟩ := Nat.exists_eq_add_one.mpr hrounds
    rw [fill, tour]
    refine Takes.lift_bind (Failing.on_storage_ok (Scan.on_next_nil hrest))
      (.pure ⟨[], (List.append_nil _).symm, ?_⟩)
    rw [List.filterMap_nil, List.take_nil]
    exact .nil
  | cons e L ih =>
    obtain ⟨rounds, rfl⟩ := Nat.exists_eq_add_one.mpr (Nat.zero_lt_of_lt hrounds)
    have hlt : L.length < rounds := Nat.lt_of_succ_lt_succ hrounds
    obtain ⟨scan', hnext, hrest'⟩ := Scan.on_next_cons hrest
    have hread := on_recordOf?_eq (q := q) (x := x) (s := s) e
    have haccepted {found : Option Record} (hfound : q.recordAt x s e = .ok found) :
        q.accepted? x s e = found.filter q.accepts := by
      rw [accepted?, hfound]
      rfl
    rw [fill, tour]
    refine Takes.lift_bind (Failing.on_storage_ok hnext) ?_
    cases hfound : q.recordAt x s e with
    | error fault =>
      rw [hfound] at hread
      exact Takes.lift_bind_error (Failing.on_storage_error hread) rfl
    | ok found =>
      rw [hfound] at hread
      refine Takes.lift_bind (Failing.on_storage_ok hread) ?_
      dsimp only
      cases hrecord : found.filter q.accepts with
      | none =>
        rw [List.filterMap_cons_none ((haccepted hfound).trans hrecord)]
        exact ih hrest' hlt hsize
      | some r =>
        rw [List.filterMap_cons_some ((haccepted hfound).trans hrecord)]
        dsimp only
        split
        · next hfull =>
          -- the page is full, and what follows is not met
          refine .pure ⟨[], (List.append_nil _).symm, ?_⟩
          rw [hfull, Nat.sub_self, List.take_zero]
          exact .nil
        · next hroom =>
          have hlt' : items.data.length < q.size := Nat.lt_of_le_of_ne hsize hroom
          refine Takes.bind (Selection.takes_project x s q.selection hdistinct _ _) fun v hv => ?_
          have hlength : (items.data ++ [v]).length = items.data.length + 1 := by
            rw [List.length_append, List.length_singleton]
          rw [← hlength]
          refine (ih hrest' hlt (hlength ▸ hlt')).mono ?_
          rintro items' ws ⟨values, hdata, hitems⟩
          rw [hlength] at hitems
          refine ⟨v :: values, by simpa using hdata, ?_⟩
          rw [show q.size - items.data.length = q.size - (items.data.length + 1) + 1 by omega,
            List.take_succ_cons]
          exact .cons hv hitems

/-- The references that a page meets are allowed to lead into collections of the graph only. -/
theorem declared_tour (hG : x.graph.IsCompiled) (hc : q.collection ∈ x.graph.collections) (n : Nat)
    (L : List Entry) :
    ∀ v ∈ q.tour x s n L, v.Declared (x.graph.collections.map (·.name)) := by
  induction L generalizing n with
  | nil => exact nofun
  | cons e L ih =>
    rw [tour]
    split
    · exact List.forall_mem_singleton.mpr trivial
    · split
      · exact ih n
      · next r _ =>
        split
        · exact nofun
        · refine List.forall_mem_append.mpr ⟨?_, ih (n + 1)⟩
          exact Selection.declared_tour hG q.selection _ _ (Composite.declared_ofRecord hG hc r)

/-- **No two references that a page meets have one place**, and each lies below an item. -/
theorem nodup_tour (hG : x.graph.IsCompiled) (hc : q.collection ∈ x.graph.collections)
    (hdistinct : q.selection.Distinct) (n : Nat) (L : List Entry) :
    (locations (q.tour x s n L)).Nodup ∧ ∀ location ∈ locations (q.tour x s n L),
      ∃ i ≥ n, Under ("[" ++ toString i ++ "]") location := by
  induction L generalizing n with
  | nil => exact ⟨List.nodup_nil, List.forall_mem_nil _⟩
  | cons e L ih =>
    rw [tour]
    split
    · exact ⟨List.nodup_nil, List.forall_mem_nil _⟩
    · split
      · exact ih n
      · next r _ =>
        split
        · exact ⟨List.nodup_nil, List.forall_mem_nil _⟩
        · obtain ⟨hitem, hbelow⟩ := Selection.nodup_tour hG q.selection hdistinct
            (.ofRecord q.collection r) ("[" ++ toString n ++ "]") (Composite.declared_ofRecord hG hc r)
            (s := s)
          obtain ⟨hrest, hunder⟩ := ih (n + 1)
          have hplace : "[" ++ toString n ++ "]" ≠ "" := by simp
          have hitems : ∀ location ∈ locations (q.selection.tour x s (.ofRecord q.collection r)
              ("[" ++ toString n ++ "]")), Under ("[" ++ toString n ++ "]") location := by
            intro location hlocation
            obtain ⟨name, -, h⟩ := hbelow location hlocation
            exact (Location.under_member hplace name).trans h
          rw [Visit.locations_append]
          refine ⟨List.nodup_append.mpr ⟨hitem, hrest, ?_⟩, List.forall_mem_append.mpr
            ⟨fun location hlocation => ⟨n, Nat.le_refl n, hitems location hlocation⟩,
              fun location hlocation => ?_⟩⟩
          · -- later items have greater numbers
            rintro location hlocation _ hlocation' rfl
            obtain ⟨i, hi, h⟩ := hunder location hlocation'
            have hfirst : Under ("" ++ "[" ++ toString n ++ "]") location := hitems location hlocation
            have heq := Location.index_eq_of_under hfirst h
            omega
          · obtain ⟨i, hi, h⟩ := hunder location hlocation
            exact ⟨i, Nat.le_of_succ_le hi, h⟩

end PageQuery

/-! ### Queries -/

namespace Query

/-- The selection of a query. -/
def selection : Query → Selection
  | .lookup _ _ selection => selection
  | .page q => q.selection

/-- The collection of a query. -/
def collection : Query → Graph.Collection
  | .lookup c _ _ => c
  | .page q => q.collection

variable (x : Snapshot) (s : Store)

/-- What a query meets. -/
def tour : Query → List Visit
  | .lookup c path selection =>
    match x.stored? s c.name path with
    | .error e => [.unreadable e]
    | .ok none => [.missing c.name path]
    | .ok (some r) => selection.tour x s (.ofRecord c r) ""
  | .page q => q.tour x s 0 (q.entries x s)

/-- The data and the notes mirror the query: the document that is asked for, or the first records that
meet the condition of a listing. -/
def Mirrors : Query → Value → List Dangling → Prop
  | .lookup c path selection, data, ws => ∃ r, x.stored? s c.name path = .ok (some r) ∧
    selection.Mirrors x s (.ofRecord c r) "" data ws
  | .page q, data, ws => ∃ values, data = .array values ∧ q.ItemsMirror x s 0
    (((q.entries x s).filterMap (q.accepted? x s)).take q.size) values ws

variable {x s} {db : Database} {rounds : Nat} {q : Query}

/-- **The result of a query is known from what it meets.** -/
theorem on_answer (hx : db.snapshot?.on s = some (.ok (some x))) (hdistinct : q.selection.Distinct)
    (hrounds : s.entries.length < rounds) :
    (∀ e, x.failure? s (q.tour x s) = some e → (q.answer db rounds).on s = some (.error e)) ∧
      (x.failure? s (q.tour x s) = none → ∃ a, (q.answer db rounds).on s = some (.ok a) ∧
        q.Mirrors x s a.data a.warnings ∧ a.warnings = x.warnings s (q.tour x s)) := by
  cases q with
  | lookup c path sel =>
    have hread := x.on_record?_eq s c.name path
    rw [answer, Database.lookup, Failing.on_bind_ok hx, tour]
    dsimp only
    cases hstored : x.stored? s c.name path with
    | error e =>
      rw [hstored] at hread
      rw [Failing.on_bind_error (Failing.on_storage_error hread)]
      refine ⟨fun e' he => ?_, nofun⟩
      cases he
      rfl
    | ok found =>
      rw [hstored] at hread
      rw [Failing.on_bind_ok (Failing.on_storage_ok hread)]
      cases found with
      | none =>
        refine ⟨fun e he => ?_, nofun⟩
        cases he
        rfl
      | some r =>
        have htakes := Selection.takes_project x s sel hdistinct (.ofRecord c r) ""
        refine ⟨fun e he => Failing.on_bind_error (htakes.fails e he []) _, fun hnone => ?_⟩
        obtain ⟨v, hv, hrun⟩ := htakes.shows hnone
        exact ⟨_, Failing.on_bind_ok (hrun []) _, ⟨r, hstored, hv⟩, rfl⟩
  | page q =>
    have hrest := Scan.rest_ofRange (q.listing.range (q.listing.start x.generation q.collection.name)
      q.after) q.listing.direction Scan.defaultChunk s
    have hroom : PageQuery.noItems.data.length ≤ q.size := Nat.zero_le _
    have htakes := PageQuery.takes_fill (x := x) hdistinct hrest
      ((Store.length_within_le ..).trans_lt hrounds) hroom
    rw [answer, Database.readPage, Failing.on_bind_ok hx, tour]
    refine ⟨fun e he => Failing.on_bind_error (htakes.fails e he []) _, fun hnone => ?_⟩
    obtain ⟨items, ⟨values, hdata, hitems⟩, hrun⟩ := htakes.shows hnone
    exact ⟨_, Failing.on_bind_ok (hrun []) _, ⟨values, congrArg _ hdata, hitems⟩, rfl⟩

theorem mirrors_of_answer (hx : db.snapshot?.on s = some (.ok (some x)))
    (hdistinct : q.selection.Distinct) (hrounds : s.entries.length < rounds) {answer : Answer}
    (h : (q.answer db rounds).on s = some (.ok answer)) : q.Mirrors x s answer.data answer.warnings := by
  obtain ⟨hfails, hshows⟩ := on_answer hx hdistinct hrounds
  cases hfailure : x.failure? s (q.tour x s) with
  | some e =>
    rw [hfails e hfailure] at h
    cases h
  | none =>
    obtain ⟨answer', hrun, hmirrors, -⟩ := hshows hfailure
    rw [h] at hrun
    cases hrun
    exact hmirrors

/-- The references that a query meets are allowed to lead into collections of the graph only. -/
theorem declared_tour (hG : x.graph.IsCompiled) (hc : q.collection ∈ x.graph.collections) :
    ∀ v ∈ q.tour x s, v.Declared (x.graph.collections.map (·.name)) := by
  cases q with
  | lookup c path sel =>
    rw [tour]
    split
    · exact List.forall_mem_singleton.mpr trivial
    · exact List.forall_mem_singleton.mpr trivial
    · next r _ => exact Selection.declared_tour hG sel _ _ (Composite.declared_ofRecord hG hc r)
  | page q => exact PageQuery.declared_tour hG hc 0 _

/-- No two references that a query meets have one place. -/
theorem nodup_tour (hG : x.graph.IsCompiled) (hc : q.collection ∈ x.graph.collections)
    (hdistinct : q.selection.Distinct) : (locations (q.tour x s)).Nodup := by
  cases q with
  | lookup c path sel =>
    rw [tour]
    split
    · exact List.nodup_nil
    · exact List.nodup_nil
    · next r _ =>
      exact (Selection.nodup_tour hG sel hdistinct _ _ (Composite.declared_ofRecord hG hc r)).1
  | page q => exact (PageQuery.nodup_tour hG hc hdistinct 0 _).1

end Query

/-! ### Requests -/

namespace Database

variable {db : Database} {s : Store} {x : Snapshot} {r : Request} {q : Query}

/-- A query reads with the graph of its database. -/
theorem graph_of_snapshot? (h : db.snapshot?.on s = some (.ok (some x))) : x.graph = db.graph := by
  rw [snapshot?, Failing.on_bind] at h
  obtain ⟨active, -, h⟩ := Option.bind_eq_some_iff.mp h
  rcases active with e | _ | ⟨g, b⟩
  · cases h
  · cases h
  · dsimp only at h
    rw [Failing.on_bind] at h
    obtain ⟨info, -, h⟩ := Option.bind_eq_some_iff.mp h
    cases info with
    | error e => cases h
    | ok info =>
      dsimp only at h
      split at h
      · split at h
        · cases h
          rfl
        · cases h
      · cases h

/-- A query has the selection of its request, and a collection of the graph. -/
theorem selection_of_query (h : db.query r = .ok q) :
    q.selection = r.selection ∧ q.collection ∈ db.graph.collections := by
  cases q with
  | page q =>
    have h := query_eq_page_iff.mp h
    exact ⟨h.selection, h.mem_collections⟩
  | lookup c path sel =>
    unfold query at h
    obtain ⟨c', hcollection, h⟩ := exists_of_bind_eq_ok h
    obtain ⟨_, -, h⟩ := exists_of_bind_eq_ok h
    split at h
    · cases h
      unfold collection at hcollection
      split at hcollection
      · next hfound =>
        cases hcollection
        exact ⟨rfl, List.mem_of_find?_eq_some hfound⟩
      · cases hcollection
    · obtain ⟨_, -, h⟩ := exists_of_bind_eq_ok h
      cases h

/-- A record of an index that is read back as it was written is found. -/
theorem Tells.stored?_eq {U : Set Bytes} {g : Generation} {D : Set Record} (hG : db.graph.IsCompiled)
    (h : db.Tells U s g D) {r : Record} (hr : r ∈ D) (hread : Record.ofBytes? r.toBytes = some r) :
    Snapshot.stored? ⟨db.graph, g⟩ s r.collection r.path = .ok (some r) := by
  have hget := (h.get?_document_eq_some_iff hG).mpr ⟨r, hr, rfl, rfl, rfl⟩
  rw [Snapshot.stored?, Snapshot.key, hget, Record.ofStored?, hread]

/-- **Answers mirror requests.** On whatever store a request is answered, the data mirror the request,
with the selected names as the keys of each object, nothing for what is not set, and the document of
each reference that is selected into, if it is there. The notes are those of the references that lead
nowhere, one from each, with its place, in the order in which they are met. And the request fails for
a reference if and only if it meets one that is selected into and that is stored without a collection,
or with one that its field does not allow. -/
theorem answer_mirrors (hG : db.graph.IsCompiled) (hx : db.snapshot?.on s = some (.ok (some x)))
    (hquery : db.query r = .ok q) (hdistinct : r.selection.Distinct) {rounds : Nat}
    (hrounds : s.entries.length < rounds) :
    ∃ result, (db.resolve rounds r).on s = some result ∧
      ((∃ location path allowed, result = .error (.invalidReference location path allowed)) ↔
        ∃ v, x.Meets s (q.tour x s) v ∧ v.IsUnbound) ∧
      ∀ answer, result = .ok answer → q.Mirrors x s answer.data answer.warnings ∧
        answer.warnings = x.warnings s (q.tour x s) ∧ (answer.warnings.map (·.location)).Nodup := by
  obtain ⟨hselection, hc⟩ := selection_of_query hquery
  rw [← hselection] at hdistinct
  rw [← graph_of_snapshot? hx] at hG hc
  obtain ⟨hfails, hshows⟩ := Query.on_answer hx hdistinct hrounds
  have hunbound : (∃ location path allowed,
      x.failure? s (q.tour x s) = some (.invalidReference location path allowed)) ↔
        ∃ v, x.Meets s (q.tour x s) v ∧ v.IsUnbound := by
    simp only [Snapshot.failure?_eq_some_iff]
    constructor
    · rintro ⟨location, path, allowed, v, hv, hfailure⟩
      have hdeclared := Query.declared_tour hG hc v hv.mem
      exact ⟨v, hv, (Visit.isUnbound_iff hdeclared).mp ⟨location, path, allowed, hfailure⟩⟩
    · rintro ⟨v, hv, h⟩
      have hdeclared := Query.declared_tour hG hc v hv.mem
      obtain ⟨location, path, allowed, hfailure⟩ := (Visit.isUnbound_iff hdeclared).mpr h
      exact ⟨location, path, allowed, v, hv, hfailure⟩
  rw [resolve_of_query hquery, ← hunbound]
  cases hfailure : x.failure? s (q.tour x s) with
  | some e =>
    refine ⟨.error e, hfails e hfailure, ?_, nofun⟩
    simp only [Except.error.injEq, Option.some.injEq]
  | none =>
    obtain ⟨answer, hrun, hmirrors, hwarnings⟩ := hshows hfailure
    refine ⟨.ok answer, hrun, ⟨nofun, nofun⟩, ?_⟩
    rintro _ ⟨⟩
    refine ⟨hmirrors, hwarnings, ?_⟩
    rw [hwarnings]
    exact (Visit.sublist_locations x s _).nodup (Query.nodup_tour hG hc hdistinct)

end Database


/-! ### A reference that leads nowhere -/

namespace Following

/-- Asks for the title of what the document refers to next. -/
def nextTitle : Request := .get "docs" "docs/b.json" (.mk [("next", .mk [("title", .empty)])])

/-- The query of the request. -/
def nextTitleQuery : Query := .lookup docs "docs/b.json" nextTitle.selection

theorem query_nextTitle : site.query nextTitle = .ok nextTitleQuery := by
  rfl

theorem nextTitle_distinct : nextTitle.selection.Distinct := by
  refine ⟨List.nodup_singleton _, List.forall_mem_singleton.mpr ⟨List.nodup_singleton _, ?_⟩⟩
  exact List.forall_mem_singleton.mpr ⟨List.nodup_nil, List.forall_mem_nil _⟩

theorem docs_mem : docs ∈ site.graph.collections :=
  List.mem_cons_of_mem _ (List.mem_singleton_self _)

/-- The post is not among the documents, which the reference leads into. -/
theorem not_stored_in_docs {trace : Trace Unit} {w : World Unit (Except IndexError Report)}
    {g : Generation}
    (run : Interleaving (fun _ => (Run.rebuild site 4).program) OrderedMap.empty trace w) :
    w.store.get? (Key.document g docs.name post).encode = none := by
  by_contra hne
  obtain ⟨v, hv⟩ := Option.ne_none_iff_exists'.mp hne
  obtain ⟨r, -, hpath, hmakes⟩ :=
    Graph.exists_makes_of_get? site_compiled (fun _ => rfl) run docs_mem hv
  have howner := hpath ▸ hmakes.owner
  exact absurd (howner.symm.trans post_owner) (by decide)

/-- The reference leads into the collection of documents. -/
theorem bound?_next (g : Generation) :
    Snapshot.bound? ⟨site.graph, g⟩ ["docs", "blog"] next = some docs :=
  site_compiled.collection?_eq docs_mem

/-- All that the request meets in the index is the reference, and its document is not there. -/
theorem exists_tour : ∃ (s : Store) (g : Generation), s.Presents g site.graph ∧
    Snapshot.stored? ⟨site.graph, g⟩ s docs.name post = .ok none ∧
    nextTitleQuery.tour ⟨site.graph, g⟩ s = [.reference "next" ["docs", "blog"] next] := by
  obtain ⟨trace, w, g, run, htells⟩ := exists_built
  obtain ⟨r, hr, hname, hpath, htemplate, hfields⟩ := exists_linked
  have hread : Record.ofBytes? r.toBytes = some r :=
    Record.ofBytes?_toBytes_of_fields (by rw [hfields]; rfl)
  have hstored : Snapshot.stored? ⟨site.graph, g⟩ w.store docs.name "docs/b.json" =
      .ok (some r) := hname ▸ hpath ▸ htells.stored?_eq site_compiled hr hread
  have hnone : Snapshot.stored? ⟨site.graph, g⟩ w.store docs.name post = .ok none := by
    rw [Snapshot.stored?, Snapshot.key, not_stored_in_docs run, Record.ofStored?]
  have hleaves : (Composite.ofRecord docs r).leaves "" "next" =
      [(.reference ["docs", "blog"], .reference next, "next")] := by
    unfold Composite.ofRecord
    rw [htemplate, hfields]
    rfl
  have htarget : Snapshot.target? ⟨site.graph, g⟩ w.store ["docs", "blog"] next = none :=
    Snapshot.target?_eq (bound?_next g) hnone
  refine ⟨w.store, g, htells.presents, hnone, ?_⟩
  rw [nextTitleQuery, Query.tour, hstored]
  show (Selection.mk [("next", .mk [("title", .empty)])]).tour _ _ _ _ = _
  rw [Selection.tour, Selection.tourFields_cons, hleaves, Selection.tourFields, List.append_nil,
    List.flatMap_cons, List.flatMap_nil, List.append_nil, Selection.tourLeaf, htarget]
  rfl

end Following

/-- The document of a reference is not there. Nothing is shown for it, and that is noted once. -/
theorem Database.answer_mirrors_site : ∃ (s : Store) (answer : Answer),
    (Following.site.resolve (s.entries.length + 1) Following.nextTitle).on s = some (.ok answer) ∧
      answer.warnings = [⟨"next", "docs", Following.post⟩] := by
  obtain ⟨s, g, hpresents, hnone, htour⟩ := Following.exists_tour
  have hx := on_snapshot? hpresents
  have hbound := Following.bound?_next g
  have hrounds := Nat.lt_succ_self s.entries.length
  have hpass : Snapshot.failure? ⟨Following.site.graph, g⟩ s
      (Following.nextTitleQuery.tour ⟨Following.site.graph, g⟩ s) = none := by
    rw [htour, Snapshot.failure?, List.findSome?_cons, Visit.failure?, hbound]
    dsimp only
    rw [show Following.next.path = Following.post from rfl, hnone]
    rfl
  obtain ⟨result, hrun, -, hanswer⟩ := answer_mirrors Following.site_compiled hx
    Following.query_nextTitle Following.nextTitle_distinct hrounds
  obtain ⟨answer, hshown, -⟩ := (Query.on_answer (q := Following.nextTitleQuery) hx
    Following.nextTitle_distinct hrounds).2 hpass
  rw [← resolve_of_query Following.query_nextTitle] at hshown
  obtain rfl := Option.some.inj (hrun.symm.trans hshown)
  refine ⟨s, answer, hrun, ?_⟩
  rw [(hanswer answer rfl).2.1, htour, Snapshot.warnings, List.filterMap_cons, Visit.warning?, hbound,
    Option.bind_some, show Following.next.path = Following.post from rfl, hnone]
  rfl

end ContentIndex
