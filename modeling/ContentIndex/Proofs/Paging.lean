import ContentIndex.Proofs.Cursors
import ContentIndex.Proofs.Pages
import ContentIndex.Proofs.Projections

/-!
# Paging through a listing

A client asks for the first page of a listing, and as long as there are more documents it asks again
with the cursor at the end of the page. A page ends with the key of its last document, without the
part that names the generation, and the next one goes on after that key in the generation that is
active by then. So a document is on the page where its key falls, whatever else comes and goes.

## Main definitions

* `Database.readAll`: a listing that is read to its end
* `Database.Turns`: pages that are read one after another, while the index may change between them

## Main results

* `PageQuery.following_last`: a page goes on where the page before ended
* `Database.paging`: **paging shows every document of a listing once, and in order**, and a document
  that stays as it is shown once even if the index changes
-/

namespace ContentIndex

open Json (Value)
open Projecting (Shows)

/-! ### What a page shows -/

namespace PageQuery

variable {q : PageQuery} {x : Snapshot} {s : Store} {L : List Record} {data : List Value}

/-- What is shown of a record, on a store; none if it cannot be shown. -/
def shown? (q : PageQuery) (x : Snapshot) (s : Store) (r : Record) : Option Value :=
  x.shown? s q.selection q.collection r

/-- Records are shown in order, or not at all if one of them cannot be shown. -/
theorem shows_showAll (q : PageQuery) (x : Snapshot) (s : Store) (n : Nat) (L : List Record) :
    Shows s (q.showAll x n L) (L.mapM (q.shown? x s)) := by
  induction L generalizing n with
  | nil => exact .pure []
  | cons r L ih =>
    have hfirst := q.selection.shows_project (s := s) x q.collection r ("[" ++ toString n ++ "]")
    rw [List.mapM_cons, showAll]
    cases hr : q.shown? x s r with
    | none =>
      rw [shown?] at hr
      rw [hr] at hfirst
      exact hfirst.bind_none
    | some v =>
      rw [shown?] at hr
      rw [hr] at hfirst
      refine hfirst.bind_some ?_
      have hrest := ih (n + 1)
      cases hL : L.mapM (q.shown? x s) with
      | none =>
        rw [hL] at hrest
        exact hrest.bind_none
      | some vs =>
        rw [hL] at hrest
        exact hrest.bind_some (.pure (v :: vs))

/-- The answer with the first of some records, if they can be shown. -/
theorem on_page_some (h : (L.take q.size).mapM (q.shown? x s) = some data) :
    ∃ ws, (q.page x L).on s = some (.ok ⟨.array data,
      some ⟨(L.take q.size).getLast?.map fun r => q.cursor (q.listing.suffix r),
        q.size < L.length⟩, ws⟩) := by
  have hshow := q.shows_showAll x s 0 (L.take q.size)
  rw [h] at hshow
  obtain ⟨p, hp, hv⟩ := hshow []
  cases p with
  | error e => cases hv
  | ok p =>
    obtain ⟨vs, ws⟩ := p
    obtain rfl : vs = data := Option.some.inj hv
    have hcomplete : Failing.on s ((q.complete x noItems L).run []) =
        some (.ok (⟨vs, ((L.take q.size).getLast?.map q.listing.suffix).or none,
          q.size < 0 + L.length⟩, ws)) :=
      (Failing.on_bind_ok hp _).trans rfl
    refine ⟨ws, (Failing.on_bind_ok hcomplete _).trans ?_⟩
    simp only [answer, Option.or_none, Option.map_map, Nat.zero_add, Function.comp_def,
      Failing.on_pure]

/-- There is no answer if one of the records cannot be shown. -/
theorem on_page_none (h : (L.take q.size).mapM (q.shown? x s) = none) :
    ∃ e, (q.page x L).on s = some (.error e) := by
  have hshow := q.shows_showAll x s 0 (L.take q.size)
  rw [h] at hshow
  obtain ⟨p, hp, hv⟩ := hshow []
  cases p with
  | ok p => cases hv
  | error e =>
    have hcomplete : Failing.on s ((q.complete x noItems L).run []) = some (.error e) :=
      Failing.on_bind_error hp _
    exact ⟨e, Failing.on_bind_error hcomplete _⟩

/-! ### Where the next page begins -/

/-- No record of ordered ones comes after the last. -/
theorem not_before_getLast {a r : Record}
    (h : L.Pairwise fun r r' => q.listing.direction.Before (q.listing.suffix r) (q.listing.suffix r'))
    (ha : L.getLast? = some a) (hr : r ∈ L) :
    ¬ q.listing.direction.Before (q.listing.suffix a) (q.listing.suffix r) := by
  obtain ⟨front, rfl⟩ : ∃ front, L = front ++ [a] := List.getLast?_eq_some_iff.mp ha
  rw [List.pairwise_append] at h
  rcases List.mem_append.mp hr with hr | hr
  · exact (h.2.2 r hr a (List.mem_singleton_self a)).asymm
  · rw [List.mem_singleton.mp hr]
    exact Direction.Before.irrefl

/-- **A page goes on where the page before ended.** -/
theorem following_last {after : Option Bytes} {n : Nat} {a : Record}
    (h : L.Pairwise fun r r' => q.listing.direction.Before (q.listing.suffix r) (q.listing.suffix r'))
    (ha : ((L.filter (q.listing.Follows after)).take n).getLast? = some a) :
    L.filter (q.listing.Follows (some (q.listing.suffix a))) =
      (L.filter (q.listing.Follows after)).drop n := by
  obtain ⟨A, B, hA, hB, hsplit⟩ : ∃ A B,
      (L.filter (q.listing.Follows after)).take n = A ∧
      (L.filter (q.listing.Follows after)).drop n = B ∧
      L.filter (q.listing.Follows after) = A ++ B :=
    ⟨_, _, rfl, rfl, (List.take_append_drop n _).symm⟩
  rw [hA] at ha
  rw [hB]
  have hsorted : (A ++ B).Pairwise fun r r' =>
      q.listing.direction.Before (q.listing.suffix r) (q.listing.suffix r') :=
    hsplit ▸ h.sublist List.filter_sublist
  have hmem (r : Record) : r ∈ L ∧ q.listing.Follows after r ↔ r ∈ A ∨ r ∈ B := by
    rw [← List.mem_append, ← hsplit, List.mem_filter, decide_eq_true_iff]
  have hlast : a ∈ A := List.mem_of_getLast? ha
  obtain ⟨hsortedA, hsortedB, hAB⟩ := List.pairwise_append.mp hsorted
  refine Direction.Before.eq_of_pairwise (h.sublist List.filter_sublist) hsortedB fun r => ?_
  rw [List.mem_filter, decide_eq_true_iff]
  constructor
  · rintro ⟨hr, hfollows⟩
    have hbefore := hfollows _ rfl
    -- what comes after the page comes after the page before it, too
    have hafter : q.listing.Follows after r := fun k hk =>
      (((hmem a).mpr (Or.inl hlast)).2 k hk).trans hbefore
    rcases (hmem r).mp ⟨hr, hafter⟩ with hrA | hrB
    · exact absurd hbefore (not_before_getLast hsortedA ha hrA)
    · exact hrB
  · intro hr
    refine ⟨((hmem r).mpr (Or.inr hr)).1, ?_⟩
    rintro _ ⟨⟩
    exact hAB a hlast r hr

variable {db : Database} {request : Request}

/-- The cursor of a page asks for what comes after its key. -/
theorem AskedBy.next (h : q.AskedBy db request) (k : Bytes) :
    AskedBy { q with after := some k } db { request with cursor := some (q.cursor k) } where
  path := h.path
  collection := h.collection
  checked := h.checked
  size := h.size
  predicate := h.predicate
  listing := h.listing
  after := by
    show some <$> ((Cursor.decode (q.cursor k) q.collection.name q.listing.signature).mapError _) = _
    rw [cursor, Cursor.decode_encode ⟨q.collection.name, q.listing.signature, k⟩]
    rfl
  selection := h.selection

end PageQuery

/-! ### Reading to the end -/

/-- The items of a page. -/
def Answer.items (a : Answer) : List Value :=
  match a.data with
  | .array items => items
  | _ => []

namespace Database

/-- A listing that is read to its end: as long as there are more documents, the next page is asked
for with the cursor at the end of the page. -/
def readAll (db : Database) (rounds : Nat) : (pages : Nat) → Request → Failing QueryError (List Value)
  | 0, _ => Failing.cut
  | pages + 1, request => do
    let answer ← db.resolve rounds request
    match answer.page with
    | some ⟨some cursor, true⟩ =>
      return answer.items ++ (← db.readAll rounds pages { request with cursor := some cursor })
    | _ => return answer.items

variable {db : Database} {g : Generation} {q : PageQuery} {s : Store} {L : List Record}
  {request : Request} {rounds pages : Nat}

/-- It does nothing but read. -/
theorem within_readAll (db : Database) (rounds pages : Nat) (request : Request) :
    (db.readAll rounds pages request).Within ⟨fun _ => True, True⟩ fun _ => True := by
  induction pages generalizing request with
  | zero => exact Failing.Within.cut trivial
  | succ pages ih =>
    have hpage : (db.resolve rounds request).Within ⟨fun _ => True, True⟩ fun _ => True :=
      (db.reads_resolve rounds request).within.mono fun _ _ _ _ => trivial
    refine Failing.Within.bind hpage fun answer _ => ?_
    split
    · exact Failing.Within.bind (ih _) fun _ _ => Failing.Within.pure trivial
    · exact Failing.Within.pure trivial

/-- After the last page nothing is read. -/
theorem on_readAll_last {answer : Answer} {cursor : Option String}
    (h : (db.resolve rounds request).on s = some (.ok answer))
    (hpage : answer.page = some ⟨cursor, false⟩) :
    (db.readAll rounds (pages + 1) request).on s = some (.ok answer.items) := by
  rw [readAll, Failing.on_bind_ok h, hpage]
  cases cursor <;> rfl

/-- After another page the next one is read. -/
theorem on_readAll_next {answer : Answer} {cursor : String}
    (h : (db.resolve rounds request).on s = some (.ok answer))
    (hpage : answer.page = some ⟨some cursor, true⟩) {result : Except QueryError (List Value)}
    (hrest : (db.readAll rounds pages { request with cursor := some cursor }).on s = some result) :
    (db.readAll rounds (pages + 1) request).on s = some (result.map (answer.items ++ ·)) := by
  rw [readAll, Failing.on_bind_ok h, hpage]
  show Failing.on s (db.readAll rounds pages _ >>= _) = _
  cases result with
  | ok data => exact Failing.on_bind_ok hrest _
  | error e => exact Failing.on_bind_error hrest _

/-- What is read to the end is every record that follows, in order. -/
theorem on_readAll (hG : db.graph.IsCompiled) (h : s.Indexes g db.graph)
    (hrounds : s.entries.length < rounds) (hq : q.AskedBy db request)
    (hL : q.Matching (sortOrder? q.collection request) (s.records g) L)
    (hpages : (L.filter (q.listing.Follows q.after)).length < pages) :
    ∃ result, (db.readAll rounds pages request).on s = some result ∧
      result.toOption = (L.filter (q.listing.Follows q.after)).mapM (q.shown? ⟨db.graph, g⟩ s) := by
  induction pages generalizing request q with
  | zero => cases hpages
  | succ pages ih =>
    have hpage := on_resolve_page hG h hq hL hrounds
    have hsize := hq.size_pos
    have hsorted := PageQuery.pairwise_suffix hq.listing hL.sorted
    obtain ⟨rest, hrest⟩ : ∃ rest, L.filter (q.listing.Follows q.after) = rest := ⟨_, rfl⟩
    rw [hrest] at hpage hpages ⊢
    have hsplit : rest.mapM (q.shown? ⟨db.graph, g⟩ s) =
        ((rest.take q.size).mapM (q.shown? ⟨db.graph, g⟩ s)).bind fun data =>
          ((rest.drop q.size).mapM (q.shown? ⟨db.graph, g⟩ s)).map (data ++ ·) := by
      rw [← List.take_append_drop q.size rest, List.mapM_append, List.take_append_drop]
      simp [Option.map_eq_bind]
    cases hdata : (rest.take q.size).mapM (q.shown? ⟨db.graph, g⟩ s) with
    | none =>
      obtain ⟨e, he⟩ := PageQuery.on_page_none hdata
      refine ⟨.error e, Failing.on_bind_error (hpage.trans he) _, ?_⟩
      rw [hsplit, hdata]
      rfl
    | some data =>
      obtain ⟨ws, hanswer⟩ := PageQuery.on_page_some hdata
      by_cases hmore : q.size < rest.length
      · -- the page is full, so it has a last record, and the next one goes on after it
        obtain ⟨a, ha⟩ : ∃ a, (rest.take q.size).getLast? = some a := by
          refine Option.ne_none_iff_exists'.mp fun hnone => ?_
          rcases List.take_eq_nil_iff.mp (List.getLast?_eq_none_iff.mp hnone) with hzero | hnil
          · omega
          · rw [hnil] at hmore
            cases hmore
        have hnext : L.filter (q.listing.Follows (some (q.listing.suffix a))) =
            rest.drop q.size := by
          rw [← hrest] at ha ⊢
          exact PageQuery.following_last hsorted ha
        have hlength : (rest.drop q.size).length < pages := by
          rw [List.length_drop]
          omega
        obtain ⟨result, hresult, hshown⟩ := ih (hq.next (q.listing.suffix a))
          ⟨hL.mem, hL.sorted⟩ (hnext ▸ hlength)
        rw [ha, decide_eq_true hmore] at hanswer
        refine ⟨_, on_readAll_next (hpage.trans hanswer) rfl hresult, ?_⟩
        have hdrop : result.toOption = (rest.drop q.size).mapM (q.shown? ⟨db.graph, g⟩ s) :=
          hshown.trans (congrArg (List.mapM _) hnext)
        rw [hsplit, hdata, ← hdrop]
        cases result <;> rfl
      · -- the page shows all that is left
        have hall : rest.take q.size = rest := List.take_of_length_le (Nat.le_of_not_lt hmore)
        rw [decide_eq_false hmore] at hanswer
        refine ⟨_, on_readAll_last (hpage.trans hanswer) rfl, ?_⟩
        rw [← hall, hdata]
        rfl

end Database

/-! ### Pages while the index changes -/

/-- A page that was read, and the index at that time. -/
structure ReadPage where
  /-- The host. -/
  host : Host
  /-- The generation that was active. -/
  generation : Generation
  /-- The answer. -/
  answer : Answer

namespace ReadPage

/-- The records of the index at the time. -/
def records (p : ReadPage) : Set Record := p.host.store.records p.generation

/-- The page shows the records of a listing. -/
structure Shows (p : ReadPage) (db : Database) (q : PageQuery) (rs : List Record) : Prop where
  /-- They are records that match. -/
  mem : ∀ r ∈ rs, r ∈ p.records ∧ r.collection = q.collection.name ∧ q.accepts r
  /-- They make up the data. -/
  data : ∃ data, rs.mapM (q.shown? ⟨db.graph, p.generation⟩ p.host.store) = some data ∧
    p.answer.data = .array data

end ReadPage

namespace Database

/-- The page is the answer to the request from a consistent index. -/
structure Reads (db : Database) (rounds : Nat) (request : Request) (p : ReadPage) : Prop where
  /-- The index is consistent. -/
  indexes : p.host.store.Indexes p.generation db.graph
  /-- The loops are not cut off. -/
  scanned : p.host.store.entries.length < rounds
  /-- The answer. -/
  run : Host.run (db.resolve rounds request).run p.host = (some (.ok p.answer), p.host)

/-- Pages that are read one after another, each from the index as it is by then: a page before the
last one has more documents after it, and the next page is asked for with its cursor. -/
inductive Turns (db : Database) (rounds : Nat) : Request → List ReadPage → Prop
  /-- After the last page there is no document. -/
  | last {request : Request} {p : ReadPage} {cursor : Option String}
    (h : db.Reads rounds request p) (hpage : p.answer.page = some ⟨cursor, false⟩) :
    Turns db rounds request [p]
  /-- The next page is asked for with the cursor. -/
  | next {request : Request} {p : ReadPage} {ps : List ReadPage} {cursor : String}
    (h : db.Reads rounds request p) (hpage : p.answer.page = some ⟨some cursor, true⟩)
    (hrest : Turns db rounds { request with cursor := some cursor } ps) :
    Turns db rounds request (p :: ps)

variable {db : Database} {rounds : Nat} {request : Request} {p : ReadPage} {ps : List ReadPage}
  {q : PageQuery} {r : Record} {L : List Record}

/-- A page that is read shows the first records of those that follow. -/
theorem Reads.exists_matching (hG : db.graph.IsCompiled) (h : db.Reads rounds request p)
    (hq : q.AskedBy db request) :
    ∃ L, q.Matching (sortOrder? q.collection request) p.records L ∧
      p.Shows db q ((L.filter (q.listing.Follows q.after)).take q.size) ∧
      p.answer.page = some ⟨((L.filter (q.listing.Follows q.after)).take q.size).getLast?.map
        fun r => q.cursor (q.listing.suffix r),
        q.size < (L.filter (q.listing.Follows q.after)).length⟩ := by
  obtain ⟨L, hL, -⟩ := PageQuery.exists_matching h.indexes.consistent hG hq.mem_collections
    hq.listing
  refine ⟨L, hL, ?_⟩
  have hpage := on_resolve_page hG h.indexes hq hL h.scanned
  have hon : (db.resolve rounds request).on p.host.store = some (.ok p.answer) := by
    have hrun := h.run
    rw [(db.reads_resolve rounds request).run_eq] at hrun
    exact congrArg Prod.fst hrun
  have hmem : ∀ r ∈ (L.filter (q.listing.Follows q.after)).take q.size,
      r ∈ p.records ∧ r.collection = q.collection.name ∧ q.accepts r := fun r hr =>
    (hL.mem r).mp (List.mem_of_mem_filter (List.mem_of_mem_take hr))
  cases hdata : ((L.filter (q.listing.Follows q.after)).take q.size).mapM
      (q.shown? ⟨db.graph, p.generation⟩ p.host.store) with
  | none =>
    obtain ⟨e, he⟩ := PageQuery.on_page_none hdata
    cases hon.symm.trans (hpage.trans he)
  | some data =>
    obtain ⟨ws, hanswer⟩ := PageQuery.on_page_some hdata
    have heq := Except.ok.inj (Option.some.inj (hon.symm.trans (hpage.trans hanswer)))
    rw [heq]
    exact ⟨⟨hmem, data, hdata, by rw [heq]⟩, rfl⟩

/-- Of the records of a listing, one is of the document of a record if the record is among them, and
none otherwise. -/
theorem filter_path (h : p.host.store.Consistent p.generation db.graph)
    (hl : q.collection.listing (sortOrder? q.collection request) = .ok q.listing)
    (hL : q.Matching (sortOrder? q.collection request) p.records L) {M : List Record}
    (hM : M.Sublist L) (hr : r ∈ p.records) (hname : r.collection = q.collection.name) :
    (r ∈ M → M.filter (·.path = r.path) = [r]) ∧ (r ∉ M → M.filter (·.path = r.path) = []) := by
  have hunique : ∀ r' ∈ M, r'.path = r.path → r' = r := by
    intro r' hr' hpath
    obtain ⟨hmem, hname', -⟩ := (hL.mem r').mp (hM.subset hr')
    exact h.unique hmem hr (hname'.trans hname.symm) hpath
  constructor
  · intro hmem
    have hnodup : (M.filter (·.path = r.path)).Nodup := ((hL.nodup hl).sublist hM).filter _
    refine List.perm_singleton.mp ((List.perm_ext_iff_of_nodup hnodup (List.nodup_singleton r)).mpr ?_)
    intro r'
    rw [List.mem_filter, List.mem_singleton, decide_eq_true_iff]
    constructor
    · rintro ⟨hr', hpath⟩
      exact hunique r' hr' hpath
    · rintro rfl
      exact ⟨hmem, rfl⟩
  · intro hmem
    refine List.filter_eq_nil_iff.mpr fun r' hr' hpath => hmem ?_
    rwa [← hunique r' hr' (of_decide_eq_true hpath)]

/-- **A document that stays as it is is shown once**, on the page where its key falls. -/
theorem Turns.exists_shown (hG : db.graph.IsCompiled) (h : db.Turns rounds request ps)
    (hq : q.AskedBy db request) :
    ∃ shown : List (List Record), List.Forall₂ (ReadPage.Shows · db q) ps shown ∧
      ∀ r, r.collection = q.collection.name → q.accepts r → (∀ p ∈ ps, r ∈ p.records) →
        shown.flatten.filter (·.path = r.path) =
          if q.listing.Follows q.after r then [r] else [] := by
  induction h generalizing q with
  | @last request p cursor h hpage =>
    obtain ⟨L, hL, hshows, hend⟩ := h.exists_matching hG hq
    refine ⟨_, .cons hshows .nil, fun r hname haccepts hr => ?_⟩
    have hrecords := hr p (List.mem_singleton_self p)
    -- the page shows all that is left
    have hlast : ¬ q.size < (L.filter (q.listing.Follows q.after)).length := by
      rw [hpage] at hend
      simpa using (congrArg (·.map Page.hasNext) hend).symm
    rw [List.take_of_length_le (Nat.le_of_not_lt hlast), List.flatten_singleton]
    obtain ⟨hin, hout⟩ := filter_path h.indexes.consistent hq.listing hL List.filter_sublist hrecords
      hname (M := L.filter (q.listing.Follows q.after))
    have hmem : r ∈ L.filter (q.listing.Follows q.after) ↔ q.listing.Follows q.after r := by
      rw [List.mem_filter, decide_eq_true_iff, and_iff_right ((hL.mem r).mpr ⟨hrecords, hname, haccepts⟩)]
    split
    · next hfollows => exact hin (hmem.mpr hfollows)
    · next hfollows => exact hout (mt hmem.mp hfollows)
  | @next request p ps cursor h hpage hrest ih =>
    obtain ⟨L, hL, hshows, hend⟩ := h.exists_matching hG hq
    have hsorted := PageQuery.pairwise_suffix hq.listing hL.sorted
    -- the page ends with a record whose key is in the cursor
    obtain ⟨a, ha, rfl⟩ : ∃ a,
        ((L.filter (q.listing.Follows q.after)).take q.size).getLast? = some a ∧
          q.cursor (q.listing.suffix a) = cursor := by
      rw [hpage] at hend
      exact Option.map_eq_some_iff.mp (congrArg Page.endCursor (Option.some.inj hend)).symm
    obtain ⟨shown, hshown, hlater⟩ := ih (hq.next (q.listing.suffix a))
    refine ⟨_, .cons hshows (hshown.imp fun _ _ hs => ⟨hs.mem, hs.data⟩), ?_⟩
    intro r hname haccepts hr
    have hrecords := hr p (List.mem_cons_self ..)
    have hmatches : r ∈ L := (hL.mem r).mpr ⟨hrecords, hname, haccepts⟩
    obtain ⟨hin, hout⟩ := filter_path h.indexes.consistent hq.listing hL
      ((List.take_sublist q.size _).trans List.filter_sublist) hrecords hname
    rw [List.flatten_cons, List.filter_append,
      hlater r hname haccepts fun p hp => hr p (List.mem_cons_of_mem _ hp)]
    -- a record that follows is on this page, or it follows the end of it, but not both
    have hnext : q.listing.Follows (some (q.listing.suffix a)) r ↔
        r ∈ (L.filter (q.listing.Follows q.after)).drop q.size := by
      rw [← PageQuery.following_last hsorted ha, List.mem_filter, decide_eq_true_iff,
        and_iff_right hmatches]
    have hsplit : q.listing.Follows q.after r ↔
        r ∈ (L.filter (q.listing.Follows q.after)).take q.size ∨
          r ∈ (L.filter (q.listing.Follows q.after)).drop q.size := by
      rw [← List.mem_append, List.take_append_drop, List.mem_filter, decide_eq_true_iff,
        and_iff_right hmatches]
    have hdisjoint : r ∈ (L.filter (q.listing.Follows q.after)).take q.size →
        r ∉ (L.filter (q.listing.Follows q.after)).drop q.size := fun htake hdrop =>
      List.disjoint_take_drop ((hL.nodup hq.listing).filter _) (Nat.le_refl _) htake hdrop
    show _ ++ (if q.listing.Follows (some (q.listing.suffix a)) r then [r] else []) = _
    by_cases hdrop : r ∈ (L.filter (q.listing.Follows q.after)).drop q.size
    · rw [if_pos (hnext.mpr hdrop), if_pos (hsplit.mpr (Or.inr hdrop)),
        hout fun htake => hdisjoint htake hdrop, List.nil_append]
    · rw [if_neg (mt hnext.mp hdrop), List.append_nil]
      split
      · next hfollows => exact hin ((hsplit.mp hfollows).resolve_right hdrop)
      · next hfollows => exact hout fun htake => hfollows (hsplit.mpr (Or.inl htake))

/-! ### Paging -/

variable {c : Graph.Collection}

/-- **Paging shows every document of a listing once, and in order.** A request for the first page
that makes sense is not refused. On a consistent index, following the cursors comes to an end; what
was shown then, if no page failed, is what is shown of each record that matches, each once, in the
order of the listing. And when the index changes between the pages, but is consistent whenever one is
read, then a document that matches and has the same record all the time is shown once. -/
theorem paging (hG : db.graph.IsCompiled) (hc : c ∈ db.graph.collections)
    (h : request.Opens db c) :
    ∃ q : PageQuery, db.query request = .ok (.page q) ∧
      (∀ (host : Host) (g : Generation) (rounds pages : Nat), host.store.Indexes g db.graph →
        host.store.entries.length < rounds → host.store.entries.length < pages →
        ∃ L : List Record, L.Nodup ∧
          (∀ r, r ∈ L ↔ r ∈ host.store.records g ∧ r.collection = c.name ∧ q.accepts r) ∧
          L.Pairwise (SortOrder.Precedes (sortOrder? c request)) ∧
          ∃ result, Host.run (db.readAll rounds pages request).run host = (some result, host) ∧
            result.toOption = L.mapM (q.shown? ⟨db.graph, g⟩ host.store)) ∧
      ∀ (rounds : Nat) (ps : List ReadPage), db.Turns rounds request ps →
        ∃ shown : List (List Record), List.Forall₂ (ReadPage.Shows · db q) ps shown ∧
          ∀ r, r.collection = c.name → q.accepts r → (∀ p ∈ ps, r ∈ p.records) →
            shown.flatten.filter (·.path = r.path) = [r] := by
  obtain ⟨q, hq, rfl, hfirst⟩ := h.exists_query hG hc
  -- before the first page nothing was shown, so everything follows
  have hfollows (r : Record) : q.listing.Follows q.after r := by
    rw [hfirst]
    rintro suffix ⟨⟩
  refine ⟨q, query_eq_page_iff.mpr hq, ?_, ?_⟩
  · intro host g rounds pages hindexes hrounds hpages
    obtain ⟨L, hL, hlength⟩ := PageQuery.exists_matching hindexes.consistent hG hq.mem_collections
      hq.listing
    have hall : L.filter (q.listing.Follows q.after) = L :=
      List.filter_eq_self.mpr fun r _ => decide_eq_true (hfollows r)
    obtain ⟨result, hresult, hshown⟩ := on_readAll hG hindexes hrounds hq hL
      (hall ▸ Nat.lt_of_le_of_lt hlength hpages)
    rw [hall] at hshown
    refine ⟨L, hL.nodup hq.listing, hL.mem, hL.sorted, result, ?_, hshown⟩
    rw [(within_readAll db rounds pages request).run_eq]
    exact congrArg (·, host) hresult
  · intro rounds ps hturns
    obtain ⟨shown, hshown, honce⟩ := hturns.exists_shown hG hq
    refine ⟨shown, hshown, fun r hname haccepts hr => ?_⟩
    rw [honce r hname haccepts hr, if_pos (hfollows r)]

/-- Asks for the notes one by one, those that are done first. -/
def oneByOne : Request := { doneFirst with pageSize := some 1 }

/-- Two notes are read one by one. -/
theorem paging_notebook : ∃ (q : PageQuery) (g : Generation) (L : List Record)
    (result : Except QueryError (List Value)), notebook.query oneByOne = .ok (.page q) ∧
      notesHost.store.Indexes g notebook.graph ∧ L.Nodup ∧
      (∀ r, r ∈ L ↔ r ∈ notesHost.store.records g ∧ r.collection = "notes" ∧ q.accepts r) ∧
      Host.run (notebook.readAll (notesHost.store.entries.length + 1)
          (notesHost.store.entries.length + 1) oneByOne).run notesHost =
        (some result, notesHost) ∧
      result.toOption = L.mapM (q.shown? ⟨notebook.graph, g⟩ notesHost.store) := by
  have hopens : oneByOne.Opens notebook notes :=
    { doneFirst_opens with size_pos := by decide, size_le := by decide }
  obtain ⟨g, h⟩ : ∃ g, notesHost.store.Indexes g notebook.graph := notesStore_indexes
  generalize notesHost = host at h
  obtain ⟨q, hquery, hall, -⟩ := paging notebook_compiled (List.mem_singleton_self _) hopens
  obtain ⟨L, hnodup, hmem, -, result, hrun, hshown⟩ :=
    hall host g _ _ h (Nat.lt_succ_self _) (Nat.lt_succ_self _)
  exact ⟨q, g, L, result, hquery, h, hnodup, hmem, hrun, hshown⟩

end Database

end ContentIndex
