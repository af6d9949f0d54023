import ContentIndex.Proofs.Complaints
import ContentIndex.Proofs.FirstRebuild
import ContentIndex.Proofs.Readability
import ContentIndex.Proofs.Spelling

/-!
# Documents that spoil an index

A rebuild stores what it makes of documents, whether it can be read again or not. So one document can
spoil an index: it is accepted, and from then on every lookup of it fails, every page that would show
it, and every update of it.

## Main definitions

* `Source.View.Supplies`: what a rebuild writes of a source
* `Source.View.Spoils`: a document of a source that spoils an index
* `Exchange.IsClean`: storage makes no complaint of its own
* `Rebuild.Complaints`: what is complained of after a rebuild

## Main results

* `Rebuild.mem_within_iff`: an order of a collection after a rebuild
* `Update.follows_walkAll_of_clean`: an update complains of records that cannot be read
* `Rebuild.complaints_of_completes`: **queries and updates complain of documents that spoil the index,
  and of nothing else**
-/

namespace ContentIndex

open Json (Number Value)
open Source (Files View)

/-! ### What a rebuild writes of a source -/

namespace Source.View

/-- A rebuild from the source writes the record: a collection owns its path, and the source lists the
document for the collection. -/
structure Supplies (v : View) (db : Database) (c : Graph.Collection) (r : Record) : Prop where
  /-- The owner of the path. -/
  owner : db.graph.owner? r.path = some c
  /-- The path is listed. -/
  listed : ∃ listed, v.list c.path = .ok listed ∧ r.path ∈ listed
  /-- The record is that of the document. -/
  record : v.record? db r.path = some r

/-- A rebuild from the source writes a record of the document that cannot be read. -/
def Spoils (v : View) (db : Database) (c : Graph.Collection) (p : String) : Prop :=
  ∃ r, v.Supplies db c r ∧ r.path = p ∧ ¬ r.IsReadable

variable {v : View} {db : Database} {c : Graph.Collection} {r r' : Record}

theorem Supplies.exists_content (h : v.Supplies db c r) :
    ∃ content ws, db.record c r.path content = .ok (r, ws) := by
  obtain ⟨d, hd, content, ws, -, hrecord⟩ := record?_eq_some_iff.mp h.record
  obtain rfl := Option.some.inj (h.owner.symm.trans hd)
  exact ⟨content, ws, hrecord⟩

theorem Supplies.mem_collections (h : v.Supplies db c r) : c ∈ db.graph.collections :=
  Graph.mem_of_owner? h.owner

theorem Supplies.collection_eq (h : v.Supplies db c r) : r.collection = c.name := by
  obtain ⟨content, ws, hrecord⟩ := h.exists_content
  exact (Database.eq_of_record hrecord).1

theorem Supplies.eq_of_path (h : v.Supplies db c r) (h' : v.Supplies db c r')
    (hpath : r.path = r'.path) : r = r' :=
  Option.some.inj (h.record.symm.trans (hpath ▸ h'.record))

/-- The record is read if and only if it is readable. -/
theorem Supplies.isSome_ofBytes?_iff (h : v.Supplies db c r) :
    (Record.ofBytes? r.toBytes).isSome ↔ r.IsReadable := by
  obtain ⟨content, ws, hrecord⟩ := h.exists_content
  exact Record.isSome_ofBytes?_iff (Database.regular_of_record hrecord).2

/-- What is read of the record is of the same document. -/
theorem Supplies.eq_of_ofBytes? (hG : db.graph.IsCompiled) (h : v.Supplies db c r)
    (hread : Record.ofBytes? r.toBytes = some r') : r'.collection = c.name ∧ r'.path = r.path := by
  obtain ⟨content, ws, hrecord⟩ := h.exists_content
  have hresembles := Record.resembles_of_ofBytes? hread
    (Database.ordered_of_record hG h.mem_collections hrecord)
  exact ⟨hresembles.collection.trans h.collection_eq, hresembles.path⟩

end Source.View

namespace Rebuild

variable {db : Database} {v : View} {s s' : Store} {report : Report} {rounds : Nat}
  {c : Graph.Collection} {p : String} {b : Bytes}

section Stored

variable (hG : db.graph.IsCompiled) (hfree : s.NextFree)
  (hrun : (db.rebuild rounds).run.Completes v.Tells s (.ok report) s')
  (hc : c ∈ db.graph.collections)
include hG hfree hrun hc

/-- What is stored of a document is what the source supplies. -/
theorem get?_document_iff_supplies :
    s'.get? (Key.document report.generation c.name p).encode = some b ↔
      ∃ r, v.Supplies db c r ∧ r.path = p ∧ b = r.toBytes := by
  rw [get?_document_iff hG hfree hrun hc]
  constructor
  · rintro ⟨howner, r, listed, rfl, hrecord, hlist, hmem⟩
    obtain ⟨d, -, content, ws, -, hmade⟩ := View.record?_eq_some_iff.mp hrecord
    obtain ⟨-, rfl, -⟩ := Database.eq_of_record hmade
    exact ⟨r, ⟨howner, ⟨listed, hlist, hmem⟩, hrecord⟩, rfl, rfl⟩
  · rintro ⟨r, ⟨howner, ⟨listed, hlist, hmem⟩, hrecord⟩, rfl, rfl⟩
    exact ⟨howner, r, listed, rfl, hrecord, hlist, hmem⟩

/-- **What cannot be read after a rebuild is what the source spoils.** -/
theorem spoiled_iff : s'.Spoiled report.generation c.name p ↔ v.Spoils db c p := by
  constructor
  · rintro ⟨b, hb, hread⟩
    obtain ⟨r, hr, hpath, rfl⟩ := (get?_document_iff_supplies hG hfree hrun hc).mp hb
    refine ⟨r, hr, hpath, fun hreadable => ?_⟩
    have hsome := hr.isSome_ofBytes?_iff.mpr hreadable
    rw [hread] at hsome
    cases hsome
  · rintro ⟨r, hr, hpath, hreadable⟩
    refine ⟨r.toBytes, (get?_document_iff_supplies hG hfree hrun hc).mpr ⟨r, hr, hpath, rfl⟩, ?_⟩
    exact Option.not_isSome_iff_eq_none.mp fun hsome => hreadable (hr.isSome_ofBytes?_iff.mp hsome)

variable {l : Listing} {order : Option SortOrder} {after : Option Bytes} {y : Entry}

/-- **An order of a collection after a rebuild** has the places of the records that the source
supplies. -/
theorem mem_within_iff (hl : c.listing order = .ok l) :
    y ∈ s'.within (l.range (l.start report.generation c.name) after) l.direction ↔
      ∃ r, v.Supplies db c r ∧ l.Follows after r ∧ y = l.entry report.generation r := by
  have hkey {r : Record} (hr : r.collection = c.name) :
      (l.entry report.generation r).1 = l.start report.generation c.name ++ l.suffix r :=
    congrArg (l.start report.generation · ++ l.suffix r) hr
  obtain ⟨a, ha⟩ : ∃ a, Key.Family.start report.generation a <+:
      l.start report.generation c.name := by
    cases l with
    | byPath => exact ⟨.document, Key.start_documentPrefix⟩
    | byField => exact ⟨.sort, Key.start_sortPrefix⟩
  -- what is stored in the order is the place of a record
  have hplace {y : Entry} (hy : s'.get? y.1 = some y.2)
      (hstart : l.start report.generation c.name <+: y.1) :
      ∃ r, v.Supplies db c r ∧ y = l.entry report.generation r := by
    have hinfo : y.1 ≠ (Key.info report.generation).encode := fun hinfo =>
      Key.not_start_info (hinfo ▸ ha.trans hstart)
    obtain ⟨d, p, r, listed, howner, hlist, hlisted, hrecord, hname, rfl, hmem⟩ :=
      exists_mem_entries_of_get? hG hfree hrun ((l.starts_start _ _).trans hstart) hinfo hy
    have hd := Graph.mem_of_owner? howner
    rw [← Graph.entries_eq hG hd hname] at hmem
    obtain ⟨hcollection, heq⟩ := Listing.eq_entry_of_mem hG hc hl ⟨d, hd, hname⟩ hmem hstart
    obtain rfl : d = c := List.inj_on_of_nodup_map hG.names.2 hd hc (hname.symm.trans hcollection)
    exact ⟨r, ⟨howner, ⟨listed, hlist, hlisted⟩, hrecord⟩, heq⟩
  rw [Store.mem_within, Listing.contains_range_iff]
  constructor
  · rintro ⟨hy, hstart, hafter⟩
    obtain ⟨r, hr, rfl⟩ := hplace hy hstart
    refine ⟨r, hr, fun a ha => ?_, rfl⟩
    rw [← Direction.before_append_iff (p := l.start report.generation c.name),
      ← hkey hr.collection_eq]
    exact hafter a ha
  · rintro ⟨r, hr, hafter, rfl⟩
    have hstart : l.start report.generation c.name <+: (l.entry report.generation r).1 :=
      hkey hr.collection_eq ▸ List.prefix_append ..
    refine ⟨?_, hstart, fun a ha => ?_⟩
    · -- something is stored under the key of the place, so it is a place, of the same path
      obtain ⟨-, hsettled, -⟩ := Failing.Brings.of_completes (brings_rebuild hG rounds hfree) hrun
      have hmem := Listing.entry_mem (g := report.generation) hG hc hl hr.collection_eq
      obtain ⟨listed, hlist, hlisted⟩ := hr.listed
      have hwritten : r ∈ v.records db :=
        List.mem_filterMap.mpr ⟨r.path, List.mem_map.mpr ⟨(c, r.path),
          (View.mem_work_iff hG).mpr ⟨hr.owner, listed, hlist, hlisted⟩, rfl⟩, hr.record⟩
      have hinfo : (l.entry report.generation r).1 ≠ (Key.info report.generation).encode :=
        fun hinfo => Key.not_start_info (hinfo ▸ ha.trans hstart)
      have hstored := hsettled _ ((l.starts_start _ _).trans hstart) hinfo
      cases hb : s'.get? (l.entry report.generation r).1 with
      | none =>
        rw [hb, eq_comm, Graph.latest?_eq_none_iff] at hstored
        exact absurd hmem (hstored r hwritten _)
      | some b =>
        obtain ⟨r', hr', heq⟩ := hplace (y := (_, b)) hb hstart
        have hsuffix : l.suffix r = l.suffix r' := by
          have := congrArg Prod.fst heq
          rw [hkey hr.collection_eq, hkey hr'.collection_eq] at this
          exact List.append_cancel_left this
        obtain rfl := hr.eq_of_path hr' (Listing.path_eq_of_suffix hsuffix)
        rw [← heq]
    · rw [hkey hr.collection_eq, Direction.before_append_iff]
      exact hafter a ha

end Stored

section Pages

variable {request : Request} {q : PageQuery} {r : Record} {n : Nat} (hG : db.graph.IsCompiled)
  (hfree : s.NextFree) (hrun : (db.rebuild rounds).run.Completes v.Tells s (.ok report) s')
include hG hfree hrun

/-- The place of a record in an order can be read if and only if the record can be. -/
theorem read_entry (hr : v.Supplies db q.collection r) :
    (r.IsReadable → ∃ r', (q.recordOf? ⟨db.graph, report.generation⟩
      (q.listing.entry report.generation r)).on s' = some (.ok r')) ∧
    (q.Unreadable ⟨db.graph, report.generation⟩ s' (q.listing.entry report.generation r) ↔
      ¬ r.IsReadable) := by
  have hstored : s'.get? (r.key report.generation) = some r.toBytes := by
    rw [Record.key, hr.collection_eq]
    exact (get?_document_iff_supplies hG hfree hrun hr.mem_collections).mpr ⟨r, hr, rfl, rfl⟩
  obtain ⟨k, hk⟩ := PageQuery.exists_on_recordOf? (x := ⟨db.graph, report.generation⟩) (q := q)
    hstored hr.collection_eq
  rw [PageQuery.Unreadable, hk, Record.ofStored?, ← hr.isSome_ofBytes?_iff]
  cases Record.ofBytes? r.toBytes with
  | none => simp [StorageError.IsCorrupt]
  | some r' => simp

/-- **After a rebuild a request for a page is answered**, unless the source spoils a document of the
collection. -/
theorem exists_on_resolve (hs : s'.Presents report.generation db.graph)
    (hq : q.AskedBy db request) (hsel : q.selection.IsFlat) (hn : s'.entries.length < n) :
    ∃ a, (db.resolve n request).on s' = some a ∧
      (∀ e, a = .error e → e.IsCorrupt ∧ ∃ p, v.Spoils db q.collection p) ∧
      (q.after = none → s'.entries.length ≤ q.size → (∃ p, v.Spoils db q.collection p) →
        ∃ e, a = .error e) := by
  have hmem (y : Entry) : y ∈ s'.within (q.listing.range (q.listing.start report.generation
      q.collection.name) q.after) q.listing.direction ↔ ∃ r, v.Supplies db q.collection r ∧
        q.listing.Follows q.after r ∧ y = q.listing.entry report.generation r :=
    mem_within_iff hG hfree hrun hq.mem_collections hq.listing
  have hlength := s'.length_within_le
    (q.listing.range (q.listing.start report.generation q.collection.name) q.after)
    q.listing.direction
  have hread : ∀ y ∈ s'.within (q.listing.range (q.listing.start report.generation q.collection.name)
      q.after) q.listing.direction,
      (∃ r, (q.recordOf? ⟨db.graph, report.generation⟩ y).on s' = some (.ok r)) ∨
        q.Unreadable ⟨db.graph, report.generation⟩ s' y := by
    intro y hy
    obtain ⟨r, hr, -, rfl⟩ := (hmem y).mp hy
    obtain ⟨hread, hbad⟩ := read_entry hG hfree hrun hr
    by_cases hreadable : r.IsReadable
    · exact Or.inl (hread hreadable)
    · exact Or.inr (hbad.mpr hreadable)
  obtain ⟨a, ha, honly, hif⟩ := Database.settles_resolve hs hq hsel rfl hread
    (Nat.lt_of_le_of_lt hlength hn)
  refine ⟨a, ha, fun e he => ?_, fun hafter hsize hspoils => hif (hlength.trans hsize) ?_⟩
  · obtain ⟨hcorrupt, y, hy, hbad⟩ := honly e he
    obtain ⟨r, hr, -, rfl⟩ := (hmem y).mp hy
    exact ⟨hcorrupt, r.path, r, hr, rfl, (read_entry hG hfree hrun hr).2.mp hbad⟩
  · obtain ⟨p, r, hr, -, hbad⟩ := hspoils
    refine ⟨_, (hmem _).mpr ⟨r, hr, ?_, rfl⟩, (read_entry hG hfree hrun hr).2.mpr hbad⟩
    rw [hafter]
    rintro suffix ⟨⟩

end Pages

end Rebuild

/-! ### Updates -/

/-- Storage makes no complaint of its own when it refuses a batch. -/
def Exchange.IsClean : Exchange → Prop
  | ⟨.write _, .error e⟩ => ¬ e.IsCorrupt
  | _ => True

/-- What is read under the key of each of the documents is a record of the document. -/
def Store.Assigns (s : Store) (g : Generation) (G : Graph) (ps : List String) : Prop :=
  ∀ p ∈ ps, ∀ c, G.owner? p = some c → ∀ r ∈ s.record? g c.name p,
    r.collection = c.name ∧ r.path = p

namespace Update

variable {db : Database} {told : Exchange → Prop} {g : Generation} {c d : Graph.Collection}
  {p q : String} {ps : List String} {os : List (String × Outcome)} {old : Option Record}
  {content : Except SourceError Bytes} {s s' : Store}

section Frames

variable (hG : db.graph.IsCompiled)
include hG

/-- A path that is treated leaves what is under the keys of other documents. -/
theorem Treats.get?_document_of_ne (howner : db.graph.owner? p = some c)
    (hrecord : ∀ r ∈ s.record? g c.name p, r.collection = c.name ∧ r.path = p)
    (h : Treats db told g c p old content s s') (hd : d ∈ db.graph.collections) (hq : q ≠ p) :
    s'.get? (Key.document g d.name q).encode = s.get? (Key.document g d.name q).encode := by
  cases hresult : (db.change c p old content).2.2 with
  | none => rw [h.left, hresult, result]
  | some new =>
    have hnot {r : Option Record} (hr : ∀ x ∈ r, x.collection = c.name ∧ x.path = p) (v : Bytes) :
        ((Key.document g d.name q).encode, v) ∉ entriesOf g c r := by
      cases r with
      | none => exact List.not_mem_nil
      | some x =>
        intro hmem
        obtain ⟨hname, hpath⟩ := hr x rfl
        obtain ⟨-, rfl, -⟩ := Record.eq_of_mem_document
          (hname ▸ (hG.names.1 c (Graph.mem_of_owner? howner)).1) (hG.names.1 d hd).1 hmem
        exact hq hpath
    have hnew : ∀ x ∈ new, x.collection = c.name ∧ x.path = p := by
      intro x hx
      obtain ⟨b, ws, -, hmade⟩ := exists_of_change hresult x hx
      obtain ⟨hname, hpath, -⟩ := Database.eq_of_record hmade
      exact ⟨hname, hpath⟩
    have hfind : Entries.find? (Key.document g d.name q).encode (entriesOf g c new) = none :=
      Option.eq_none_iff_forall_ne_some.mpr fun v hv => hnot hnew v
        ((Entries.find?_eq_some_iff (sorted_entriesOf g c new)).mp hv)
    rw [h.left, hresult, result, Store.get?_replacement s _ (sorted_entriesOf g c new), hfind,
      Option.none_or, if_neg]
    rintro hmem
    obtain ⟨⟨k, v⟩, hx, rfl⟩ := List.mem_map.mp hmem
    refine hnot ?_ v hx
    rw [Store.eq_record?_of_ofStored? h.read]
    exact hrecord

/-- So the other paths have what they had. -/
theorem Treats.assigns (howner : db.graph.owner? p = some c) (hp : p ∉ ps)
    (hassigns : s.Assigns g db.graph (p :: ps)) (h : Treats db told g c p old content s s') :
    s'.Assigns g db.graph ps := by
  intro q hq d hd r hr
  refine hassigns q (List.mem_cons_of_mem _ hq) d hd r ?_
  rwa [Store.record?, h.get?_document_of_ne hG howner
    (hassigns p (List.mem_cons_self ..) c howner) (Graph.mem_of_owner? hd)
    fun heq => hp (heq ▸ hq)] at hr

theorem Treats.spoiled_iff (howner : db.graph.owner? p = some c) (hp : p ∉ ps)
    (hassigns : s.Assigns g db.graph (p :: ps)) (h : Treats db told g c p old content s s')
    (hq : q ∈ ps) (hd : db.graph.owner? q = some d) :
    s'.Spoiled g d.name q ↔ s.Spoiled g d.name q := by
  rw [Store.Spoiled, Store.Spoiled, h.get?_document_of_ne hG howner
    (hassigns p (List.mem_cons_self ..) c howner) (Graph.mem_of_owner? hd)
    fun heq => hp (heq ▸ hq)]

/-- A walk treats no document whose record cannot be read. -/
theorem Walk.not_spoiled (h : Walk db told g ps s os s') (hnodup : ps.Nodup)
    (hassigns : s.Assigns g db.graph ps) (hq : q ∈ ps) (hd : db.graph.owner? q = some d) :
    ¬ s.Spoiled g d.name q := by
  induction h with
  | done s => cases hq
  | unowned howner _ ih =>
    rcases List.mem_cons.mp hq with rfl | hq
    · cases howner.symm.trans hd
    · exact ih (List.nodup_cons.mp hnodup).2
        (fun p hp => hassigns p (List.mem_cons_of_mem _ hp)) hq
  | @treated p ps os c old content s s' s'' howner htreats _ ih =>
    obtain ⟨hp, hnodup⟩ := List.nodup_cons.mp hnodup
    rcases List.mem_cons.mp hq with rfl | hq
    · obtain rfl := Option.some.inj (howner.symm.trans hd)
      intro hspoiled
      obtain ⟨e, he, -⟩ := hspoiled.exists_ofStored? (Key.document g c.name q).encode
      cases htreats.read.symm.trans he
    · rw [← htreats.spoiled_iff hG howner hp hassigns hq hd]
      exact ih hnodup (htreats.assigns hG howner hp hassigns) hq

end Frames

section Complaints

variable (hclean : ∀ e, told e → e.IsClean)
include hclean

/-- An attempt to update a path complains only if the record cannot be read. -/
theorem follows_updateOnce_of_clean : (db.updateOnce g c p).Follows (Served.protocol told)
    (fun _ _ => True) (fun e _ => e.IsCorrupt → s.Spoiled g c.name p) s := by
  refine Failing.Follows.bind
    (m := fun v s' => s' = s ∧ v = s.get? (Key.document g c.name p).encode)
    (follows_storage (Served.follows_get ⟨rfl, rfl⟩ fun _ => nofun)) ?_
  rintro _ s ⟨rfl, rfl⟩
  refine Failing.Follows.bind (m := fun _ _ => True) (follows_storage ?_) ?_
  · by_cases hspoiled : s.Spoiled g c.name p
    · obtain ⟨e, he, -⟩ := hspoiled.exists_ofStored? (Key.document g c.name p).encode
      rw [he]
      exact fun _ => hspoiled
    · obtain ⟨r, hr⟩ := Store.exists_ofStored? hspoiled (Key.document g c.name p).encode
      rw [hr]
      trivial
  intro old _ _
  refine Failing.Follows.bind (m := fun _ _ => True) (Served.follows_content fun _ _ => trivial) ?_
  intro content _ _
  generalize db.change c p old content = change
  obtain ⟨outcome, notices, result⟩ := change
  cases result with
  | none => trivial
  | some new =>
    show Failing.Follows _ _ _ (if _ then _ else _) _
    split
    · refine Failing.Follows.bind (m := fun _ _ => True) (follows_storage
        (Served.follows_write (fun _ => trivial) fun e he hcorrupt => ?_)) fun _ _ _ => trivial
      exact absurd hcorrupt (hclean _ he)
    · trivial

/-- **An update complains only of records that cannot be read.** -/
theorem follows_walkAll_of_clean (hG : db.graph.IsCompiled) (hnodup : ps.Nodup)
    (hassigns : s.Assigns g db.graph ps) {report : Report} :
    (db.updateAll g ps report).Follows (Served.protocol told) (fun _ _ => True)
      (fun e _ => e.IsCorrupt → ∃ p ∈ ps, ∃ c, db.graph.owner? p = some c ∧ s.Spoiled g c.name p)
      s := by
  induction ps generalizing report s with
  | nil => trivial
  | cons p ps ih =>
    obtain ⟨hp, hnodup⟩ := List.nodup_cons.mp hnodup
    refine Failing.Follows.bind (m := fun _ s' => s' = s) (follows_checkCancelled nofun) ?_
    rintro _ s rfl
    split
    · refine (ih hnodup fun q hq => hassigns q (List.mem_cons_of_mem _ hq)).mono
        (fun _ _ h => h) fun e _ h hcorrupt => ?_
      obtain ⟨q, hq, hspoiled⟩ := h hcorrupt
      exact ⟨q, List.mem_cons_of_mem _ hq, hspoiled⟩
    · next c howner =>
      refine Failing.Follows.bind (m := fun _ s' => ∃ old content,
        Treats db told g c p old content s s') (Failing.Follows.retrying ?_ _) ?_
      · refine (Served.Follows.and follows_treats (follows_updateOnce_of_clean hclean)).mono ?_
        rintro (e | x) s' ⟨h, h'⟩
        · exact ⟨fun hcorrupt => ⟨p, List.mem_cons_self .., c, howner, h' hcorrupt⟩, fun _ => h⟩
        · obtain ⟨old, content, htreats, -⟩ := h
          exact ⟨old, content, htreats⟩
      rintro ⟨outcome, notices⟩ s' ⟨old, content, htreats⟩
      refine (ih hnodup (htreats.assigns hG howner hp hassigns)).mono (fun _ _ h => h)
        fun e _ h hcorrupt => ?_
      obtain ⟨q, hq, d, hd, hspoiled⟩ := h hcorrupt
      exact ⟨q, List.mem_cons_of_mem _ hq, d, hd,
        (htreats.spoiled_iff hG howner hp hassigns hq hd).mp hspoiled⟩

variable {i : GenerationInfo}

omit hclean in
/-- The generation that is updated is found, unless storage fails. -/
theorem follows_updatable_of_clean (hactive : s.get? Key.active.encode = some g.toBytes)
    (hinfo : s.get? (Key.info g).encode = some i.toBytes) (hgeneration : i.generation = g) :
    db.updatable.Follows (Served.protocol told) (fun n s' => s' = s ∧ n = g)
      (fun e _ => ¬ e.IsCorrupt) s := by
  have hnumber : Generation.active?.Follows (Served.protocol told)
      (fun x s' => s' = s ∧ x = some (g, g.toBytes)) (fun e _ => ¬ e.IsCorrupt) s := by
    refine Failing.Follows.bind (m := fun v s' => s' = s ∧ v = some g.toBytes)
      (Served.follows_get ⟨rfl, hactive⟩ fun _ => not_false) ?_
    rintro _ s ⟨rfl, rfl⟩
    have hread : Generation.ofStored .active g.toBytes = .ok g := by
      rw [Generation.ofStored, Generation.parse?_toBytes]
    simp only [hread]
    exact ⟨rfl, rfl⟩
  have hinformed : (Generation.info? g).Follows (Served.protocol told)
      (fun x s' => s' = s ∧ x = some i) (fun e _ => ¬ e.IsCorrupt) s := by
    obtain ⟨b, hb, hread⟩ : ∃ b, s.get? (Key.info g).encode = some b ∧
      GenerationInfo.ofBytes? b = some i := ⟨_, hinfo, GenerationInfo.ofBytes?_toBytes i⟩
    refine Failing.Follows.bind (m := fun v s' => s' = s ∧ v = some b)
      (Served.follows_get ⟨rfl, hb⟩ fun _ => not_false) ?_
    rintro _ s ⟨rfl, rfl⟩
    simp only [hread]
    exact ⟨rfl, rfl⟩
  have hactiveInfo : Generation.activeInfo?.Follows (Served.protocol told)
      (fun x s' => s' = s ∧ x = some i) (fun e _ => ¬ e.IsCorrupt) s := by
    refine Failing.Follows.bind hnumber ?_
    rintro _ s ⟨rfl, rfl⟩
    exact hinformed
  refine Failing.Follows.bind (follows_storage hactiveInfo) ?_
  rintro _ s ⟨rfl, rfl⟩
  -- the version is a digest, which must not be computed here
  generalize db.graph.version = version
  show Failing.Follows _ _ _ (if i.graphVersion = version then _ else _) _
  split
  · exact ⟨rfl, hgeneration⟩
  · exact not_false

/-- An update complains only of records of its paths that cannot be read. -/
theorem follows_update_of_clean (hG : db.graph.IsCompiled)
    (hactive : s.get? Key.active.encode = some g.toBytes)
    (hinfo : s.get? (Key.info g).encode = some i.toBytes) (hgeneration : i.generation = g)
    (hassigns : s.Assigns g db.graph ps) :
    (db.update ps).Follows (Served.protocol told) (fun _ _ => True)
      (fun e _ => e.IsCorrupt → ∃ p ∈ ps, ∃ c, db.graph.owner? p = some c ∧ s.Spoiled g c.name p)
      s := by
  refine Failing.Follows.bind (m := fun _ s' => s' = s) (follows_storage ?_) ?_
  · refine Failing.Follows.bind (m := fun _ s' => s' = s)
      (Served.follows_get rfl fun _ => nofun) ?_
    rintro v s rfl
    exact Failing.Follows.lift follows_liveIn?
  rintro held s rfl
  split
  · exact nofun
  · refine Failing.Follows.bind ((follows_updatable_of_clean hactive hinfo hgeneration).mono
      (fun _ _ h => h) fun e _ he hcorrupt => absurd hcorrupt he) ?_
    rintro g s ⟨rfl, rfl⟩
    have hpaths : ∀ p ∈ ps.eraseDups, p ∈ ps := fun p hp => List.mem_eraseDups.mp hp
    refine (follows_walkAll_of_clean hclean hG (nodup_eraseDups ps)
      fun p hp => hassigns p (hpaths p hp)).mono (fun _ _ h => h) fun e _ h hcorrupt => ?_
    obtain ⟨p, hp, hspoiled⟩ := h hcorrupt
    exact ⟨p, hpaths p hp, hspoiled⟩

end Complaints

/-- An update of a document whose record cannot be read complains of it. -/
theorem completes_of_spoiled {i : GenerationInfo} (hget : ∀ key r, told ⟨.get key, r⟩)
    (hasked : told ⟨.cancelled, false⟩) (hlock : s.get? Key.lock.encode = none)
    (hactive : s.get? Key.active.encode = some g.toBytes)
    (hinfo : s.get? (Key.info g).encode = some i.toBytes) (hgeneration : i.generation = g)
    (hversion : i.graphVersion = db.graph.version) (howner : db.graph.owner? p = some c)
    (hspoiled : s.Spoiled g c.name p) :
    ∃ e, e.IsCorrupt ∧ (db.update [p]).run.Completes told s (.error e) s := by
  obtain ⟨b, hb, hread⟩ := hspoiled
  have hupdateOnce : (db.updateOnce g c p).run.Completes told s
      (.error (.storage (.corrupt (Key.document g c.name p).encode.textLossy .unreadable))) s := by
    refine Failing.completes_bind (Failing.completes_storage (Storage.completes_get (hget _))) ?_
    rw [hb, Record.ofStored?, hread]
    exact .done _ _
  have hupdatePath : (db.updatePath g c p).run.Completes told s
      (.error (.storage (.corrupt (Key.document g c.name p).encode.textLossy .unreadable))) s :=
    Program.Completes.bind (Program.Completes.bind hupdateOnce (.done _ _)) (.done _ _)
  refine ⟨.storage (.corrupt (Key.document g c.name p).encode.textLossy .unreadable), trivial,
    completes_update hget hlock hactive hinfo hgeneration hversion ?_⟩
  rw [show [p].eraseDups = [p] from rfl, Database.updateAll]
  refine .ask (r := false) (.answers (.cancelled _)) hasked ?_
  simp only [howner]
  exact Failing.completes_bind_error hupdatePath

end Update

/-! ### Complaints after a rebuild -/

namespace Rebuild

/-- What is complained of in a store that was rebuilt from a source. -/
structure Complaints (v : View) (db : Database) (g : Generation) (s : Store) : Prop where
  /-- A lookup that follows no references complains if and only if the source spoils the document. -/
  lookups : ∀ c ∈ db.graph.collections, ∀ p sel, sel.IsFlat →
    ∃ a, (db.lookup c p sel).on s = some a ∧
      ((∃ e, a = .error e ∧ e.IsCorrupt) ↔ v.Spoils db c p)
  /-- A page without followed references fails only if the source spoils a document of the collection.
  The first page does fail then if it would show the whole collection. -/
  pages : ∀ request q rounds, db.query request = .ok (.page q) → q.selection.IsFlat →
    s.entries.length < rounds →
    ∃ a, (db.resolve rounds request).on s = some a ∧
      (∀ e, a = .error e → e.IsCorrupt ∧ ∃ p, v.Spoils db q.collection p) ∧
      (q.after = none → s.entries.length ≤ q.size → (∃ p, v.Spoils db q.collection p) →
        ∃ e, a = .error e)
  /-- An update complains only if the source spoils one of its documents, whatever it is told of the
  documents itself. -/
  updates : ∀ paths e s', (db.update paths).run.Completes Exchange.IsClean s (.error e) s' →
    e.IsCorrupt → ∃ p ∈ paths, ∃ c, v.Spoils db c p
  /-- No update of such a document succeeds. -/
  blocked : ∀ told paths report s', (db.update paths).run.Completes told s (.ok report) s' →
    ∀ p ∈ paths, ∀ c, ¬ v.Spoils db c p
  /-- An update of such a document may complain and do nothing, whatever the source has by then. -/
  refused : ∀ c p, v.Spoils db c p → ∀ v' : View, ∃ e, e.IsCorrupt ∧
    (db.update [p]).run.Completes (fun x => v'.Tells x ∧ x.IsClean) s (.error e) s

variable {db : Database} {v : View} {s s' : Store} {report : Report} {rounds : Nat}

/-- After a rebuild the documents that the source spoils are complained of, and no others. -/
theorem complaints_of_nextFree (hG : db.graph.IsCompiled) (hfree : s.NextFree)
    (hrun : (db.rebuild rounds).run.Completes v.Tells s (.ok report) s') :
    Complaints v db report.generation s' := by
  obtain ⟨-, -, ⟨active, -, -, hinfo⟩, hactive, hlock⟩ :=
    Failing.Brings.of_completes (brings_rebuild hG rounds hfree) hrun
  have hpresents : s'.Presents report.generation db.graph := ⟨hactive, _, hinfo, rfl⟩
  have howner {c : Graph.Collection} {p : String} (h : v.Spoils db c p) :
      db.graph.owner? p = some c := by
    obtain ⟨r, hr, rfl, -⟩ := h
    exact hr.owner
  have hspoiled {c : Graph.Collection} {p : String} (hc : db.graph.owner? p = some c) :
      s'.Spoiled report.generation c.name p ↔ v.Spoils db c p :=
    spoiled_iff hG hfree hrun (Graph.mem_of_owner? hc)
  have hassigns (ps : List String) : s'.Assigns report.generation db.graph ps := by
    intro p _ c hc r hr
    obtain ⟨b, hb, hread⟩ := Option.bind_eq_some_iff.mp hr
    obtain ⟨r', hr', rfl, rfl⟩ :=
      (get?_document_iff_supplies hG hfree hrun (Graph.mem_of_owner? hc)).mp hb
    exact hr'.eq_of_ofBytes? hG hread
  refine ⟨fun c hc p sel hsel => ?_, fun request q rounds hq hsel hrounds => ?_,
    fun paths e s'' hupdate hcorrupt => ?_, fun told paths report' s'' hupdate p hp c hspoils => ?_,
    fun c p hspoils v' => ?_⟩
  · rw [← spoiled_iff hG hfree hrun hc]
    exact Database.isCorrupt_lookup_iff hpresents hsel
  · exact exists_on_resolve hG hfree hrun hpresents (Database.query_eq_page_iff.mp hq) hsel hrounds
  · have hfollows := Update.follows_update_of_clean (fun _ h => h) hG hactive hinfo rfl
      (hassigns paths)
    obtain ⟨p, hp, c, hc, hbad⟩ := Served.of_completes hfollows hupdate hcorrupt
    exact ⟨p, hp, c, (hspoiled hc).mp hbad⟩
  · obtain ⟨os, ⟨a, i, ha, hi, -, hgeneration⟩, hwalk, -⟩ :=
      Served.of_completes Update.follows_walk hupdate
    obtain rfl : report.generation = a := by
      rw [hactive, Option.bind_some, Generation.parse?_toBytes] at ha
      exact Option.some.inj ha
    rw [hinfo, Option.bind_some, GenerationInfo.ofBytes?_toBytes] at hi
    obtain rfl := Option.some.inj hi
    rw [← show report.generation = report'.generation from hgeneration] at hwalk
    exact hwalk.not_spoiled hG (nodup_eraseDups paths) (hassigns _) (List.mem_eraseDups.mpr hp)
      (howner hspoils) ((hspoiled (howner hspoils)).mpr hspoils)
  · exact Update.completes_of_spoiled (fun _ _ => ⟨trivial, trivial⟩) ⟨trivial, trivial⟩ hlock hactive
      hinfo rfl rfl (howner hspoils) ((hspoiled (howner hspoils)).mpr hspoils)

/-- **Queries and updates complain of documents that spoil the index, and of nothing else.** The
record of a document is read from what was stored if and only if it is not nested too deep and its
numbers are read, and it is read back as it was if and only if they are read back, too. After a
rebuild, whatever the source has, the documents whose records are not read are complained of. -/
theorem complaints_of_completes {db : Database} (hG : db.graph.IsCompiled) :
    (∀ c path content r ws, db.record c path content = .ok (r, ws) →
      ((Record.ofBytes? r.toBytes).isSome ↔ r.IsReadable) ∧
      (Record.ofBytes? r.toBytes = some r ↔
        r.IsShallow ∧ r.toValue.HasNumbers Number.ReadsBack)) ∧
    ∀ (v : View) (s s' : Store) (report : Report) (rounds : Nat), s.NextFree →
      (db.rebuild rounds).run.Completes v.Tells s (.ok report) s' →
      Complaints v db report.generation s' := by
  refine ⟨fun c path content r ws hrecord => ?_, fun v s s' report rounds hfree hrun =>
    complaints_of_nextFree hG hfree hrun⟩
  obtain ⟨hsorted, hregular⟩ := Database.regular_of_record hrecord
  exact ⟨Record.isSome_ofBytes?_iff hregular, Record.ofBytes?_eq_self_iff hsorted hregular⟩

/-! ### A post that is nested too deep -/

/-- A collection of posts with bodies of whatever form. -/
def posts : Graph.Collection :=
  ⟨"posts", "posts", none, none, false, none, [⟨"posts", [⟨"body", .richText, false, false⟩]⟩]⟩

/-- A database of posts. -/
def archive : Database := ⟨.ofCollections [posts], {}, "text"⟩

theorem archive_compiled : archive.graph.IsCompiled :=
  ⟨⟨[⟨"posts", "posts", none, none, false, none,
    [.mk "body" (.mk .richText false none [] none [] [])], []⟩]⟩, rfl⟩

/-- An array in arrays. -/
def nest : Nat → Value
  | 0 => .array []
  | n + 1 => .array [nest n]

theorem depth_nest (n : Nat) : (nest n).draft.depth = n + 1 := by
  induction n with
  | zero => rfl
  | succ n ih => simp [nest, Value.draft, Value.itemDrafts, Json.Draft.depth, Json.Draft.depthItems, ih]

/-- The record of a post. -/
def post (body : Value) (hash : String) : Record :=
  ⟨"posts", "posts/a.json", "posts", [("body", .richText body)], hash⟩

/-- The record of a post is nested three levels deeper than its body. -/
theorem post_isShallow_iff {body : Value} {hash : String} :
    (post body hash).IsShallow ↔ body.draft.depth + 3 ≤ Json.Parser.maxDepth := by
  have hdepth : (Value.object (FieldValue.fieldsToValue (post body hash).fields)).draft.depth =
      body.draft.depth + 2 := by
    simp [post, FieldValue.fieldsToValue, FieldValue.toValue, Value.draft, Value.memberDrafts,
      Json.Draft.depth, Json.Draft.depthMembers, FieldValue.depth_tagged]
  rw [Record.IsShallow, Record.depth_toValue, hdepth]

/-- The text of a post whose body is 125 arrays in each other. -/
def deepText : List Char :=
  "\x7b\"body\":".toList ++ List.replicate 125 '[' ++ List.replicate 125 ']' ++ ['\x7d']

/-- The post. -/
def deepPost : Files :=
  OrderedMap.empty.insert "posts/a.json" (Bytes.ofText (String.ofList deepText))

/-- The post is accepted. -/
theorem record_deepPost : ∃ hash, archive.record posts "posts/a.json"
    (Bytes.ofText (String.ofList deepText)) = .ok (post (nest 124) hash, []) := by
  have hread : Value.parse? deepText = some (.object [("body", nest 124)]) := by decide +kernel
  have hmembers : Document.members "text" (String.ofList deepText).toList .json =
      .ok [("body", nest 124)] := by
    rw [String.toList_ofList, Document.members, hread]
    rfl
  have hparse : Document.parse "text" "posts/a.json" (Bytes.ofText (String.ofList deepText)) =
      .ok [("body", nest 124)] := by
    have hformat : DocumentFormat.ofPath? "posts/a.json" = some .json := by rfl
    rw [Document.parse, hformat, Bytes.text?_ofText]
    show Except.mapError _ (Document.members "text" (String.ofList deepText).toList .json) = _
    rw [hmembers]
    rfl
  refine ⟨Sha256.hex (Bytes.ofText (String.ofList deepText)), ?_⟩
  rw [Database.record, show archive.bodyField = "text" from rfl, hparse]
  generalize Sha256.hex (Bytes.ofText (String.ofList deepText)) = hash
  rfl

/-- The post spoils the index. -/
theorem spoils_deepPost : (Source.files deepPost).view.Spoils archive posts "posts/a.json" := by
  obtain ⟨hash, hrecord⟩ := record_deepPost
  have howner : archive.graph.owner? "posts/a.json" = some posts := by rfl
  have hget : (Source.files deepPost).view.get "posts/a.json" =
      .ok (Bytes.ofText (String.ofList deepText)) :=
    Source.view_get_files.mpr (by rw [deepPost, OrderedMap.get?_insert, if_pos rfl])
  refine ⟨post (nest 124) hash, ⟨howner, ⟨["posts/a.json"], rfl, List.mem_singleton_self _⟩,
    View.record?_eq_some_iff.mpr ⟨posts, howner, _, [], hget, hrecord⟩⟩, rfl, fun hread => ?_⟩
  have hdepth := post_isShallow_iff.mp hread.shallow
  rw [depth_nest] at hdepth
  exact absurd hdepth (by decide)

/-- The theorem says that the post is complained of. -/
theorem complaints_of_completes_archive : ∃ report s,
    (archive.rebuild 4).run.Completes (Source.files deepPost).view.Tells OrderedMap.empty (.ok report)
      s ∧
    Complaints (Source.files deepPost).view archive report.generation s ∧
    (Source.files deepPost).view.Spoils archive posts "posts/a.json" := by
  obtain ⟨report, s, hrun⟩ := archive.exists_succeeds_rebuild deepPost 3
  exact ⟨report, s, hrun.completes, (complaints_of_completes archive_compiled).2 _ _ _ _ _
    Store.reachable_empty.nextFree hrun.completes, spoils_deepPost⟩

/-- **An accepted document may spoil the index.** Its record is not read back, and then it is
complained of after a rebuild. -/
theorem exists_spoiling :
    (¬ ∀ (db : Database) (c : Graph.Collection) (path : String) (content : Bytes) (r : Record)
      (ws : List Warning), db.record c path content = .ok (r, ws) →
        Record.ofBytes? r.toBytes = some r) ∧
    ¬ ∀ (db : Database) (v : View) (s s' : Store) (report : Report) (rounds : Nat)
      (c : Graph.Collection) (p : String) (e : QueryError), s.Reachable →
        (db.rebuild rounds).run.Completes v.Tells s (.ok report) s' →
        (db.lookup c p .empty).on s' = some (.error e) → ¬ e.IsCorrupt := by
  constructor
  · intro h
    obtain ⟨hash, hrecord⟩ := record_deepPost
    have hread := h _ _ _ _ _ _ hrecord
    rw [Record.ofBytes?_toBytes] at hread
    split at hread
    · next hshallow =>
      have hdepth := post_isShallow_iff.mp hshallow
      rw [depth_nest] at hdepth
      exact absurd hdepth (by decide)
    · cases hread
  · intro h
    obtain ⟨report, s, hrun⟩ := archive.exists_succeeds_rebuild deepPost 3
    have hcomplaints := complaints_of_nextFree archive_compiled Store.reachable_empty.nextFree
      hrun.completes
    obtain ⟨a, ha, hiff⟩ := hcomplaints.lookups posts (List.mem_singleton_self _) "posts/a.json"
      .empty nofun
    obtain ⟨e, rfl, hcorrupt⟩ := hiff.mpr spoils_deepPost
    exact h _ _ _ _ _ _ _ _ _ Store.reachable_empty hrun.completes ha hcorrupt

end Rebuild

end ContentIndex
