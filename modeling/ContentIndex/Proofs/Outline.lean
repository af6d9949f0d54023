import ContentIndex.Proofs.FailedRebuild
import ContentIndex.Proofs.Rereading
import ContentIndex.Proofs.Upkeep

/-!
# What an index keeps of every document

A record is not always read back as it was written: a number may come back as another one, and then
its places in the orders of its collection are lost. The entry of the record itself and those of its
references do not depend on that. So whatever the documents contain, an index has these entries of
the records that were written, and no others.

## Main definitions

* `Database.Makes`: the records that are made of the contents of documents
* `Key.Outlined`: the keys of records and of references
* `Database.Tells`: an index has the outlines of some records, and no others
* `Database.Built`: what rebuilds and updates make of an index

## Main results

* `Record.Resembles.mem_keys_iff`: a record that is read back has the outline of the one that was
  written
* `Database.Tells.step`: **an update keeps the outlines of the records**
* `Database.Built.exists_tells`: so an index has them that was built by rebuilds and updates
-/

namespace ContentIndex

open Source (Files)

/-! ### Records that are made -/

namespace Database

/-- The record is one that the database makes of one of the contents, for a document whose path has
no zero in it. -/
def Makes (db : Database) (U : Set Bytes) (r : Record) : Prop :=
  Text.ZeroFree r.path ∧ ∃ c ∈ db.graph.collections, ∃ content ∈ U, ∃ ws,
    db.record c r.path content = .ok (r, ws)

namespace Makes

variable {db : Database} {U : Set Bytes} {r : Record}

theorem ordered (hG : db.graph.IsCompiled) (h : db.Makes U r) : r.Ordered := by
  obtain ⟨-, c, hc, content, -, ws, hrecord⟩ := h
  exact ordered_of_record hG hc hrecord

theorem locates (hG : db.graph.IsCompiled) (h : db.Makes U r) : db.graph.Locates r := by
  obtain ⟨hpath, c, hc, content, -, ws, hrecord⟩ := h
  exact ⟨hpath, fields_zeroFree_of_record hG hc hrecord, c, hc,
    (eq_of_record hrecord).1⟩

/-- The updates of a database write records that it makes. -/
theorem allow {e : Exchange} {s s' : Store} (h : s.Answers e s')
    (hsource : ∀ p b, e = ⟨.content p, .ok b⟩ → Text.ZeroFree p ∧ b ∈ U) :
    Rebuild.Conditions.Allow ⟨False, fun _ r => db.Makes U r⟩ db e := by
  refine .of_answers h (fun _ _ _ => False.elim) fun p b he col hcol _ r ws hrecord => ?_
  obtain ⟨hp, hb⟩ := hsource p b he
  have hpath := (eq_of_record hrecord).2.1
  exact ⟨hpath ▸ hp, col, hcol, b, hb, ws, hpath ▸ hrecord⟩

end Makes

end Database

/-! ### Outlines -/

/-- The key is one of a record or of a reference. -/
def Key.Outlined (g : Generation) (k : Bytes) : Prop :=
  Family.start g .document <+: k ∨ Family.start g .backlink <+: k

namespace Record

variable {r r' : Record} {g : Generation} {c : Graph.Collection} {k : Bytes}

/-- A place in an order has another key. -/
theorem not_outlined_of_mem_sortEntries {x : Entry} (h : x ∈ r.sortEntries g c) :
    ¬ Key.Outlined g x.1 := by
  simp only [sortEntries, List.mem_flatMap, List.mem_map] at h
  obtain ⟨f, -, d, -, rfl⟩ := h
  have hsort := Key.sort_starts (g := g) c.name f.name d (Entries.find? f.name r.fields) r.path
  rintro (h | h)
  · cases Key.Family.eq_of_start h hsort rfl
  · cases Key.Family.eq_of_start h hsort rfl

/-- The entry of a record and those of its references are the ones of its outline. -/
theorem mem_keys_iff_of_outlined (hk : Key.Outlined g k) : k ∈ (r.entries g c).map (·.1) ↔
    k = r.key g ∨ k ∈ (r.backlinkEntries g).map (·.1) := by
  have hlist : k ∈ (r.entries g c).map (·.1) ↔
      k ∈ (r.documentEntry g :: r.sortEntries g c ++ r.backlinkEntries g).map (·.1) := by
    simp only [List.mem_map]
    constructor
    · rintro ⟨x, hx, rfl⟩
      exact ⟨x, Entries.mem_of_mem_ofList hx, rfl⟩
    · rintro ⟨x, hx, rfl⟩
      obtain ⟨v, hv⟩ := Entries.exists_mem_ofList hx
      exact ⟨_, hv, rfl⟩
  have hsort : k ∉ (r.sortEntries g c).map (·.1) := by
    rintro hmem
    obtain ⟨x, hx, rfl⟩ := List.mem_map.mp hmem
    exact not_outlined_of_mem_sortEntries hx hk
  rw [hlist, List.cons_append, List.map_cons, List.mem_cons, List.map_append, List.mem_append,
    or_iff_right hsort]
  rfl

/-- **A record that is read back has the outline of the one that was written.** -/
theorem Resembles.mem_keys_iff (h : r'.Resembles r) (hk : Key.Outlined g k) :
    k ∈ (r'.entries g c).map (·.1) ↔ k ∈ (r.entries g c).map (·.1) := by
  rw [mem_keys_iff_of_outlined hk, mem_keys_iff_of_outlined hk, key, key, backlinkEntries,
    backlinkEntries, h.collection, h.path, h.references]

theorem Resembles.mem_graph_keys_iff {G : Graph} (h : r'.Resembles r) (hk : Key.Outlined g k) :
    k ∈ (G.entries g r').map (·.1) ↔ k ∈ (G.entries g r).map (·.1) := by
  rw [Graph.entries, Graph.entries, h.collection]
  cases G.collection? r.collection with
  | none => rfl
  | some c => exact h.mem_keys_iff hk

theorem Resembles.locates {G : Graph} (h : r'.Resembles r) (hr : G.Locates r) : G.Locates r' :=
  ⟨h.path ▸ hr.path, h.references ▸ hr.fields, h.collection ▸ hr.collection⟩

end Record

/-! ### Indexes that tell of records -/

/-- The index of the store has the outlines of the records, and no others. -/
structure Database.Tells (db : Database) (U : Set Bytes) (s : Store) (g : Generation)
    (D : Set Record) : Prop where
  /-- The generation is active. -/
  presents : s.Presents g db.graph
  /-- Its information names it. -/
  named : ∃ i : GenerationInfo, s.get? (Key.info g).encode = some i.toBytes ∧ i.generation = g
  /-- The records are made of contents of documents. -/
  makes : ∀ r ∈ D, db.Makes U r
  /-- They are of different documents. -/
  unique : ∀ r ∈ D, ∀ r' ∈ D, r.collection = r'.collection → r.path = r'.path → r = r'
  /-- The keys of records and of references have what the records have there. -/
  outlines : ∀ k, Key.Outlined g k → s.HoldsAt g db.graph D k

namespace Database

namespace Tells

variable {db : Database} {U : Set Bytes} {s s' : Store} {g : Generation} {D : Set Record}
  {c p : String} {v : Bytes} {r : Record}

/-- What is stored elsewhere does not matter. -/
theorem congr (h : db.Tells U s g D)
    (hactive : s'.get? Key.active.encode = s.get? Key.active.encode)
    (hsame : ∀ k, Key.generationPrefix g <+: k → s'.get? k = s.get? k) : db.Tells U s' g D := by
  have hinfo := hsame _ Key.info_starts
  refine ⟨⟨hactive.trans h.presents.active, ?_⟩, ?_, h.makes, h.unique, fun k hk v => ?_⟩
  · exact hinfo ▸ h.presents.info
  · exact hinfo ▸ h.named
  have hstarts : Key.generationPrefix g <+: k := by
    rcases hk with hk | hk <;> exact (Key.Family.starts_start _).trans hk
  rw [hsame k hstarts]
  exact h.outlines k hk v

/-- Under the key of a document is the record of the document. -/
theorem get?_document_eq_some_iff (hG : db.graph.IsCompiled) (h : db.Tells U s g D) :
    s.get? (Key.document g c p).encode = some v ↔
      ∃ r ∈ D, r.collection = c ∧ r.path = p ∧ v = r.toBytes := by
  rw [h.outlines _ (Or.inl (Key.document_starts c p)) v]
  constructor
  · rintro ⟨r, hr, hmem⟩
    exact ⟨r, hr, Store.eq_of_document hG ((h.makes r hr).locates hG) hmem⟩
  · rintro ⟨r, hr, rfl, rfl, rfl⟩
    exact ⟨r, hr, Graph.mem_entries_key hG ((h.makes r hr).locates hG)⟩

/-- A record that was read under the key of a document resembles the one of the document; there is
none if none was read. -/
theorem read (hG : db.graph.IsCompiled) (h : db.Tells U s g D) {old : Option Record}
    (hold : Record.ofStored? (Key.document g c p).encode
      (s.get? (Key.document g c p).encode) = .ok old) :
    (∀ r' ∈ old, ∃ r ∈ D, r.collection = c ∧ r.path = p ∧ r'.Resembles r) ∧
      (old = none → ∀ r ∈ D, ¬ (r.collection = c ∧ r.path = p)) := by
  cases hv : s.get? (Key.document g c p).encode with
  | none =>
    rw [hv] at hold
    cases hold
    refine ⟨?_, fun _ r hr hdoc => ?_⟩
    · rintro r ⟨⟩
    have hsome := (h.get?_document_eq_some_iff hG).mpr ⟨r, hr, hdoc.1, hdoc.2, rfl⟩
    rw [hv] at hsome
    cases hsome
  | some b =>
    obtain ⟨r, hr, hc, hp, rfl⟩ := (h.get?_document_eq_some_iff hG).mp hv
    rw [hv, Record.ofStored?] at hold
    split at hold
    · next r' hread =>
      cases hold
      refine ⟨?_, fun h => by cases h⟩
      rintro _ ⟨⟩
      exact ⟨r, hr, hc, hp, Record.resembles_of_ofBytes? hread ((h.makes r hr).ordered hG)⟩
    · cases hold

/-- **A document is replaced with its outline.** What is replaced is the record that was read. -/
theorem replace (hG : db.graph.IsCompiled) (h : db.Tells U s g D) {old new : Option Record}
    (hold : Record.ofStored? (Key.document g c p).encode
      (s.get? (Key.document g c p).encode) = .ok old)
    (hnew : ∀ r ∈ new, db.Makes U r ∧ r.collection = c ∧ r.path = p) :
    db.Tells U ((replacement (db.graph.entriesOf g old) (db.graph.entriesOf g new)).foldl
      Store.apply s) g (Graph.replaced D c p new) := by
  obtain ⟨hsome, hnone⟩ := h.read hG hold
  have hlocates : ∀ r ∈ D, db.graph.Locates r := fun r hr => (h.makes r hr).locates hG
  have hnew' : ∀ r ∈ new, db.graph.Locates r ∧ r.collection = c ∧ r.path = p :=
    fun r hr => ⟨(hnew r hr).1.locates hG, (hnew r hr).2⟩
  have hold' : ∀ r' ∈ old, db.graph.Locates r' := by
    intro r' hr'
    obtain ⟨r, hr, -, -, hresembles⟩ := hsome r' hr'
    exact hresembles.locates (hlocates r hr)
  have hkept {k : Bytes} (hk : ∀ c p, ¬ Key.Owned g c p k) :
      ((replacement (db.graph.entriesOf g old) (db.graph.entriesOf g new)).foldl
        Store.apply s).get? k = s.get? k :=
    Store.get?_replacement_of_not_owned hG s hold' (fun r hr => (hnew' r hr).1) hk
  refine ⟨⟨?_, ?_⟩, ?_, ?_, ?_, fun k hk => ?_⟩
  · rw [hkept fun c p howned => Key.not_starts_active (Key.starts_of_generationPrefix howned.starts)]
    exact h.presents.active
  · rw [hkept fun c p howned => howned.ne_info rfl]
    exact h.presents.info
  · rw [hkept fun c p howned => howned.ne_info rfl]
    exact h.named
  · rintro r (⟨hr, -⟩ | hr)
    · exact h.makes r hr
    · exact (hnew r hr).1
  · rintro r (⟨hr, hne⟩ | hr) r' (⟨hr', hne'⟩ | hr') hc hp
    · exact h.unique r hr r' hr' hc hp
    · obtain ⟨-, hc', hp'⟩ := hnew r' hr'
      exact absurd ⟨hc.trans hc', hp.trans hp'⟩ hne
    · obtain ⟨-, hc', hp'⟩ := hnew r hr
      exact absurd ⟨hc.symm.trans hc', hp.symm.trans hp'⟩ hne'
    · exact Option.some.inj (hr.symm.trans hr')
  · refine (h.outlines k hk).replace hG hlocates ?_ hnew'
    have hmem (r : Record) :
        k ∈ (db.graph.entries g r).map (·.1) ↔ ∃ v, (k, v) ∈ db.graph.entries g r := by
      simp
    cases old with
    | none =>
      refine iff_of_false nofun ?_
      rintro ⟨r, hr, hc, hp, -⟩
      exact hnone rfl r hr ⟨hc, hp⟩
    | some r' =>
      obtain ⟨r, hr, hc, hp, hresembles⟩ := hsome r' rfl
      refine (hresembles.mem_graph_keys_iff hk).trans ((hmem r).trans ⟨fun hv => ?_, ?_⟩)
      · exact ⟨r, hr, hc, hp, hv⟩
      · rintro ⟨r₁, hr₁, hc₁, hp₁, hv⟩
        obtain rfl := h.unique r hr r₁ hr₁ (hc.trans hc₁.symm) (hp.trans hp₁.symm)
        exact hv

/-! ### Steps of updates -/

/-- **An update keeps the outlines of the records.** -/
theorem step (hG : db.graph.IsCompiled) (h : db.Tells U s g D) {stage stage' : Rebuild.Stage}
    {e : Exchange} (hstep : Update.Step db ⟨False, fun _ r => db.Makes U r⟩ stage e stage')
    (ha : s.Answers e s') : ∃ D', db.Tells U s' g D' := by
  cases hstep with
  | quiet he =>
    have hsame (k : Bytes) : s'.get? k = s.get? k :=
      ha.get?_eq_of_effect? (Exchange.effect?_eq_none_of_applied? he k)
    exact ⟨D, h.congr (hsame _) fun k _ => hsame k⟩
  | @replace g' col path stored old new hcol hold hnew =>
    have hstored : s.get? (Key.document g' col.name path).encode = stored :=
      ha.guard_eq (List.mem_cons_self ..)
    have hactive : s.get? Key.active.encode = some g'.toBytes :=
      ha.guard_eq (List.mem_cons_of_mem _ (List.mem_singleton_self _))
    obtain rfl : g' = g :=
      Generation.toBytes_injective (Option.some.inj (hactive.symm.trans h.presents.active))
    subst hstored
    have hnew' : ∀ r ∈ new, db.Makes U r ∧ r.collection = col.name ∧ r.path = path :=
      fun r hr => ⟨(hnew r hr).2.2, (hnew r hr).1, (hnew r hr).2.1⟩
    have hnames : ∀ r ∈ old, r.collection = col.name := by
      intro r hr
      obtain ⟨r', -, hc, -, hresembles⟩ := (h.read hG hold).1 r hr
      exact hresembles.collection.trans hc
    refine ⟨Graph.replaced D col.name path new, ?_⟩
    rw [ha.eq_of_write, Update.entriesOf, Update.entriesOf, entriesOf_eq hG hcol hnames,
      entriesOf_eq hG hcol fun r hr => (hnew' r hr).2.1]
    exact h.replace hG hold hnew'

/-- So do updates that run in turns. -/
theorem exists_of_interleaving (hG : db.graph.IsCompiled) (h : db.Tells U s g D) {ι : Type}
    [DecidableEq ι] {paths : ι → List String} {trace : Trace ι}
    {w : World ι (Except IndexError Report)}
    (run : Interleaving (fun i => (db.update (paths i)).run) s trace w)
    (hsource : ∀ x ∈ trace, ∀ p b, x.2 = ⟨.content p, .ok b⟩ → Text.ZeroFree p ∧ b ∈ U) :
    ∃ D', db.Tells U w.store g D' := by
  obtain ⟨stages, course, -⟩ := run.exists_course
    (P := fun _ => Update.protocol db ⟨False, fun _ r => db.Makes U r⟩)
    (fun i => Update.follows db _ (paths i) .idle) fun x hx _ => by
      obtain ⟨t, t', ha⟩ := run.exists_answers hx
      exact Makes.allow ha (hsource x hx)
  clear run hsource
  generalize w.store = after at course
  induction course with
  | start => exact ⟨D, h⟩
  | next course ha hstep ih =>
    obtain ⟨D', htells⟩ := ih
    exact htells.step hG hstep ha

end Tells

/-! ### Indexes that are built -/

/-- A rebuild that succeeds leaves the outlines of the records of the documents. -/
theorem tells_of_rebuild {db : Database} {U : Set Bytes} {fs : Files} {s s' : Store} {rounds : Nat}
    {report : Report} (hG : db.graph.IsCompiled) (hs : s.Reachable)
    (hsource : ∀ p b, fs.get? p = some b → Text.ZeroFree p ∧ b ∈ U)
    (h : (db.rebuild rounds).Succeeds fs s report s') :
    db.Tells U s' report.generation {r | r ∈ Rebuild.records db fs} := by
  obtain ⟨-, hsettled, ⟨previous, -, -, hinfo⟩, hactive, -⟩ :=
    (Rebuild.gives_rebuild hG rounds hs.nextFree).of_succeeds h
  have hmakes : ∀ r ∈ Rebuild.records db fs, db.Makes U r := by
    intro r hr
    obtain ⟨p, c, hp⟩ := (Rebuild.mem_records_iff hG).mp hr
    obtain ⟨howner, content, ws, hcontent, hrecord⟩ := document?_eq_ok_iff.mp hp
    obtain rfl := (eq_of_record hrecord).2.1
    obtain ⟨hzero, hused⟩ := hsource _ _ hcontent
    exact ⟨hzero, c, Graph.mem_of_owner? howner, content, hused, ws, hrecord⟩
  have hnodup := @Rebuild.nodup_records db fs hG
  refine ⟨⟨hactive, _, hinfo, rfl⟩, ⟨_, hinfo, rfl⟩, hmakes, fun r hr r' hr' _ hp => ?_,
    fun k hk v => ?_⟩
  · exact List.inj_on_of_nodup_map hnodup hr hr' hp
  · have hstarts : Key.generationPrefix report.generation <+: k := by
      rcases hk with hk | hk <;> exact (Key.Family.starts_start _).trans hk
    rw [hsettled k hstarts]
    · exact Graph.latest?_eq_some_iff_of_nodup hG (fun r hr => (hmakes r hr).locates hG) hnodup
    · rintro rfl
      rcases hk with hk | hk <;> exact Key.not_start_info hk

/-- An index that was built by rebuilds, which run alone, and by updates, which need not. The
documents that were read have paths without zeros, and contents among `U`. -/
inductive Built (db : Database) (U : Set Bytes) : Store → Prop
  /-- A rebuild has succeeded, on whatever runs have left. -/
  | rebuild {fs : Files} {s s' : Store} {rounds : Nat} {report : Report} (hs : s.Reachable)
    (hsource : ∀ p b, fs.get? p = some b → Text.ZeroFree p ∧ b ∈ U)
    (h : (db.rebuild rounds).Succeeds fs s report s') : Built db U s'
  /-- A rebuild has failed. -/
  | withdrawn {s s' : Store} (h : Built db U s) (hs : Rebuild.Withdrawn s s') : Built db U s'
  /-- Updates have run in turns, each as far as it got. -/
  | updates {s : Store} {ι : Type} [DecidableEq ι] {paths : ι → List String} {trace : Trace ι}
    {w : World ι (Except IndexError Report)} (h : Built db U s)
    (run : Interleaving (fun i => (db.update (paths i)).run) s trace w)
    (hsource : ∀ x ∈ trace, ∀ p b, x.2 = ⟨.content p, .ok b⟩ → Text.ZeroFree p ∧ b ∈ U) :
    Built db U w.store

/-- **An index that was built has the outlines of records of documents, and no others.** -/
theorem Built.exists_tells {db : Database} {U : Set Bytes} {s : Store} (hG : db.graph.IsCompiled)
    (h : db.Built U s) : ∃ g D, db.Tells U s g D := by
  induction h with
  | rebuild hs hsource h => exact ⟨_, _, tells_of_rebuild hG hs hsource h⟩
  | @withdrawn s s' h hs ih =>
    obtain ⟨g, D, htells⟩ := ih
    refine ⟨g, D, htells.congr hs.active fun k hk => hs.readable g ?_ k hk⟩
    have hactive : s.number? .active = some g := Store.number?_eq htells.presents.active
    simp [Store.readable, hactive]
  | updates h run hsource ih =>
    obtain ⟨g, D, htells⟩ := ih
    exact ⟨g, htells.exists_of_interleaving hG run hsource⟩

end Database

end ContentIndex
