import ContentIndex.Proofs.Consistency
import ContentIndex.Proofs.FreshRebuild
import ContentIndex.Proofs.Lookup

/-!
# Rebuilds are exact

Whatever runs have left, a rebuild that succeeds makes a generation active in which the records of
the documents are, and nothing else. Every document that a collection owns is counted once, as
indexed or as left out. Afterwards a lookup finds the documents that have a record, and no others.

## Main definitions

* `Database.Legible`: documents whose records survive storage
* `Rebuild.Exact`: what a rebuild leaves that is exact

## Main results

* `Store.nextFree_of_interleaving`: no run has written where the next rebuild will write
* `Rebuild.exact_of_succeeds`: **a rebuild that succeeds is exact**
-/

namespace ContentIndex

open Rebuild (Conditions)
open Source (Files)

/-! ### Numbers that were not handed out -/

section Runs

variable {ι : Type} [DecidableEq ι] {runs : ι → Run} {trace : Trace ι}
  {w : World ι (Except IndexError Report)}

/-- Runs in turns take the course of their protocols, whatever they are told. -/
theorem Run.exists_course {store : Store}
    (run : Interleaving (fun i => (runs i).program) store trace w) :
    ∃ stages, Course (fun i => ((runs i).protocol .none).step) (fun _ => .idle) store trace w.store
      stages := by
  refine Run.course_of_allow run (fun _ => False.elim) fun x hx => ?_
  obtain ⟨s, s', h⟩ := run.exists_answers hx
  exact Rebuild.allow_none h

/-- **No run has written where the next rebuild will write.** -/
theorem Store.nextFree_of_interleaving
    (run : Interleaving (fun i => (runs i).program) OrderedMap.empty trace w)
    (hcount : (written trace Key.counter.encode).length < 2 ^ 64 - 1) : w.store.NextFree := by
  obtain ⟨stages, course⟩ : ∃ stages, RunCourse runs .none trace w.store stages :=
    Run.exists_course run
  obtain ⟨n, swapped, h⟩ := Rebuild.numbering_of_course course.metaCourse hcount
  have hn : n + 1 < 2 ^ 64 := by
    have := h.length_eq
    omega
  intro counter active hcounter hactive hcounted hpointed k hk
  have hlast : counter.map (·.1) = (Rebuild.numbers n).getLast? :=
    (Rebuild.reads_eq hcounter
      (hcounted.symm.trans (Rebuild.get?_of_written course h.counter))).1
  have hswapped : active.map (·.1) = swapped.getLast? :=
    (Rebuild.reads_eq hactive
      (hpointed.symm.trans (Rebuild.get?_of_written course h.active))).1
  rw [Rebuild.successor_eq hn hlast fun g hg => h.counted g (List.mem_of_getLast? (hswapped ▸ hg))]
    at hk
  refine get?_eq_none_of_lt course hcount hk ?_
  rw [h.length_eq, Rebuild.toNat_ofNat hn]
  exact Nat.lt_succ_self n

end Runs

/-! ### The records of a rebuild -/

/-- The paths of the documents have no zero in them, and their records are read back as they were
written. -/
structure Database.Legible (db : Database) (fs : Files) : Prop where
  /-- The paths. -/
  paths : ∀ p ∈ fs.keys, Text.ZeroFree p
  /-- The records. -/
  reads : ∀ p c r, db.document? fs p = some (.ok (c, r)) → Record.ofBytes? r.toBytes = some r

namespace Rebuild

variable {db : Database} {fs : Files} {path : String} {c : Graph.Collection} {r : Record}

theorem document_of_recorded (h : db.recorded? fs path = some r) : r.path = path := by
  obtain ⟨c, hc⟩ := Database.recorded?_eq_some_iff.mp h
  obtain ⟨-, content, ws, -, hrecord⟩ := Database.document?_eq_ok_iff.mp hc
  exact (Database.eq_of_record hrecord).2.1

/-- A rebuild writes the records of all documents that have one. -/
theorem mem_records_iff (hG : db.graph.IsCompiled) :
    r ∈ records db fs ↔ ∃ p c, db.document? fs p = some (.ok (c, r)) := by
  have hunowned (p : String) (h : db.graph.owner? p = none) : db.recorded? fs p = none := by
    simp [Database.recorded?, Database.document?, h]
  rw [records, (Database.filterMap_work_perm hG hunowned).mem_iff, List.mem_filterMap]
  constructor
  · rintro ⟨p, -, hp⟩
    exact ⟨p, Database.recorded?_eq_some_iff.mp hp⟩
  · rintro ⟨p, c, hp⟩
    obtain ⟨-, content, ws, hcontent, -⟩ := Database.document?_eq_ok_iff.mp hp
    exact ⟨p, Files.mem_keys_of_get? hcontent, Database.recorded?_eq_some_iff.mpr ⟨c, hp⟩⟩

/-- It writes each document once. -/
theorem nodup_records (hG : db.graph.IsCompiled) : ((records db fs).map (·.path)).Nodup := by
  rw [records, List.map_filterMap]
  refine (Database.nodup_work hG).filterMap fun p p' q hq hq' => ?_
  obtain ⟨r, hr, rfl⟩ := Option.map_eq_some_iff.mp hq
  obtain ⟨r', hr', hpath⟩ := Option.map_eq_some_iff.mp hq'
  rw [← document_of_recorded hr, ← document_of_recorded hr', hpath]

/-- The record of a document is one of the graph, if it is read back as it was written. -/
theorem admits_of_reads (hG : db.graph.IsCompiled) (hpath : Text.ZeroFree path)
    (h : db.document? fs path = some (.ok (c, r))) (hreads : Record.ofBytes? r.toBytes = some r) :
    db.graph.Admits r := by
  obtain ⟨howner, content, ws, -, hrecord⟩ := Database.document?_eq_ok_iff.mp h
  obtain ⟨hname, hpath', -⟩ := Database.eq_of_record hrecord
  have hc : c ∈ db.graph.collections := Graph.mem_of_owner? howner
  refine ⟨⟨?_, ?_, hreads⟩, c, hc, hname⟩
  · rw [hpath']
    exact hpath
  · exact Database.fields_zeroFree_of_record hG hc hrecord

theorem admits_of_document (hG : db.graph.IsCompiled) (hlegible : db.Legible fs)
    (h : db.document? fs path = some (.ok (c, r))) :
    db.graph.Admits r ∧ c ∈ db.graph.collections ∧ r.collection = c.name ∧ r.path = path := by
  obtain ⟨howner, content, ws, hcontent, hrecord⟩ := Database.document?_eq_ok_iff.mp h
  obtain ⟨hname, hpath, -⟩ := Database.eq_of_record hrecord
  refine ⟨?_, Graph.mem_of_owner? howner, hname, hpath⟩
  exact admits_of_reads hG (hlegible.paths path (Files.mem_keys_of_get? hcontent)) h
    (hlegible.reads path c r h)

theorem admits_of_mem_records (hG : db.graph.IsCompiled) (hlegible : db.Legible fs) :
    ∀ r ∈ records db fs, db.graph.Admits r := by
  intro r hr
  obtain ⟨p, c, h⟩ := (mem_records_iff hG).mp hr
  exact (admits_of_document hG hlegible h).1

/-- Records of documents are of different ones. -/
theorem library_records (hG : db.graph.IsCompiled) (hlegible : db.Legible fs) :
    db.graph.Library {r | r ∈ records db fs} := by
  have hlibrary := Graph.library_final (n := 0) (admits_of_mem_records hG hlegible)
  rwa [Graph.final_eq_of_nodup hG (admits_of_mem_records hG hlegible) (nodup_records hG)]
    at hlibrary

/-- Written one after another, the records are held. -/
theorem holds_records (hG : db.graph.IsCompiled) (hlegible : db.Legible fs) {s : Store}
    {g : Generation} (h : s.Settled g db.graph (records db fs)) :
    s.Holds g db.graph {r | r ∈ records db fs} := by
  have hadmits := admits_of_mem_records hG hlegible
  have hholds := Store.holds_of_settled hG hadmits h fun k =>
    Graph.not_leavesEntry_of_nodup hG hadmits (nodup_records hG)
  rwa [Graph.final_eq_of_nodup hG hadmits (nodup_records hG)] at hholds

/-! ### Exactness -/

/-- What a rebuild leaves, and what it reports, that has worked through the documents and has found
the first store: the records of all documents that have one, and nothing else. -/
structure Exact (db : Database) (fs : Files) (before : Store) (report : Report) (after : Store) :
    Prop where
  /-- Its generation is active. -/
  active : after.get? Key.active.encode = some report.generation.toBytes
  /-- The lock is given back. -/
  lock : after.get? Key.lock.encode = none
  /-- The generation has its information and the entries of the records, and nothing else. -/
  entries : ∃ previous, Generation.Reads previous ∧
    before.get? Key.active.encode = previous.map (·.2) ∧
    ∀ k v, Key.generationPrefix report.generation <+: k → (after.get? k = some v ↔
      (k = (Key.info report.generation).encode ∧ v = (GenerationInfo.mk report.generation
        db.graph.version db.graph.typeText (previous.map (·.1))).toBytes) ∨
      ∃ p c r, db.document? fs p = some (.ok (c, r)) ∧ (k, v) ∈ r.entries report.generation c)
  /-- What it lists to be done is every path that has an owner, each once and for its owner. -/
  work : ∀ s s' work, db.documents.Succeeds fs s work s' →
    (work.map (·.2)).Perm (fs.keys.filter fun p => (db.graph.owner? p).isSome) ∧
      ∀ x ∈ work, db.graph.owner? x.2 = some x.1
  /-- The documents that have a record are counted. -/
  indexed : report.indexed = (fs.keys.filterMap (db.recorded? fs)).length
  /-- The documents that were left out are told, with the reasons. -/
  skipped : report.skipped.Perm (fs.keys.filterMap (db.skip? fs))
  /-- Every path that has an owner is counted once. -/
  counted : report.indexed + report.skipped.length =
    (fs.keys.filter fun p => (db.graph.owner? p).isSome).length
  /-- Nothing else is counted. -/
  others : report.unchanged = 0 ∧ report.deleted = 0

/-- A rebuild that succeeds is exact if nothing is stored where it writes. -/
theorem exact_of_nextFree (hG : db.graph.IsCompiled) (hlegible : db.Legible fs) {rounds : Nat}
    {s s' : Store} {report : Report} (hfree : s.NextFree)
    (h : (db.rebuild rounds).Succeeds fs s report s') : Exact db fs s report s' := by
  obtain ⟨hadds, hsettled, ⟨previous, hreads, hprevious, hinfo⟩, hactive, hlock⟩ :=
    (gives_rebuild hG rounds hfree).of_succeeds h
  have hholds := holds_records hG hlegible hsettled
  have hindexed : (records db fs).length = (fs.keys.filterMap (db.recorded? fs)).length := by
    refine (Database.filterMap_work_perm hG fun p hp => ?_).length_eq
    simp [Database.recorded?, Database.document?, hp]
  have hskipped : (skips db fs).Perm (fs.keys.filterMap (db.skip? fs)) := by
    refine Database.filterMap_work_perm hG fun p hp => ?_
    simp [Database.skip?, Database.document?, hp]
  refine ⟨hactive, hlock, ⟨previous, hreads, hprevious, fun k v hk => ?_⟩, fun s s' work hwork => ?_,
    ?_, ?_, ?_, hadds.unchanged, hadds.deleted⟩
  · have hentries {p : String} {c : Graph.Collection} {r : Record}
        (hp : db.document? fs p = some (.ok (c, r))) :
        db.graph.entries report.generation r = r.entries report.generation c := by
      obtain ⟨-, hc, hname, -⟩ := admits_of_document hG hlegible hp
      exact Graph.entries_eq hG hc hname
    by_cases hk' : k = (Key.info report.generation).encode
    · subst hk'
      rw [hinfo, Option.some_inj]
      refine ⟨fun h => Or.inl ⟨rfl, h.symm⟩, ?_⟩
      rintro (⟨-, hv⟩ | ⟨p, c, r, hp, hmem⟩)
      · exact hv.symm
      · rw [← hentries hp] at hmem
        exact absurd rfl (Graph.owned_of_mem_entries hG (admits_of_document hG hlegible hp).1.locates
          hmem).ne_info
    · rw [hholds k v hk hk']
      constructor
      · rintro ⟨r, hr, hmem⟩
        obtain ⟨p, c, hp⟩ := (mem_records_iff hG).mp hr
        exact Or.inr ⟨p, c, r, hp, hentries hp ▸ hmem⟩
      · rintro (⟨hinfo, -⟩ | ⟨p, c, r, hp, hmem⟩)
        · exact absurd hinfo hk'
        · exact ⟨r, (mem_records_iff hG).mpr ⟨p, c, hp⟩, (hentries hp).symm ▸ hmem⟩
  · obtain ⟨-, rfl⟩ := Failing.Gives.of_succeeds gives_documents hwork
    exact ⟨Database.work_perm hG, fun x hx => ((Database.mem_work_iff hG).mp hx).1⟩
  · rw [hadds.indexed, hindexed, Nat.zero_add]
  · rw [hadds.skipped]
    exact hskipped
  · rw [hadds.indexed, hadds.skipped, hindexed, ← Database.length_recorded?_add_skip? fun _ => id]
    simp [hskipped.length_eq]

/-! ### Lookups -/

namespace Exact

variable {before after : Store} {report : Report} (h : Exact db fs before report after)
include h

theorem presents : after.Presents report.generation db.graph := by
  obtain ⟨previous, -, -, hentries⟩ := h.entries
  exact ⟨h.active, _, (hentries _ _ Key.info_starts).mpr (Or.inl ⟨rfl, rfl⟩), rfl⟩

/-- The record of a document is stored. -/
theorem get?_document (hp : db.document? fs path = some (.ok (c, r))) :
    after.get? (Key.document report.generation c.name path).encode = some r.toBytes := by
  obtain ⟨previous, -, -, hentries⟩ := h.entries
  obtain ⟨-, content, ws, -, hrecord⟩ := Database.document?_eq_ok_iff.mp hp
  obtain ⟨hname, hpath, -⟩ := Database.eq_of_record hrecord
  refine (hentries _ _ (Store.document_starts _ _)).mpr (Or.inr ⟨path, c, r, hp, ?_⟩)
  rw [← hname, ← hpath, ← Entries.find?_eq_some_iff (r.sorted_entries _ c)]
  exact r.find?_document _ c

/-- Under the key of a document that has no record nothing is stored. -/
theorem get?_document_eq_none (hG : db.graph.IsCompiled) (hlegible : db.Legible fs)
    (hc : c ∈ db.graph.collections) (hp : ∀ r, db.document? fs path ≠ some (.ok (c, r))) :
    after.get? (Key.document report.generation c.name path).encode = none := by
  obtain ⟨previous, -, -, hentries⟩ := h.entries
  refine Option.eq_none_iff_forall_ne_some.mpr fun v hv => ?_
  rcases (hentries _ _ (Store.document_starts _ _)).mp hv with ⟨hinfo, -⟩ | ⟨p, d, r, hd, hmem⟩
  · exact Store.document_ne_info _ _ hinfo
  · obtain ⟨hadmits, hdmem, hname, hpath⟩ := admits_of_document hG hlegible hd
    rw [← Graph.entries_eq hG hdmem hname] at hmem
    obtain ⟨hcollection, hpath', -⟩ := Store.eq_of_document hG hadmits.locates hmem
    obtain rfl : d = c :=
      List.inj_on_of_nodup_map hG.names.2 hdmem hc (hname.symm.trans hcollection)
    obtain rfl : p = path := hpath.symm.trans hpath'
    exact hp r hd

/-- **A lookup shows the record of a document, and finds no other documents.** -/
theorem run_lookup (hG : db.graph.IsCompiled) (hlegible : db.Legible fs)
    (hc : c ∈ db.graph.collections) (rounds : Nat) {host : Host} (hstore : host.store = after)
    (path : String) :
    (∀ r, db.document? fs path = some (.ok (c, r)) →
      Host.run (db.resolve rounds (Request.get c.name path .empty)).run host =
        (some (.ok ⟨r.whole c, none, []⟩), host)) ∧
    ((∀ r, db.document? fs path ≠ some (.ok (c, r))) →
      Host.run (db.resolve rounds (Request.get c.name path .empty)).run host =
        (some (.error (.notFound c.name path)), host)) := by
  have hrun : Host.run (db.resolve rounds (Request.get c.name path .empty)).run host =
      ((db.lookup c path .empty).on after, host) := by
    rw [(db.reads_resolve rounds _).run_eq, Database.resolve_get hG hc, hstore]
    rfl
  constructor
  · intro r hr
    obtain ⟨-, content, ws, -, hrecord⟩ := Database.document?_eq_ok_iff.mp hr
    rw [hrun, Database.on_lookup hG hc h.presents hrecord (h.get?_document hr)
      (hlegible.reads path c r hr)]
  · intro hnone
    rw [hrun, Database.on_lookup_of_none h.presents (h.get?_document_eq_none hG hlegible hc hnone)]

end Exact

/-- **A rebuild that succeeds is exact.** Whatever runs have left, the rebuild makes a generation
active that has the records of the documents and nothing else, and it has counted every document
that a collection owns once. Then each document that has a record is shown as a whole when it is
asked for, and no other document is found. -/
theorem exact_of_succeeds {ι : Type} [DecidableEq ι] (runs : ι → Run) {trace : Trace ι}
    {w : World ι (Except IndexError Report)}
    (run : Interleaving (fun i => (runs i).program) OrderedMap.empty trace w)
    (hcount : (written trace Key.counter.encode).length < 2 ^ 64 - 1)
    (hG : db.graph.IsCompiled) (hlegible : db.Legible fs) {rounds : Nat} {report : Report}
    {after : Store} (h : (db.rebuild rounds).Succeeds fs w.store report after) :
    Exact db fs w.store report after ∧
      ∀ c ∈ db.graph.collections, ∀ (path : String) (rounds : Nat) (host : Host),
        host.store = after →
          (∀ r, db.document? fs path = some (.ok (c, r)) →
            Host.run (db.resolve rounds (Request.get c.name path .empty)).run host =
              (some (.ok ⟨r.whole c, none, []⟩), host)) ∧
          ((∀ r, db.document? fs path ≠ some (.ok (c, r))) →
            Host.run (db.resolve rounds (Request.get c.name path .empty)).run host =
              (some (.error (.notFound c.name path)), host)) := by
  have hexact := exact_of_nextFree hG hlegible (Store.nextFree_of_interleaving run hcount) h
  exact ⟨hexact, fun c hc path rounds host hstore =>
    hexact.run_lookup hG hlegible hc rounds hstore path⟩

/-! ### A rebuild after others -/

/-- One note. -/
def noteFiles : Files :=
  OrderedMap.empty.insert "notes/a.json" (Bytes.ofText "\x7b\"done\":true\x7d")

/-- Documents whose records have one boolean field are read back. -/
theorem legible_of_isTick {db : Database} {fs : Files} (h : ∀ p ∈ fs.keys, Text.ZeroFree p ∧
    (db.recorded? fs p).all (·.isTick)) : db.Legible fs := by
  refine ⟨fun p hp => (h p hp).1, fun p c r hr => ?_⟩
  obtain ⟨-, content, ws, hcontent, -⟩ := Database.document?_eq_ok_iff.mp hr
  have htick := (h p (Files.mem_keys_of_get? hcontent)).2
  rw [Database.recorded?_eq_some_iff.mpr ⟨c, hr⟩] at htick
  exact Record.reads_of_isTick htick

theorem noteFiles_legible : notebook.Legible noteFiles :=
  legible_of_isTick (by decide)

/-- After the takeover, where a rebuild has failed and another one has swapped, a rebuild of the note
succeeds and is exact. -/
theorem exact_of_succeeds_notebook : ∃ report after,
    (notebook.rebuild 4).Succeeds noteFiles takeover.world.store report after ∧
      Exact notebook noteFiles takeover.world.store report after := by
  obtain ⟨report, h⟩ : ∃ report, (notebook.rebuild 4).Succeeds noteFiles takeover.world.store report
      ((notebook.rebuild 4).leaves noteFiles 2 takeover.world.store) :=
    Failing.exists_succeeds 2 (by decide +kernel)
  exact ⟨report, _, h, (exact_of_succeeds (fun _ : Bool => .rebuild hasty 2) (w := takeover.world)
    takeover_interleaving takeover_count notebook_compiled noteFiles_legible h).1⟩

end Rebuild

end ContentIndex
