import ContentIndex.Proofs.LostUpdates
import ContentIndex.Proofs.Places
import ContentIndex.Proofs.Walks

/-!
# Documents that are left out

A run reports the documents that it has left out, with reasons. A rebuild has written nothing of
them. An update takes away what was stored of a document whose content makes no record, but a
document whose content could not be read keeps all that was stored of it, so it is left out of the
report's count and stays in the index.

## Main definitions

* `Trace.Records`: the records of contents that were told
* `Run.Spares`: what a run leaves of a document that it has left out

## Main results

* `Store.filed_of_interleaving`: runs leave records under the keys of their documents
* `Rebuild.get?_eq_none_of_skipped`: a rebuild writes nothing of what it leaves out
* `Update.Walk.get?_eq_none_iff_of_skipped`: what an update leaves of what it leaves out
* `Run.absent_iff_not_spares`: **what a run has left out is absent afterwards, or it was spared**
-/

namespace ContentIndex

open Rebuild (Conditions)
open Source (View)
open Text (ZeroFree)

/-! ### Reasons -/

/-- The content of the document could not be had. -/
def DocumentSkip.IsUnreadable (reason : DocumentSkip) : Prop := reason.parts.1 = .unreadable

instance (reason : DocumentSkip) : Decidable reason.IsUnreadable :=
  inferInstanceAs (Decidable (_ = _))

namespace Database

variable {db : Database} {c : Graph.Collection} {p : String} {old : Option Record}
  {content : Except SourceError Bytes} {reason : DocumentSkip}

/-- A content that makes no record could be read. -/
theorem not_isUnreadable_of_record {b : Bytes} (h : db.record c p b = .error reason) :
    ¬ reason.IsUnreadable := by
  have hmap {ε ε' α : Type} {t : Except ε α} {f : ε → ε'} {e : ε'} (ht : t.mapError f = .error e) :
      ∃ x, e = f x := by
    cases t with
    | ok a => cases ht
    | error x => exact ⟨x, (Except.error.inj ht).symm⟩
  have hbind {ε α β : Type} {t : Except ε α} {f : α → Except ε β} {e : ε} (ht : t >>= f = .error e) :
      t = .error e ∨ ∃ a, t = .ok a ∧ f a = .error e := by
    cases t with
    | ok a => exact Or.inr ⟨a, rfl, ht⟩
    | error x =>
      cases ht
      exact Or.inl rfl
  rcases hbind h with h | ⟨members, -, h⟩
  · obtain ⟨x, rfl⟩ := hmap h
    nofun
  rcases hbind h with h | ⟨t, -, h⟩
  · obtain ⟨x, rfl⟩ := hmap h
    nofun
  rcases hbind h with h | ⟨_, -, h⟩
  · obtain ⟨⟨location, fault⟩, rfl⟩ := hmap h
    show (if fault.isMismatch then _ else _ : DocumentSkip.Class × Option String × String).1 ≠ _
    split <;> nofun
  · cases h

/-- A document that is left out of an update has its record taken away, unless its content could not
be read. -/
theorem change_of_skipped (h : (db.change c p old content).1 = .skipped reason) :
    (reason.IsUnreadable ∧ (db.change c p old content).2.2 = none) ∨
      (¬ reason.IsUnreadable ∧ (db.change c p old content).2.2 = some none) := by
  match content with
  | .error (.notFound _) =>
    rw [change] at h
    split at h <;> cases h
  | .error (.unusable _) | .error (.refused _) =>
    cases h
    exact Or.inl ⟨rfl, rfl⟩
  | .ok b =>
    rw [change] at h ⊢
    split at h
    · cases h
    · next hnew =>
      rw [if_neg hnew]
      cases hrecord : db.record c p b with
      | ok x =>
        rw [hrecord] at h
        cases h
      | error e =>
        rw [hrecord] at h
        cases h
        exact Or.inr ⟨not_isUnreadable_of_record hrecord, rfl⟩

end Database

/-! ### What runs have left -/

section Runs

variable {ι : Type} [DecidableEq ι] {runs : ι → Run} {trace : Trace ι}
  {w : World ι (Except IndexError Report)} {G : Graph} {g : Generation} {name p : String} {v : Bytes}

/-- A database of a compiled graph makes the record of a content that was told. -/
def Trace.Records (trace : Trace ι) (r : Record) : Prop :=
  ∃ (db : Database) (c : Graph.Collection), db.graph.IsCompiled ∧ c ∈ db.graph.collections ∧
    ∃ i content ws, db.record c r.path content = .ok (r, ws) ∧
      (i, ⟨.content r.path, .ok content⟩) ∈ trace

/-- What is stored under the key of a document is a record of the document that was made of a content
that a run was told, whatever databases of compiled graphs have shared the store. -/
theorem Store.exists_records_of_get? (hruns : ∀ i, (runs i).database.graph.IsCompiled)
    (run : Interleaving (fun i => (runs i).program) OrderedMap.empty trace w) (hname : ZeroFree name)
    (h : w.store.get? (Key.document g name p).encode = some v) :
    ∃ r : Record, v = r.toBytes ∧ r.collection = name ∧ r.path = p ∧ trace.Records r := by
  have hallow : ∀ x ∈ trace, Conditions.Allow ⟨False, fun _ r => trace.Records r⟩
      (runs x.1).database x.2 := by
    intro x hx
    obtain ⟨s, s', ha⟩ := run.exists_answers hx
    refine .of_answers ha (fun _ _ _ => False.elim) ?_
    rintro path content hcontent c hc - r ws hr
    obtain ⟨-, rfl, -⟩ := Database.eq_of_record hr
    exact ⟨_, c, hruns x.1, hc, x.1, content, ws, hr, hcontent ▸ hx⟩
  obtain ⟨stages, course⟩ := Run.course_of_allow run (fun _ => False.elim) hallow
  obtain ⟨x, hx, heffect⟩ := (eq_or_exists_of_written ((run.get?_eq _).symm.trans h)).resolve_left
    nofun
  obtain ⟨before, after, htrace⟩ := List.append_of_mem hx
  obtain ⟨_, stages', _, _, -, -, hstep⟩ := course.exists_of_append htrace
  obtain ⟨c, hc, r, n, hcollection, hrecords, hmem⟩ :=
    (Run.cases_of_put hstep (Key.starts_of_generationPrefix Key.generation_starts_document)
      heffect).resolve_right fun ⟨_, hkey, _⟩ => Key.document_ne_info_of hkey
  have hzero : ZeroFree r.collection := hcollection ▸ ((hruns x.1).names.1 c hc).1
  obtain ⟨hname', hpath, hv⟩ := Record.eq_of_mem_document hzero hname hmem
  exact ⟨r, hv, hname', hpath, hrecords⟩

/-- Runs leave records under the keys of their documents, if there is no zero in the paths of
contents. -/
theorem Store.filed_of_interleaving (hG : G.IsCompiled)
    (hruns : ∀ i, (runs i).database.graph.IsCompiled)
    (run : Interleaving (fun i => (runs i).program) OrderedMap.empty trace w)
    (hzero : ∀ i p b, (i, ⟨.content p, .ok b⟩) ∈ trace → ZeroFree p) : w.store.Filed g G := by
  intro c hc p r hr
  obtain ⟨v, hv, hread⟩ := Option.bind_eq_some_iff.mp hr
  obtain ⟨r₀, rfl, hname, rfl, db, d, hdb, hd, i, content, ws, hrecord, htold⟩ :=
    Store.exists_records_of_get? hruns run (hG.names.1 c hc).1 hv
  have hresembles := Record.resembles_of_ofBytes? hread (Database.ordered_of_record hdb hd hrecord)
  refine ⟨hresembles.collection.trans hname, hresembles.path, ?_, ?_, c, hc, ?_⟩
  · rw [hresembles.path]
    exact hzero i _ content htold
  · rw [hresembles.references]
    exact Database.fields_zeroFree_of_record hdb hd hrecord
  · rw [hresembles.collection, hname]

/-- What is stored as the information on a generation names it. -/
theorem Store.exists_info_of_interleaving
    (run : Interleaving (fun i => (runs i).program) OrderedMap.empty trace w)
    (h : w.store.get? (Key.info g).encode = some v) :
    ∃ i : GenerationInfo, v = i.toBytes ∧ i.generation = g := by
  obtain ⟨stages, course⟩ := Run.exists_course run
  have hempty (key : Bytes) : (OrderedMap.empty : Store).get? key ≠ some v := nofun
  obtain ⟨x, hx, heffect⟩ := (eq_or_exists_of_written ((run.get?_eq _).symm.trans h)).resolve_left
    (hempty _)
  obtain ⟨before, after, htrace⟩ := List.append_of_mem hx
  obtain ⟨_, stages', _, _, -, -, hstep⟩ := course.exists_of_append htrace
  rcases Run.cases_of_put hstep (Key.starts_of_generationPrefix Key.info_starts) heffect with
    henters | ⟨i, hkey, hv⟩
  · exact absurd rfl (henters.ne_info g)
  · have hinfo : Key.generationPrefix g <+: (Key.info i.generation).encode := hkey ▸ Key.info_starts
    exact ⟨i, hv, (Key.eq_of_generationPrefix hinfo Key.info_starts).symm⟩

/-- An update that gets to its paths works on a generation that is presented. -/
theorem Store.presents_of_updates {db : Database}
    (run : Interleaving (fun i => (runs i).program) OrderedMap.empty trace w)
    (hcount : (written trace Key.counter.encode).length < 2 ^ 64 - 1)
    (h : Update.Updates db w.store g) : w.store.Presents g db.graph := by
  obtain ⟨a, i, ha, hi, hversion, rfl⟩ := h
  have hreachable : w.store.Reachable := ⟨ι, inferInstance, runs, trace, w, run, hcount, rfl⟩
  have hactive := hreachable.numbered.active
  have hnumber : w.store.number? .active = some a := ha
  rw [hnumber] at hactive
  obtain ⟨v, hv, hread⟩ := Option.bind_eq_some_iff.mp hi
  obtain ⟨j, hbytes, hj⟩ := Store.exists_info_of_interleaving run hv
  rw [hbytes, GenerationInfo.ofBytes?_toBytes] at hread
  obtain rfl := Option.some.inj hread
  rw [hj]
  exact ⟨hactive, j, hbytes ▸ hv, hversion⟩

end Runs

/-! ### Rebuilds -/

namespace Rebuild

variable {db : Database} {view : View} {s s' : Store} {report : Report} {rounds : Nat}
  {p : String} {reason : DocumentSkip} {k : Bytes}

/-- **A rebuild writes nothing of a document that it leaves out**, and then a lookup does not find
it. -/
theorem get?_eq_none_of_skipped (hG : db.graph.IsCompiled) (hfree : s.NextFree)
    (hzero : ∀ p b, view.get p = .ok b → ZeroFree p)
    (hrun : (db.rebuild rounds).run.Completes view.Tells s (.ok report) s')
    (hskipped : (p, reason) ∈ report.skipped) (hp : ZeroFree p) :
    ∃ c, db.graph.owner? p = some c ∧ s'.Presents report.generation db.graph ∧
      ∀ k, Key.Owned report.generation c.name p k → s'.get? k = none := by
  obtain ⟨hadds, hsettled, ⟨active, -, -, hinfo⟩, hactive, -⟩ :=
    Failing.Brings.of_completes (brings_rebuild hG rounds hfree) hrun
  rw [hadds.skipped, List.nil_append] at hskipped
  obtain ⟨q, hq, hskip⟩ := List.mem_filterMap.mp hskipped
  obtain ⟨rfl, hdocument⟩ := View.skip?_eq_some_iff.mp hskip
  obtain ⟨⟨c, q⟩, hwork, rfl⟩ := List.mem_map.mp hq
  obtain ⟨howner, -⟩ := (View.mem_work_iff hG).mp hwork
  refine ⟨c, howner, ⟨hactive, _, hinfo, rfl⟩, fun k hk => ?_⟩
  rw [hsettled k hk.starts hk.ne_info, Graph.latest?_eq_none_iff]
  intro r hr v hmem
  obtain ⟨q', -, hrecord⟩ := List.mem_filterMap.mp hr
  obtain ⟨d, hd, b, ws, hget, hmade⟩ := View.record?_eq_some_iff.mp hrecord
  obtain ⟨hname, rfl, -⟩ := Database.eq_of_record hmade
  have hdmem := Graph.mem_of_owner? hd
  have hlocates : db.graph.Locates r :=
    ⟨hzero _ b hget, Database.fields_zeroFree_of_record hG hdmem hmade, d, hdmem, hname⟩
  have hc := Graph.mem_of_owner? howner
  obtain ⟨-, hpath⟩ := (Graph.owned_of_mem_entries hG hlocates hmem).unique (hlocates.zeroFree hG)
    (hG.names.1 c hc).1 hlocates.path hp hk
  -- so the document would have a record, too
  rw [← hpath, View.document?_eq hd, hget] at hdocument
  simp [hmade, Except.map] at hdocument

end Rebuild

/-! ### Updates -/

namespace Update

variable {db : Database} {told : Exchange → Prop} {g : Generation} {s s' : Store} {ps : List String}
  {os : List (String × Outcome)} {p : String} {reason : DocumentSkip}

/-- What an update leaves of a document that it leaves out: all of it if the content could not be
read, and otherwise what is no entry of the record that was stored. -/
theorem Walk.get?_eq_none_iff_of_skipped (hG : db.graph.IsCompiled)
    (hzero : ∀ p b, told ⟨.content p, .ok b⟩ → ZeroFree p) (hfiled : s.Filed g db.graph)
    (h : Walk db told g ps s os s') (hnodup : ps.Nodup) (hskipped : (p, .skipped reason) ∈ os)
    (hp : ZeroFree p) : ∃ c, db.graph.owner? p = some c ∧ ∀ k, Key.Owned g c.name p k →
      (s'.get? k = none ↔ s.get? k = none ∨ ¬ reason.IsUnreadable ∧
        k ∈ (db.graph.entriesOf g (s.record? g c.name p)).map (·.1)) := by
  obtain ⟨c, old, content, t, t', howner, htreats, hfiled', hout, hsame⟩ :=
    h.exists_treats hG hzero hfiled hnodup hskipped
  have hc := Graph.mem_of_owner? howner
  refine ⟨c, howner, fun k hk => ?_⟩
  obtain ⟨hbefore, hafter⟩ := hsame hp k hk
  rw [hafter]
  rcases Database.change_of_skipped hout.symm with ⟨hunreadable, hresult⟩ | ⟨hreadable, hresult⟩
  · rw [htreats.left, hresult, result, hbefore]
    simp [hunreadable]
  · have hold : old = s.record? g c.name p := by
      have hread := htreats.read
      rw [(hsame hp _ .document).1] at hread
      exact Store.eq_record?_of_ofStored? hread
    rw [htreats.get?_eq hG hzero hfiled' hc hresult, hbefore, hold]
    show (if _ then _ else _) = none ↔ _
    by_cases hmem : k ∈ (db.graph.entriesOf g (s.record? g c.name p)).map (·.1)
    · rw [if_pos hmem]
      exact iff_of_true rfl (Or.inr ⟨hreadable, hmem⟩)
    · rw [if_neg hmem]
      exact (or_iff_left fun h => hmem h.2).symm

/-- An update of a document whose content cannot be had leaves it out. -/
theorem completes_of_unreadable {v : View} {c : Graph.Collection} {e : SourceError}
    {old : Option Record} {i : GenerationInfo} (hlock : s.get? Key.lock.encode = none)
    (hactive : s.get? Key.active.encode = some g.toBytes)
    (hinfo : s.get? (Key.info g).encode = some i.toBytes) (hgeneration : i.generation = g)
    (hversion : i.graphVersion = db.graph.version) (howner : db.graph.owner? p = some c)
    (hread : Record.ofStored? (Key.document g c.name p).encode
      (s.get? (Key.document g c.name p).encode) = .ok old)
    (hget : v.get p = .error e) (he : ¬ e.IsAbsence) :
    (db.update [p]).run.Completes v.Tells s
      (.ok { generation := g, skipped := [(p, .unreadable e.message)] }) s := by
  have hupdateOnce : (db.updateOnce g c p).run.Completes v.Tells s
      (.ok (.skipped (.unreadable e.message), [])) s := by
    have hold : (liftM (Record.ofStored? (Key.document g c.name p).encode
        (s.get? (Key.document g c.name p).encode) : Storage _) :
          Failing IndexError _).run.Completes v.Tells s (.ok old) s := by
      rw [hread]
      exact .done _ _
    refine Failing.completes_bind
      (Failing.completes_storage (Storage.completes_get fun _ => trivial)) ?_
    refine Failing.completes_bind hold ?_
    refine .ask (.answers (.content p (.error e))) hget.symm ?_
    cases e with
    | notFound _ => exact absurd trivial he
    | unusable _ => exact .done _ _
    | refused _ => exact .done _ _
  have hupdatePath : (db.updatePath g c p).run.Completes v.Tells s
      (.ok (.skipped (.unreadable e.message), [])) s :=
    Program.Completes.bind (Program.Completes.bind hupdateOnce (.done _ _)) (.done _ _)
  refine completes_update (fun _ _ => trivial) hlock hactive hinfo hgeneration hversion ?_
  rw [show [p].eraseDups = [p] from rfl, Database.updateAll]
  refine .ask (r := false) (.answers (.cancelled _)) trivial ?_
  simp only [howner]
  exact Failing.completes_bind hupdatePath (.done _ _)

end Update

/-! ### Runs -/

namespace Run

variable {ι : Type} [DecidableEq ι] {runs : ι → Run} {trace : Trace ι}
  {w : World ι (Except IndexError Report)} {last : Run} {view : View} {s s' : Store}
  {report : Report} {p : String} {reason : DocumentSkip}

/-- What a run leaves under a key of a document that it has left out: a rebuild nothing, and an
update what was stored there if the content could not be read, or if it is no entry of the record
that was stored. -/
def Spares (last : Run) (s : Store) (g : Generation) (c : Graph.Collection) (p : String)
    (reason : DocumentSkip) (k : Bytes) : Prop :=
  match last with
  | rebuild _ _ => False
  | update db _ => s.get? k ≠ none ∧
      (reason.IsUnreadable ∨ k ∉ (db.graph.entriesOf g (s.record? g c.name p)).map (·.1))

/-- **What a run has left out is absent afterwards, or it was spared.** Let any runs of databases of
compiled graphs have left an index, and let another run succeed on it, which is served by storage
and by a source that is seen in one way. A document that its report has as left out belongs to a
collection, and nothing is stored under any of its keys, except for what the run has spared. If the
record itself was not spared, then a lookup does not find the document. -/
theorem absent_iff_not_spares (hG : last.database.graph.IsCompiled)
    (hruns : ∀ i, (runs i).database.graph.IsCompiled)
    (run : Interleaving (fun i => (runs i).program) OrderedMap.empty trace w)
    (hcount : (written trace Key.counter.encode).length < 2 ^ 64 - 1)
    (hpaths : ∀ i p b, (i, ⟨.content p, .ok b⟩) ∈ trace → ZeroFree p)
    (hzero : ∀ p b, view.get p = .ok b → ZeroFree p)
    (hlast : last.program.Completes view.Tells w.store (.ok report) s')
    (hskipped : (p, reason) ∈ report.skipped) (hp : ZeroFree p) :
    ∃ c, last.database.graph.owner? p = some c ∧
      (∀ k, Key.Owned report.generation c.name p k →
        (s'.get? k = none ↔ ¬ last.Spares w.store report.generation c p reason k)) ∧
      (¬ last.Spares w.store report.generation c p reason
          (Key.document report.generation c.name p).encode →
        ∀ (rounds : Nat) (host : Host), host.store = s' →
          Host.run (last.database.resolve rounds (Request.get c.name p .empty)).run host =
            (some (.error (.notFound c.name p)), host)) := by
  obtain ⟨c, howner, hpresents, hkeys⟩ : ∃ c, last.database.graph.owner? p = some c ∧
      s'.Presents report.generation last.database.graph ∧
      ∀ k, Key.Owned report.generation c.name p k →
        (s'.get? k = none ↔ ¬ last.Spares w.store report.generation c p reason k) := by
    cases last with
    | rebuild db rounds =>
      obtain ⟨c, howner, hpresents, hnone⟩ := Rebuild.get?_eq_none_of_skipped hG
        (Store.nextFree_of_interleaving run hcount) hzero hlast hskipped hp
      exact ⟨c, howner, hpresents, fun k hk => iff_of_true (hnone k hk) id⟩
    | update db paths =>
      obtain ⟨os, hupdates, hwalk, hcounts⟩ := Served.of_completes Update.follows_walk hlast
      have htold : ∀ p b, view.Tells ⟨.content p, .ok b⟩ → ZeroFree p :=
        fun p b h => hzero p b (Eq.symm h)
      have hfiled : w.store.Filed report.generation db.graph :=
        Store.filed_of_interleaving hG hruns run hpaths
      have hmem : (p, .skipped reason) ∈ os := by
        rw [hcounts.skipped] at hskipped
        obtain ⟨⟨q, o⟩, ho, heq⟩ := List.mem_filterMap.mp hskipped
        cases o with
        | skipped reason' =>
          cases heq
          exact ho
        | _ => cases heq
      obtain ⟨c, howner, hiff⟩ := hwalk.get?_eq_none_iff_of_skipped hG htold hfiled
        (nodup_eraseDups paths) hmem hp
      -- the pointer and the information belong to no document
      have hpresents := Store.presents_of_updates run hcount hupdates
      have hkept {k : Bytes} (hk : ∀ c p, ¬ Key.Owned report.generation c p k) :
          s'.get? k = w.store.get? k :=
        hwalk.get?_eq hG htold hfiled fun _ _ _ _ _ => hk _ _
      obtain ⟨i, hinfo, hversion⟩ := hpresents.info
      refine ⟨c, howner, ⟨?_, i, ?_, hversion⟩, fun k hk => ?_⟩
      · rw [hkept fun _ _ h => Key.not_starts_active (Key.starts_of_generationPrefix h.starts)]
        exact hpresents.active
      · rw [hkept fun _ _ h => h.ne_info rfl]
        exact hinfo
      · rw [hiff k hk, Spares, not_and_or, not_not, not_or, not_not]
        exact Iff.rfl
  refine ⟨c, howner, hkeys, fun hspared rounds host hstore => ?_⟩
  have hnone := (hkeys _ .document).mpr hspared
  rw [(last.database.reads_resolve rounds _).run_eq,
    Database.resolve_get hG (Graph.mem_of_owner? howner), hstore]
  exact congrArg (·, host) (Database.on_lookup_of_none hpresents hnone .empty)

/-! ### A directory in the place of a note -/

open Database.Upkeep (rebuiltStore rebuiltStore_succeeds)

/-- There is a directory at the path of the note. -/
def occupied : Source :=
  .directory ⟨.directory [("notes", .directory [("a.json", .directory [])])]⟩

/-- An index of a note is left, and then a directory is there in the place of the note. An update of
the path succeeds, and it has the document as left out. The record is still there. -/
theorem exists_occupied : ∃ (trace : Trace Unit) (w : World Unit (Except IndexError Report))
    (report : Report) (reason : DocumentSkip),
    Interleaving (fun _ => (rebuild notebook 4).program) OrderedMap.empty trace w ∧
      (written trace Key.counter.encode).length < 2 ^ 64 - 1 ∧
      (∀ i p b, (i, ⟨.content p, .ok b⟩) ∈ trace → ZeroFree p) ∧
      (update notebook ["notes/a.json"]).program.Completes occupied.view.Tells w.store (.ok report)
        w.store ∧
      ("notes/a.json", reason) ∈ report.skipped ∧ reason.IsUnreadable ∧
      w.store.get? (Key.document report.generation "notes" "notes/a.json").encode ≠ none := by
  obtain ⟨built, hrebuild⟩ := rebuiltStore_succeeds
  generalize rebuiltStore = s at hrebuild
  have hexact := Rebuild.exact_of_nextFree notebook_compiled Rebuild.noteFiles_legible
    Store.reachable_empty.nextFree hrebuild
  obtain ⟨trace, w, run, hcount, htold, rfl⟩ :=
    Database.exists_interleaving_of_succeeds notebook_compiled hrebuild
  -- the record of the note is stored
  have hrecorded : (notebook.recorded? Rebuild.noteFiles "notes/a.json").isSome := by
    decide +kernel
  obtain ⟨r, hr⟩ := Option.isSome_iff_exists.mp hrecorded
  obtain ⟨c, hdocument⟩ := Database.recorded?_eq_some_iff.mp hr
  obtain ⟨howner, -⟩ := Database.document?_eq_ok_iff.mp hdocument
  obtain rfl := Option.some.inj (Database.Fleeting.noteOwner.symm.trans howner)
  have hstored := hexact.get?_document hdocument
  have hread : Record.ofStored? (Key.document built.generation notes.name "notes/a.json").encode
      (w.store.get? (Key.document built.generation notes.name "notes/a.json").encode) =
        .ok (some r) := by
    rw [hstored, Record.ofStored?, Rebuild.noteFiles_legible.reads _ notes r hdocument]
  obtain ⟨previous, -, -, hentries⟩ := hexact.entries
  have hinfo := (hentries _ _ Key.info_starts).mpr (Or.inl ⟨rfl, rfl⟩)
  have hupdate := Update.completes_of_unreadable (v := occupied.view)
    (e := .unusable "notes/a.json") hexact.lock hexact.active hinfo rfl rfl howner hread rfl id
  refine ⟨trace, w, _, _, run, hcount, fun i p b hmem => ?_, hupdate, List.mem_singleton_self _,
    rfl, fun hnone => ?_⟩
  · have hget : Rebuild.noteFiles.get p = .ok b := (htold _ hmem).symm
    exact Rebuild.noteFiles_legible.paths p
      (Source.Files.mem_keys_of_get? (Source.view_get_files.mp hget))
  · cases hstored.symm.trans hnone

/-- The theorem says what the update leaves of the note. -/
theorem absent_iff_not_spares_notebook : ∃ (trace : Trace Unit)
    (w : World Unit (Except IndexError Report)) (report : Report) (reason : DocumentSkip),
    Interleaving (fun _ => (rebuild notebook 4).program) OrderedMap.empty trace w ∧
      (update notebook ["notes/a.json"]).program.Completes occupied.view.Tells w.store (.ok report)
        w.store ∧
      ("notes/a.json", reason) ∈ report.skipped ∧
      ∃ c, notebook.graph.owner? "notes/a.json" = some c ∧
        ∀ k, Key.Owned report.generation c.name "notes/a.json" k →
          (w.store.get? k = none ↔ ¬ (update notebook ["notes/a.json"]).Spares w.store
            report.generation c "notes/a.json" reason k) := by
  obtain ⟨trace, w, report, reason, run, hcount, hpaths, hupdate, hskipped, -, -⟩ := exists_occupied
  have hzero : ∀ p b, occupied.view.get p = .ok b → ZeroFree p :=
    fun p b hget => Directory.zeroFree_of_get hget
  have hcompiled : (update notebook ["notes/a.json"]).database.graph.IsCompiled := notebook_compiled
  have hruns : ∀ i : Unit, ((fun _ => rebuild notebook 4) i).database.graph.IsCompiled :=
    fun _ => notebook_compiled
  obtain ⟨c, howner, hkeys, -⟩ := absent_iff_not_spares hcompiled hruns run hcount hpaths hzero
    hupdate hskipped (by decide)
  exact ⟨trace, w, report, reason, run, hupdate, hskipped, c, howner, hkeys⟩

/-- **What a run has left out may be in the index afterwards.** -/
theorem exists_spared : ¬ ∀ (trace : Trace Unit) (w : World Unit (Except IndexError Report))
    (first last : Run) (source : Source) (report : Report) (s' : Store) (p : String)
    (reason : DocumentSkip) (c : Graph.Collection),
    Interleaving (fun _ => first.program) OrderedMap.empty trace w →
      last.program.Completes source.view.Tells w.store (.ok report) s' →
      (p, reason) ∈ report.skipped → last.database.graph.owner? p = some c →
      s'.get? (Key.document report.generation c.name p).encode = none := by
  intro h
  obtain ⟨trace, w, report, reason, run, -, -, hupdate, hskipped, -, hstored⟩ := exists_occupied
  exact hstored (h trace w _ _ occupied report w.store "notes/a.json" reason notes run hupdate hskipped
    Database.Fleeting.noteOwner)

end Run

end ContentIndex
