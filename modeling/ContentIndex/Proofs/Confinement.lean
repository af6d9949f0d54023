import ContentIndex.Proofs.Walks

/-!
# Updates are confined to their paths

The active generation holds the entries of records, and an update is run on it that succeeds or
fails in any way: it may be told to stop between two paths, the lock may be held, storage may fail
or refuse a batch, a record may be unreadable. Whatever happens, all that does not belong to the
documents of the paths is as it was before, and each of these documents has either all that it had
before or the entries of one record.

## Main definitions

* `Store.HoldsExactly`: a generation holds the entries of records that are read back
* `Update.Confined`: what an update of paths may do to a store

## Main results

* `Update.Walk.confined`: walks through paths are confined to them
* `Update.confined_of_completes`: **an update is confined to its paths**, whether it succeeds or not
-/

namespace ContentIndex

open Text (ZeroFree)

/-- Apart from its information, a generation holds the entries of the records and nothing else. They
are of different documents of the graph, and what is read of one of them is that record. -/
structure Store.HoldsExactly (s : Store) (g : Generation) (G : Graph) (D : Set Record) : Prop where
  /-- It holds the entries. -/
  holds : s.Holds g G D
  /-- The records are of the graph, and there is no zero in their paths. -/
  locates : ∀ r ∈ D, G.Locates r
  /-- They are of different documents. -/
  unique : ∀ r ∈ D, ∀ r' ∈ D, r.collection = r'.collection → r.path = r'.path → r = r'
  /-- What is read of them is what they are. -/
  reads : ∀ r ∈ D, ∀ r' ∈ Record.ofBytes? r.toBytes, r' = r

namespace Store

variable {s : Store} {g : Generation} {G : Graph} {D : Set Record} {c : Graph.Collection}
  {p : String} {r : Record} {k v : Bytes}

/-- A consistent generation holds the entries of its records, if these are of the graph. -/
theorem Consistent.holdsExactly (hG : G.IsCompiled) (h : s.Consistent g G)
    (hlocates : ∀ c p, ∀ r ∈ s.record? g c p, G.Locates r) :
    s.HoldsExactly g G {r | ∃ c p, s.record? g c p = some r} := by
  have hown {c p : String} {r : Record} (hr : s.record? g c p = some r) :
      r.collection = c ∧ r.path = p := by
    obtain ⟨v, hv, hread⟩ := Option.bind_eq_some_iff.mp hr
    obtain ⟨r', hr', hc, hp⟩ := h.documents c p v hv
    obtain rfl := Option.some.inj (hread.symm.trans hr')
    exact ⟨hc, hp⟩
  refine ⟨h.entries, ?_, ?_, ?_⟩
  · rintro r ⟨c, p, hr⟩
    exact hlocates c p r hr
  · rintro r ⟨c, p, hr⟩ r' ⟨c', p', hr'⟩ hcs hps
    obtain ⟨rfl, rfl⟩ := hown hr
    obtain ⟨rfl, rfl⟩ := hown hr'
    rw [hcs, hps] at hr
    exact Option.some.inj (hr.symm.trans hr')
  · rintro r ⟨c, p, hr⟩ r' hr'
    obtain ⟨rfl, rfl⟩ := hown hr
    obtain ⟨v, hv, hread⟩ := Option.bind_eq_some_iff.mp hr
    have hstored : s.get? (r.key g) = some r.toBytes :=
      (h.entries _ _ (document_starts _ _) (document_ne_info _ _)).mpr
        ⟨r, ⟨_, _, hr⟩, Graph.mem_entries_key hG (hlocates _ _ r hr)⟩
    obtain rfl := Option.some.inj (hv.symm.trans hstored)
    exact Option.some.inj (hr'.symm.trans hread)

namespace HoldsExactly

variable (hG : G.IsCompiled) (h : s.HoldsExactly g G D)
include hG h

/-- What is stored under the key of a document is one of the records. -/
theorem exists_of_document (hv : s.get? (Key.document g c.name p).encode = some v) :
    ∃ r ∈ D, r.collection = c.name ∧ r.path = p ∧ v = r.toBytes := by
  obtain ⟨r, hr, hmem⟩ := (h.holds _ v (document_starts _ _) (document_ne_info _ _)).mp hv
  obtain ⟨hc, hp, hbytes⟩ := eq_of_document hG (h.locates r hr) hmem
  exact ⟨r, hr, hc, hp, hbytes⟩

theorem filed : s.Filed g G := by
  intro c _ p r hr
  obtain ⟨v, hv, hread⟩ := Option.bind_eq_some_iff.mp hr
  obtain ⟨r', hr', hc, hp, rfl⟩ := h.exists_of_document hG hv
  obtain rfl := h.reads r' hr' r hread
  exact ⟨hc, hp, h.locates r hr'⟩

/-- What is stored under a key of a document is an entry of the record that is read of it. -/
theorem mem_entriesOf {old : Option Record} (hc : c ∈ G.collections) (hp : ZeroFree p)
    (hk : Key.Owned g c.name p k) (hv : s.get? k = some v)
    (hold : Record.ofStored? (Key.document g c.name p).encode
      (s.get? (Key.document g c.name p).encode) = .ok old) : (k, v) ∈ G.entriesOf g old := by
  obtain ⟨r, hr, hmem⟩ := (h.holds k v hk.starts hk.ne_info).mp hv
  have hlocates := h.locates r hr
  obtain ⟨hname, rfl⟩ := (Graph.owned_of_mem_entries hG hlocates hmem).unique
    (hlocates.zeroFree hG) (hG.names.1 c hc).1 hlocates.path hp hk
  have hstored : s.get? (Key.document g c.name r.path).encode = some r.toBytes := by
    rw [← hname]
    exact (h.holds _ _ (document_starts _ _) (document_ne_info _ _)).mpr
      ⟨r, hr, Graph.mem_entries_key hG hlocates⟩
  rw [hstored, Record.ofStored?] at hold
  split at hold
  · next r' hr' =>
    cases hold
    obtain rfl := h.reads r hr r' hr'
    exact Graph.mem_entriesOf.mpr ⟨r', rfl, hmem⟩
  · cases hold

end HoldsExactly

end Store

namespace Update

variable {db : Database} {told : Exchange → Prop} {g : Generation} {ps : List String}
  {os : List (String × Outcome)} {D : Set Record} {s s' : Store}

/-- What an update of the paths may do to the generation: nothing to what belongs to no document of
the paths, and to such a document nothing or else a replacement of all that it has. -/
structure Confined (db : Database) (told : Exchange → Prop) (g : Generation) (ps : List String)
    (s s' : Store) : Prop where
  /-- Nothing changes outside of the generation: neither in other generations nor in what is stored
  outside of all generations. -/
  outside : ∀ k, ¬ Key.generationPrefix g <+: k → s'.get? k = s.get? k
  /-- The information on the generation does not change. -/
  info : s'.get? (Key.info g).encode = s.get? (Key.info g).encode
  /-- What belongs to other documents does not change. -/
  others : ∀ c ∈ db.graph.collections, ∀ p, ZeroFree p → p ∉ ps →
    ∀ k, Key.Owned g c.name p k → s'.get? k = s.get? k
  /-- What belongs to a document of the paths does not change, or it is replaced by the entries of
  the record of a content that was told, or by nothing. -/
  whole : ∀ c ∈ db.graph.collections, ∀ p ∈ ps, ZeroFree p →
    (∀ k, Key.Owned g c.name p k → s'.get? k = s.get? k) ∨
      ∃ new : Option Record, (∀ r ∈ new, ∃ content ws, told ⟨.content p, .ok content⟩ ∧
        db.record c p content = .ok (r, ws)) ∧
      ∀ k v, Key.Owned g c.name p k → (s'.get? k = some v ↔ (k, v) ∈ db.graph.entriesOf g new)

/-- Who changes nothing is confined to any paths. -/
theorem Confined.refl (s : Store) : Confined db told g ps s s :=
  ⟨fun _ _ => rfl, rfl, fun _ _ _ _ _ _ _ => rfl, fun _ _ _ _ _ => Or.inl fun _ _ => rfl⟩

/-- Who is confined to some paths is confined to more of them. -/
theorem Confined.mono {qs : List String} (h : Confined db told g ps s s')
    (hqs : ∀ p ∈ ps, p ∈ qs) : Confined db told g qs s s' := by
  refine ⟨h.outside, h.info, fun c hc p hp hnot => h.others c hc p hp fun hmem => hnot (hqs p hmem),
    fun c hc p _ hzero => ?_⟩
  by_cases hp : p ∈ ps
  · exact h.whole c hc p hp hzero
  · exact Or.inl (h.others c hc p hzero hp)

/-- **A walk through paths is confined to them**, if each of them is there once. -/
theorem Walk.confined (hG : db.graph.IsCompiled)
    (hzero : ∀ p b, told ⟨.content p, .ok b⟩ → ZeroFree p) (hexact : s.HoldsExactly g db.graph D)
    (hnodup : ps.Nodup) (h : Walk db told g ps s os s') : Confined db told g ps s s' := by
  have hfiled := hexact.filed hG
  -- a key of a document is kept if the document is of no path, or of a collection that is no owner
  have hkept {c : Graph.Collection} (hc : c ∈ db.graph.collections) {p : String} (hp : ZeroFree p)
      (howner : p ∈ ps → db.graph.owner? p ≠ some c) {k : Bytes} (hk : Key.Owned g c.name p k) :
      s'.get? k = s.get? k := by
    refine h.get?_eq hG hzero hfiled fun q hq d hd hqzero hk' => ?_
    have hdmem := Graph.mem_of_owner? hd
    obtain ⟨hname, rfl⟩ := hk.unique (hG.names.1 c hc).1 (hG.names.1 d hdmem).1 hp hqzero hk'
    obtain rfl := List.inj_on_of_nodup_map hG.names.2 hc hdmem hname
    exact howner hq hd
  constructor
  · intro k hk
    exact h.get?_eq hG hzero hfiled fun _ _ _ _ _ howned => hk howned.starts
  · exact h.get?_eq hG hzero hfiled fun _ _ _ _ _ howned => howned.ne_info rfl
  · exact fun c hc p hp hnot k hk => hkept hc hp (fun hmem => absurd hmem hnot) hk
  · intro c hc p hp hpzero
    by_cases howner : db.graph.owner? p = some c
    · obtain ⟨o, ho⟩ := h.exists_mem hp howner
      obtain ⟨d, old, content, t, t', hd, htreats, htfiled, -, hsame⟩ :=
        h.exists_treats hG hzero hfiled hnodup ho
      obtain rfl := Option.some.inj (howner.symm.trans hd)
      replace hsame := hsame hpzero
      cases hresult : (db.change c p old content).2.2 with
      | none =>
        refine Or.inl fun k hk => ?_
        rw [(hsame k hk).2, htreats.left, hresult, result, (hsame k hk).1]
      | some new =>
        refine Or.inr ⟨new, fun r hr => ?_, fun k v hk => ?_⟩
        · obtain ⟨b, ws, rfl, hrecord⟩ := exists_of_change hresult r hr
          exact ⟨b, ws, htreats.told, hrecord⟩
        · -- all that was stored of the document is an entry of the record that was read
          have hgone : (if k ∈ (db.graph.entriesOf g old).map (·.1) then none else t.get? k) =
              none := by
            split
            · rfl
            · next hnot =>
              refine Option.eq_none_iff_forall_ne_some.mpr fun w hw => hnot ?_
              have hread := htreats.read
              rw [(hsame _ .document).1] at hread
              rw [(hsame k hk).1] at hw
              exact List.mem_map_of_mem (hexact.mem_entriesOf hG hc hpzero hk hw hread)
          rw [(hsame k hk).2, htreats.get?_eq hG hzero htfiled hc hresult, hgone, Option.or_none]
          exact Entries.find?_eq_some_iff (db.graph.sorted_entriesOf g new)
    · exact Or.inl fun k hk => hkept hc hpzero (fun _ => howner) hk

/-- **An update is confined to its paths, whether it succeeds or not.** Let the active generation have
its information, and let it hold the entries of records if it was built with the graph of the
database. Whatever an update of paths is told, and whatever storage does, in the end nothing has
changed outside of the generation, nor in its information, nor in what belongs to documents of other
paths. What belongs to a document of the paths is as it was before, or it is replaced as a whole by
the entries of one record or by nothing. -/
theorem confined_of_completes (hG : db.graph.IsCompiled)
    (hzero : ∀ p b, told ⟨.content p, .ok b⟩ → ZeroFree p)
    (hactive : s.get? Key.active.encode = some g.toBytes) {i : GenerationInfo}
    (hinfo : s.get? (Key.info g).encode = some i.toBytes) (hi : i.generation = g)
    (hexact : i.graphVersion = db.graph.version → s.HoldsExactly g db.graph D)
    {paths : List String} {outcome : Except IndexError Report}
    (hrun : (db.update paths).run.Completes told s outcome s') :
    Confined db told g paths s s' := by
  have hpaths : ∀ p ∈ paths.eraseDups, p ∈ paths := fun p hp => List.mem_eraseDups.mp hp
  have hgeneration {n : Generation} (hn : Updates db s n) :
      n = g ∧ i.graphVersion = db.graph.version := by
    obtain ⟨a, j, ha, hj, hversion, rfl⟩ := hn
    rw [hactive, Option.bind_some, Generation.parse?_toBytes] at ha
    obtain rfl := Option.some.inj ha
    rw [hinfo, Option.bind_some, GenerationInfo.ofBytes?_toBytes] at hj
    obtain rfl := Option.some.inj hj
    exact ⟨hi, hversion⟩
  have hwalk {n : Generation} {walked : List String} {os : List (String × Outcome)}
      (hn : Updates db s n) (hwalked : walked <+: paths.eraseDups)
      (h : Walk db told n walked s os s') : Confined db told g paths s s' := by
    obtain ⟨rfl, hversion⟩ := hgeneration hn
    exact (h.confined hG hzero (hexact hversion) ((nodup_eraseDups paths).sublist hwalked.sublist)).mono
      fun p hp => hpaths p (hwalked.subset hp)
  cases outcome with
  | ok report =>
    obtain ⟨os, hn, h, -⟩ := Served.of_completes follows_walk hrun
    exact hwalk hn (List.prefix_refl _) h
  | error e =>
    rcases Served.of_completes follows_walk hrun with rfl | ⟨n, walked, os, hn, hwalked, h⟩
    · exact .refl s'
    · exact hwalk hn hwalked h

/-! ### A second note -/

open Database.Upkeep (laterFiles rebuiltStore updatedStore)

/-- An index that is kept up holds the entries of its records. -/
theorem holdsExactly_of_kept {U : Set Bytes} {fs : Source.Files} {stale : Set String}
    (h : Database.Kept db U fs stale g D s) : s.HoldsExactly g db.graph D :=
  ⟨h.holds, fun r hr => (h.library.admits r hr).locates, h.library.unique, fun r hr _ hr' =>
    Option.some.inj (hr'.symm.trans (h.library.admits r hr).reads)⟩

/-- The update of the second note writes it, and it leaves the first one alone. -/
theorem confined_of_completes_notebook :
    updatedStore.get? (Key.document 1 "notes" "notes/b.json").encode ≠
        rebuiltStore.get? (Key.document 1 "notes" "notes/b.json").encode ∧
      (∃ report, (notebook.update ["notes/b.json"]).run.Completes
        (Source.files laterFiles).view.Tells rebuiltStore (.ok report) updatedStore) ∧
      Confined notebook (Source.files laterFiles).view.Tells 1 ["notes/b.json"] rebuiltStore
        updatedStore := by
  obtain ⟨report, hupdate⟩ := Database.Upkeep.updatedStore_succeeds
  obtain ⟨built, hrebuild⟩ := Database.Upkeep.rebuiltStore_succeeds
  obtain ⟨g, D, hkept⟩ := Database.exists_kept_of_rebuild (U := Set.univ) notebook_compiled
    Rebuild.noteFiles_legible (fun _ _ _ => trivial) Store.reachable_empty hrebuild
  obtain ⟨-, hone, -⟩ := Database.Upkeep.runs
  obtain rfl : g = 1 := Generation.toBytes_injective (Option.some.inj (hkept.active.symm.trans hone))
  obtain ⟨i, hinfo, hi⟩ := hkept.info
  have hzero : ∀ p b, (Source.files laterFiles).view.Tells ⟨.content p, .ok b⟩ → ZeroFree p := by
    intro p b htells
    have hget : (Source.files laterFiles).view.get p = .ok b := htells.symm
    exact Database.Upkeep.laterFiles_legible.paths p
      (Source.Files.mem_keys_of_get? (Source.view_get_files.mp hget))
  exact ⟨by decide +kernel, ⟨report, hupdate.completes⟩, confined_of_completes notebook_compiled
    hzero hkept.active hinfo hi (fun _ => holdsExactly_of_kept hkept) hupdate.completes⟩

end Update

end ContentIndex
