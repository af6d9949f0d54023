import ContentIndex.Proofs.LeftOut
import ContentIndex.Proofs.Places

/-!
# Updates of paths that are written in other ways

A rebuild works through the paths that the source lists. An update works through paths that it is
given, and a tree of directories finds a file at every path that leads to it. So an update may index
a document under a path that the source does not list.

## Main definitions

* `Source.place`, `Source.listedAs`: where a path leads, and the path of the listing for it
* `Source.Strays`: the path leads to a document, and is no path of a listing

## Main results

* `Source.exists_list_of_get`: what a source has at a path is listed, under its own path
* `Rebuild.get?_document_iff`: what a rebuild has written of a document
* `Update.listed_iff_not_strays`: **what an update has indexed is listed, or its path strays**
-/

namespace ContentIndex

open Text (ZeroFree)

/-! ### What sources list -/

/-- The path of a collection's document goes on from that of the collection. -/
theorem Graph.Collection.exists_eq_of_containsPath {c : Graph.Collection} {p : String}
    (h : c.containsPath p) : ∃ rest, p = c.path ++ "/" ++ rest := by
  unfold containsPath at h
  split at h
  · cases h
  · next rest hrest =>
    simp only [below?] at hrest
    split at hrest
    · next hdir =>
      rw [Bool.and_eq_true, List.isPrefixOf_iff_prefix] at hdir
      obtain ⟨rest, hrest⟩ := hdir.1
      refine ⟨String.ofList rest, String.toList_injective ?_⟩
      simpa using hrest.symm
    · cases hrest

namespace Source

/-- Where a path leads: two paths that lead to the same place lead to the same document. -/
def place : Source → String → List String
  | files _, path => [path]
  | directory _, path => Directory.namesOf path

/-- The path under which the source lists the document that a path leads to. -/
def listedAs : Source → String → String → String
  | files _, _, path => path
  | directory _, dir, path => Directory.listedAs dir path

/-- The path is written in another way than the one that is listed, and no other document is listed
under it, as a document with a backslash in its name might be. -/
def Strays : Source → String → String → Prop
  | files _, _, _ => False
  | directory d, dir, path => Directory.listedAs dir path ≠ path ∧
      ∀ names, d.Lists dir path names → Directory.namesOf path = Directory.namesOf dir ++ names

variable {source : Source} {dir rest p q : String} {b : Bytes}

/-- Paths that lead to the same place are listed as one. -/
theorem listedAs_congr (h : source.place p = source.place q) :
    source.listedAs dir p = source.listedAs dir q := by
  cases source with
  | files fs => exact List.singleton_inj.mp h
  | directory d =>
    rw [listedAs, listedAs, Directory.listedAs, Directory.listedAs,
      show Directory.namesOf p = Directory.namesOf q from h]

/-- **What a source has at a path is listed under its own path**, and under the path itself unless
that strays. -/
theorem exists_list_of_get (h : source.get (dir ++ "/" ++ rest) = .ok b) : ∃ listed,
    source.list dir = .ok listed ∧ source.listedAs dir (dir ++ "/" ++ rest) ∈ listed ∧
      (dir ++ "/" ++ rest ∈ listed ↔ ¬ source.Strays dir (dir ++ "/" ++ rest)) := by
  cases source with
  | files fs =>
    have hget : fs.get? (dir ++ "/" ++ rest) = some b := view_get_files.mp h
    have hmem : dir ++ "/" ++ rest ∈ fs.list dir := by
      refine List.mem_filter.mpr ⟨Files.mem_keys_of_get? hget, isBelow_of_prefix ⟨rest.toList, ?_⟩⟩
      simp
    exact ⟨_, rfl, hmem, iff_of_true hmem id⟩
  | directory d =>
    obtain ⟨listed, hlist, hown, hmem⟩ := Directory.exists_list_of_get h
    refine ⟨listed, hlist, hown, ?_⟩
    generalize dir ++ "/" ++ rest = path at hown
    constructor
    · rintro hpath ⟨hne, hnone⟩
      obtain ⟨names, hlists⟩ := (hmem path).mp hpath
      have hown := hnone names hlists
      obtain ⟨-, -, -, heq⟩ := hlists
      refine hne ?_
      rw [Directory.listedAs, hown, List.drop_left, ← heq]
    · intro hstrays
      by_contra hnot
      refine hstrays ⟨fun heq => hnot (heq ▸ hown), fun names hlists => ?_⟩
      exact absurd ((hmem path).mpr ⟨names, hlists⟩) hnot

end Source

/-! ### Rebuilds of what is listed -/

namespace Rebuild

open Source (View)

variable {db : Database} {v : View} {s s' : Store} {report : Report} {rounds : Nat}
  {c : Graph.Collection} {p : String} {b : Bytes}

/-- What a rebuild has written into its generation is an entry of the record of a document that the
source lists. -/
theorem exists_mem_entries_of_get? {k : Bytes} (hG : db.graph.IsCompiled) (hfree : s.NextFree)
    (hrun : (db.rebuild rounds).run.Completes v.Tells s (.ok report) s')
    (hk : Key.generationPrefix report.generation <+: k)
    (hinfo : k ≠ (Key.info report.generation).encode) (hb : s'.get? k = some b) :
    ∃ c p r listed, db.graph.owner? p = some c ∧ v.list c.path = .ok listed ∧ p ∈ listed ∧
      v.record? db p = some r ∧ r.collection = c.name ∧ r.path = p ∧
      (k, b) ∈ r.entries report.generation c := by
  obtain ⟨-, hsettled, -⟩ := Failing.Brings.of_completes (brings_rebuild hG rounds hfree) hrun
  rw [hsettled k hk hinfo] at hb
  obtain ⟨before, r, after, hrs, hmem, -⟩ := Graph.exists_of_latest? hb
  have hr : r ∈ v.records db := hrs ▸ List.mem_append_right _ (List.mem_cons_self ..)
  obtain ⟨p, hp, hrecord⟩ := List.mem_filterMap.mp hr
  obtain ⟨⟨c, p⟩, hwork, rfl⟩ := List.mem_map.mp hp
  obtain ⟨howner, listed, hlist, hlisted⟩ := (View.mem_work_iff hG).mp hwork
  obtain ⟨c', howner', content, ws, -, hmade⟩ := View.record?_eq_some_iff.mp hrecord
  obtain rfl := Option.some.inj (howner.symm.trans howner')
  obtain ⟨hname, hpath, -⟩ := Database.eq_of_record hmade
  rw [Graph.entries_eq hG (Graph.mem_of_owner? howner) hname] at hmem
  exact ⟨c, p, r, listed, howner, hlist, hlisted, hrecord, hname, hpath, hmem⟩

/-- **What a rebuild has written of a document** is its record, if a collection owns the document and
the source lists it for the collection. -/
theorem get?_document_iff (hG : db.graph.IsCompiled) (hfree : s.NextFree)
    (hrun : (db.rebuild rounds).run.Completes v.Tells s (.ok report) s')
    (hc : c ∈ db.graph.collections) :
    s'.get? (Key.document report.generation c.name p).encode = some b ↔
      db.graph.owner? p = some c ∧ ∃ r listed, b = r.toBytes ∧ v.record? db p = some r ∧
        v.list c.path = .ok listed ∧ p ∈ listed := by
  have hstored {b : Bytes}
      (hb : s'.get? (Key.document report.generation c.name p).encode = some b) :
      db.graph.owner? p = some c ∧ ∃ r listed, b = r.toBytes ∧ v.record? db p = some r ∧
        v.list c.path = .ok listed ∧ p ∈ listed := by
    obtain ⟨d, q, r, listed, howner, hlist, hlisted, hrecord, hname, hpath, hmem⟩ :=
      exists_mem_entries_of_get? hG hfree hrun Key.generation_starts_document
        Key.document_ne_info_of hb
    have hd := Graph.mem_of_owner? howner
    have hzero : ZeroFree r.collection := hname ▸ (hG.names.1 d hd).1
    obtain ⟨hcollection, rfl, rfl⟩ := Record.eq_of_mem_document hzero (hG.names.1 c hc).1 hmem
    have hsame := hG.collection?_eq hd
    rw [← hname, hcollection, hG.collection?_eq hc] at hsame
    obtain rfl := Option.some.inj hsame
    obtain rfl := hpath
    exact ⟨howner, r, listed, rfl, hrecord, hlist, hlisted⟩
  refine ⟨hstored, ?_⟩
  rintro ⟨howner, r, listed, rfl, hrecord, hlist, hlisted⟩
  have hr : r ∈ v.records db :=
    List.mem_filterMap.mpr ⟨p, List.mem_map.mpr ⟨(c, p),
      (View.mem_work_iff hG).mpr ⟨howner, listed, hlist, hlisted⟩, rfl⟩, hrecord⟩
  obtain ⟨d, hd, content, ws, -, hmade⟩ := View.record?_eq_some_iff.mp hrecord
  obtain rfl := Option.some.inj (howner.symm.trans hd)
  obtain ⟨hname, hpath, -⟩ := Database.eq_of_record hmade
  have hmem : ((Key.document report.generation c.name p).encode, r.toBytes) ∈
      db.graph.entries report.generation r := by
    rw [Graph.entries_eq hG hc hname, ← hname, ← hpath,
      ← Entries.find?_eq_some_iff (r.sorted_entries _ c)]
    exact r.find?_document _ c
  cases hb : s'.get? (Key.document report.generation c.name p).encode with
  | none =>
    obtain ⟨-, hsettled, -⟩ := Failing.Brings.of_completes (brings_rebuild hG rounds hfree) hrun
    rw [hsettled _ Key.generation_starts_document Key.document_ne_info_of] at hb
    exact absurd hmem (Graph.latest?_eq_none_iff.mp hb r hr _)
  | some b =>
    obtain ⟨-, r', -, rfl, hrecord', -⟩ := hstored hb
    rw [Option.some.inj (hrecord.symm.trans hrecord')]

end Rebuild

/-! ### Updates of what is found -/

namespace Update

variable {db : Database} {told : Exchange → Prop} {source : Source} {g : Generation}
  {c : Graph.Collection} {paths : List String} {os : List (String × Outcome)} {p : String}
  {s s' : Store} {report : Report}

/-- A document that is indexed has a content that makes a record. -/
theorem exists_of_change_indexed {old : Option Record} {content : Except SourceError Bytes}
    (h : (db.change c p old content).1 = .indexed) :
    ∃ b r ws, content = .ok b ∧ db.record c p b = .ok (r, ws) := by
  unfold Database.change at h
  split at h
  · split at h <;> cases h
  · cases h
  · next b =>
    split at h
    · cases h
    · split at h
      · next r ws hr => exact ⟨b, r, ws, rfl, hr⟩
      · cases h

/-- What is indexed is the record of a content that was told. -/
theorem Walk.exists_record {ps : List String} (h : Walk db told g ps s os s')
    (ho : (p, .indexed) ∈ os) : ∃ c content r ws, db.graph.owner? p = some c ∧
      told ⟨.content p, .ok content⟩ ∧ db.record c p content = .ok (r, ws) := by
  induction h with
  | done s => cases ho
  | unowned _ _ ih => exact ih ho
  | @treated q ps os c old content s s' s'' howner htreats _ ih =>
    rcases List.mem_cons.mp ho with heq | ho
    · obtain ⟨rfl, hout⟩ := Prod.mk.inj heq
      obtain ⟨b, r, ws, rfl, hrecord⟩ := exists_of_change_indexed hout.symm
      exact ⟨c, b, r, ws, howner, htreats.told, hrecord⟩
    · exact ih ho

/-- What there is to say of a document that was indexed at a path. -/
structure Places (db : Database) (source : Source) (c : Graph.Collection) (p : String) (r : Record) :
    Prop where
  /-- The collection owns the path. -/
  owner : db.graph.owner? p = some c
  /-- The record is that of the content at the path. -/
  made : ∃ content ws, source.get p = .ok content ∧ db.record c p content = .ok (r, ws)
  /-- The source lists the document for the collection, and it lists it at this path unless the path
  strays. -/
  listed : ∃ listed, source.list c.path = .ok listed ∧ source.listedAs c.path p ∈ listed ∧
    (p ∈ listed ↔ ¬ source.Strays c.path p)
  /-- Unless the path strays, a rebuild from the source writes the record there, too. Otherwise it
  writes nothing there. -/
  rebuilt : ∀ {s s' : Store} {rounds : Nat} {report : Report}, s.NextFree →
    (db.rebuild rounds).run.Completes source.view.Tells s (.ok report) s' → ∀ b,
      (s'.get? (Key.document report.generation c.name p).encode = some b ↔
        ¬ source.Strays c.path p ∧ b = r.toBytes)

/-- **What an update has indexed is listed, or its path strays.** An update succeeds that is served by
storage and by a source. Then each document that it has indexed is listed by the source. It is
listed at the path where it was indexed, and a rebuild writes the same record there, if and only if
the path does not stray. Of the paths of one document that are its own only one is indexed for a
collection. -/
theorem listed_iff_not_strays (hG : db.graph.IsCompiled)
    (hrun : (db.update paths).run.Completes source.view.Tells s (.ok report) s') :
    ∃ os, Updates db s report.generation ∧
      Walk db source.view.Tells report.generation paths.eraseDups s os s' ∧
      Report.Counts { generation := report.generation } report os ∧
      (∀ p, (p, .indexed) ∈ os → ∃ c r, Places db source c p r) ∧
      ∀ p q c, (p, .indexed) ∈ os → (q, .indexed) ∈ os → db.graph.owner? p = some c →
        db.graph.owner? q = some c → source.place p = source.place q →
        source.listedAs c.path p = p → source.listedAs c.path q = q → p = q := by
  obtain ⟨os, hupdates, hwalk, hcounts⟩ := Served.of_completes follows_walk hrun
  refine ⟨os, hupdates, hwalk, hcounts, fun p hp => ?_, fun p q c _ _ _ _ hplace hown hown' => ?_⟩
  · obtain ⟨c, content, r, ws, howner, htold, hrecord⟩ := hwalk.exists_record hp
    have hget : source.get p = .ok content := Eq.symm htold
    obtain ⟨listed, hlist, hown, hlisted⟩ : ∃ listed, source.list c.path = .ok listed ∧
        source.listedAs c.path p ∈ listed ∧ (p ∈ listed ↔ ¬ source.Strays c.path p) := by
      have hcontains : c.containsPath p := by simpa using List.find?_some howner
      obtain ⟨rest, rfl⟩ := Graph.Collection.exists_eq_of_containsPath hcontains
      exact Source.exists_list_of_get hget
    refine ⟨c, r, howner, ⟨content, ws, hget, hrecord⟩, ⟨listed, hlist, hown, hlisted⟩, ?_⟩
    intro s s' rounds report hfree hrebuild b
    have hrecord? : source.view.record? db p = some r :=
      Source.View.record?_eq_some_iff.mpr ⟨c, howner, content, ws, hget, hrecord⟩
    rw [Rebuild.get?_document_iff hG hfree hrebuild (Graph.mem_of_owner? howner), ← hlisted]
    constructor
    · rintro ⟨-, r', listed', rfl, hr', hlist', hmem⟩
      obtain rfl := Option.some.inj (hrecord?.symm.trans hr')
      obtain rfl := Except.ok.inj (hlist.symm.trans hlist')
      exact ⟨hmem, rfl⟩
    · rintro ⟨hmem, rfl⟩
      exact ⟨howner, r, listed, rfl, hrecord?, hlist, hmem⟩
  · rw [← hown, ← hown', Source.listedAs_congr hplace]

/-! ### A note at a path with a dot -/

open Database.Upkeep (rebuiltStore rebuiltStore_succeeds)

/-- The note in a tree of directories. -/
def noteTree : Source :=
  .directory ⟨.directory [("notes", .directory [("a.json",
    .file (Bytes.ofText "\x7b\"done\":true\x7d"))])]⟩

/-- An update is given a path with a dot, and it has got to it. -/
def dotted : Option (Except IndexError Report) × Host :=
  Host.run (notebook.updateAll 1 ["notes/./a.json"].eraseDups { generation := 1 }).run
    ⟨rebuiltStore, noteTree, 0, 0, false⟩

theorem dotted_facts : (dotted.1.bind Except.toOption).any (fun r => r.indexed = 1) ∧
    notebook.graph.owner? "notes/./a.json" = some notes ∧
    (noteTree.list "notes").toOption = some ["notes/a.json"] := by
  decide +kernel

/-- What is counted as indexed, if there is one path. -/
theorem Walk.mem_of_indexed {n : Generation} (h : Walk db told g [p] s os s')
    (hcounts : Report.Counts { generation := n } report os) (hindexed : 0 < report.indexed) :
    (p, .indexed) ∈ os := by
  have hlength : 0 < (os.filter (·.2.isIndexed)).length := by
    have hcount : report.indexed = 0 + (os.filter (·.2.isIndexed)).length := hcounts.indexed
    omega
  obtain ⟨⟨q, o⟩, ho⟩ := List.exists_mem_of_length_pos hlength
  obtain ⟨hmem, hout⟩ := List.mem_filter.mp ho
  obtain rfl : q = p := List.mem_singleton.mp (h.mem_paths hmem)
  cases o with
  | indexed => exact hmem
  | _ => cases hout

/-- The update succeeds and indexes one document. -/
theorem exists_dotted : ∃ report s', rebuiltStore.Reachable ∧
    (notebook.update ["notes/./a.json"]).run.Completes noteTree.view.Tells rebuiltStore (.ok report)
      s' ∧ 0 < report.indexed := by
  obtain ⟨built, hrebuild⟩ := rebuiltStore_succeeds
  have hexact := Rebuild.exact_of_nextFree notebook_compiled Rebuild.noteFiles_legible
    Store.reachable_empty.nextFree hrebuild
  obtain ⟨-, hone, -⟩ := Database.Upkeep.runs
  have hnumber : built.generation = 1 :=
    Generation.toBytes_injective (Option.some.inj (hexact.active.symm.trans hone))
  obtain ⟨previous, -, -, hentries⟩ := hexact.entries
  have hinfo := (hentries _ _ Key.info_starts).mpr (Or.inl ⟨rfl, rfl⟩)
  rw [hnumber] at hinfo
  obtain ⟨report, hreport, hindexed⟩ := (Option.any_eq_true ..).mp dotted_facts.1
  obtain ⟨r, hr, hok⟩ := Option.bind_eq_some_iff.mp hreport
  have hsucceeded : dotted.1 = some (.ok report) := by
    cases r with
    | error e => cases hok
    | ok r =>
      cases hok
      exact hr
  have hcompletes : (notebook.updateAll 1 ["notes/./a.json"].eraseDups
      { generation := 1 }).run.Completes noteTree.view.Tells rebuiltStore (.ok report)
        dotted.2.store := Host.completes hsucceeded
  refine ⟨report, _, Database.reachable_of_succeeds notebook_compiled hrebuild,
    completes_update (fun _ _ => trivial) hexact.lock hone hinfo rfl rfl hcompletes, ?_⟩
  rw [of_decide_eq_true hindexed]
  exact Nat.one_pos

/-- The theorem says what becomes of the note at this path: it strays. -/
theorem listed_iff_not_strays_dotted : ∃ report s' r,
    (notebook.update ["notes/./a.json"]).run.Completes noteTree.view.Tells rebuiltStore (.ok report)
      s' ∧
    Places notebook noteTree notes "notes/./a.json" r ∧
    noteTree.Strays "notes" "notes/./a.json" := by
  obtain ⟨report, s', -, hrun, hindexed⟩ := exists_dotted
  obtain ⟨os, -, hwalk, hcounts, hplaces, -⟩ := listed_iff_not_strays notebook_compiled hrun
  obtain ⟨c, r, hplace⟩ := hplaces _ (hwalk.mem_of_indexed hcounts hindexed)
  obtain ⟨-, hnotes, hlisted⟩ := dotted_facts
  obtain rfl := Option.some.inj (hplace.owner.symm.trans hnotes)
  refine ⟨report, s', r, hrun, hplace, ?_⟩
  obtain ⟨listed, hlist, -, hiff⟩ := hplace.listed
  rw [show noteTree.list "notes" = .ok listed from hlist] at hlisted
  obtain rfl := Option.some.inj hlisted
  by_contra hstrays
  simpa using hiff.mpr hstrays

/-- **What an update has indexed may not be listed.** -/
theorem exists_strayed : ¬ ∀ (db : Database) (source : Source) (s s' : Store) (report : Report)
    (paths : List String) (os : List (String × Outcome)) (p : String), s.Reachable →
    (db.update paths).run.Completes source.view.Tells s (.ok report) s' →
    Walk db source.view.Tells report.generation paths.eraseDups s os s' → (p, .indexed) ∈ os →
    ∃ c listed, db.graph.owner? p = some c ∧ source.list c.path = .ok listed ∧ p ∈ listed := by
  intro h
  obtain ⟨report, s', hreachable, hrun, hindexed⟩ := exists_dotted
  obtain ⟨os, -, hwalk, hcounts⟩ := Served.of_completes follows_walk hrun
  obtain ⟨c, listed, howner, hlist, hmem⟩ :=
    h _ _ _ _ _ _ _ _ hreachable hrun hwalk (hwalk.mem_of_indexed hcounts hindexed)
  obtain ⟨-, hnotes, hlisted⟩ := dotted_facts
  obtain rfl := Option.some.inj (howner.symm.trans hnotes)
  rw [show noteTree.list "notes" = .ok listed from hlist] at hlisted
  obtain rfl := Option.some.inj hlisted
  simp at hmem

end Update

end ContentIndex
