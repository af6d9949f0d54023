import ContentIndex.Proofs.Documents
import ContentIndex.Proofs.Runs

/-!
# Documents and their owners

Rebuilds and updates of databases with one graph share a store. Whatever they do, in which turns and
however far they get, a document is stored in no other collection than the one that its path belongs
to, and what is stored of it was made of one of its contents.

## Main definitions

* `Graph.Makes`: the records that databases of a graph make

## Main results

* `Run.cases_of_put`: what a run puts into a generation is an entry of a record
* `Graph.exists_entry_of_get?`, `Graph.exists_makes_of_get?`: **what is stored of a document was made
  by its owner**
-/

namespace ContentIndex

open Rebuild (Conditions Stage)
open Text (ZeroFree)

/-! ### What runs put into generations -/

section Steps

variable {c : Conditions} {s s' : Stage} {e : Exchange} {db : Database} {k v : Bytes}

/-- The entry is one of a record that has the property, of a collection of the graph. -/
def Rebuild.Conditions.Enters (c : Conditions) (db : Database) (x : Entry) : Prop :=
  ∃ col ∈ db.graph.collections, ∃ (r : Record) (g : Generation),
    r.collection = col.name ∧ c.good col r ∧ x ∈ r.entries g col

/-- A rebuild puts entries of records into its generation, and the information on it. -/
theorem Rebuild.Step.cases_of_put (h : Rebuild.Step db c s e s')
    (hk : Key.generationsPrefix <+: k) (he : e.effect? k = some (some v)) :
    c.Enters db (k, v) ∨
      ∃ i : GenerationInfo, k = (Key.info i.generation).encode ∧ v = i.toBytes := by
  rcases h.cases_of_effect? hk he with ⟨_, -, -, hv, -⟩ | ⟨w, rfl, -⟩ | ⟨_, _, -, -, hv, -⟩
  · cases hv
  · cases h with
    | quiet happlied =>
      rw [Exchange.effect?_eq_none_of_applied? happlied] at he
      cases he
    | clear =>
      obtain ⟨op, hop, -, hv⟩ := Batch.exists_of_effect? he
      obtain ⟨_, -, rfl⟩ := List.mem_map.mp hop
      cases hv
    | beat =>
      obtain ⟨op, hop, rfl, -⟩ := Batch.exists_of_effect? he
      obtain rfl := List.mem_singleton.mp hop
      exact absurd hk Key.not_starts_lock
    | @document _ col r hcol hname hgood =>
      obtain ⟨op, hop, rfl, hv⟩ := Batch.exists_of_effect? he
      obtain ⟨⟨k, v'⟩, hx, rfl⟩ := List.mem_map.mp hop
      obtain rfl : v' = v := Option.some.inj hv
      exact Or.inl ⟨col, hcol, r, w.number, hname, hgood, hx⟩
    | inform =>
      -- the version is a digest, which must not be computed here
      generalize hi : GenerationInfo.mk w.number db.graph.version db.graph.typeText
        (w.active.map (·.1)) = i at he
      have hnumber : i.generation = w.number := by rw [← hi]
      obtain ⟨op, hop, rfl, hv⟩ := Batch.exists_of_effect? he
      obtain rfl := List.mem_singleton.mp hop
      exact Or.inr ⟨i, congrArg (Key.encode ∘ Key.info) hnumber.symm, (Option.some.inj hv).symm⟩
    | giveUp => cases he
    | release =>
      obtain ⟨op, hop, rfl, -⟩ := Batch.exists_of_effect? he
      obtain rfl := List.mem_singleton.mp hop
      exact absurd hk Key.not_starts_lock
  · cases hv

/-- An update puts entries of records. -/
theorem Update.Step.enters_of_put (h : Update.Step db c s e s')
    (he : e.effect? k = some (some v)) : c.Enters db (k, v) := by
  cases h with
  | quiet happlied =>
    rw [Exchange.effect?_eq_none_of_applied? happlied] at he
    cases he
  | @replace g col path stored old new hcol hold hnew =>
    obtain ⟨op, hop, rfl, hv⟩ := Batch.exists_of_effect? he
    rcases List.mem_append.mp hop with hop | hop
    · obtain ⟨x, -, rfl⟩ := List.mem_map.mp hop
      cases hv
    · obtain ⟨⟨k, v'⟩, hx, rfl⟩ := List.mem_map.mp hop
      obtain rfl : v' = v := Option.some.inj hv
      cases new with
      | none => cases hx
      | some r =>
        obtain ⟨hname, -, hgood⟩ := hnew r rfl
        exact ⟨col, hcol, r, g, hname, hgood, hx⟩

/-- **What a run puts into a generation is an entry of a record**, or the information on it. -/
theorem Run.cases_of_put {run : Run} (h : (run.protocol c).step s e s')
    (hk : Key.generationsPrefix <+: k) (he : e.effect? k = some (some v)) :
    c.Enters run.database (k, v) ∨
      ∃ i : GenerationInfo, k = (Key.info i.generation).encode ∧ v = i.toBytes := by
  cases run with
  | rebuild db rounds => exact Rebuild.Step.cases_of_put h hk he
  | update db paths => exact Or.inl (Update.Step.enters_of_put h he)

end Steps

/-! ### Documents -/

section Documents

variable {r : Record} {g g' : Generation} {c : Graph.Collection} {name p : String} {v : Bytes}

theorem Key.generation_starts_document : generationPrefix g <+: (document g name p).encode :=
  (Family.starts_start .document).trans (document_starts name p)

theorem Key.document_ne_info_of : (document g name p).encode ≠ (info g').encode := by
  intro h
  have hinfo : generationPrefix g' <+: (info g').encode := info_starts
  rw [← h] at hinfo
  obtain rfl : g = g' := eq_of_generationPrefix generation_starts_document hinfo
  have hstart : Family.start g .document <+: (document g name p).encode := document_starts name p
  rw [h] at hstart
  exact not_start_info hstart

/-- The one entry under a key of a document holds the record of the document. -/
theorem Record.eq_of_mem_document (hr : ZeroFree r.collection) (hname : ZeroFree name)
    (h : ((Key.document g' name p).encode, v) ∈ r.entries g c) :
    r.collection = name ∧ r.path = p ∧ v = r.toBytes := by
  obtain rfl : g = g' :=
    Key.eq_of_generationPrefix (starts_of_mem_entries h) Key.generation_starts_document
  rcases mem_entries h with hx | hx
  · obtain ⟨hkey, rfl⟩ := Prod.mk.inj hx
    obtain ⟨rfl, rfl⟩ := Key.document_inj hname hr hkey
    exact ⟨rfl, rfl, rfl⟩
  · exact absurd rfl (ne_document_of_mem hx name p)

end Documents

/-! ### Records of owners -/

section Courses

variable {ι : Type} [DecidableEq ι] {runs : ι → Run} {conditions : Conditions} {store s : Store}
  {trace : Trace ι} {stages : ι → Stage} {G : Graph} {c : Graph.Collection} {g : Generation}
  {p : String} {v : Bytes}

/-- What runs of databases of one graph put into a generation is an entry of a record that has the
property, or the information on it. -/
theorem Run.exists_entry_of_put (hruns : ∀ i, (runs i).database.graph = G)
    (course : Course (fun i => ((runs i).protocol conditions).step) (fun _ => .idle) store trace s
      stages) {x : ι × Exchange} (hx : x ∈ trace) {k : Bytes} (hk : Key.generationsPrefix <+: k)
    (heffect : x.2.effect? k = some (some v)) :
    (∃ col ∈ G.collections, ∃ (r : Record) (n : Generation), r.collection = col.name ∧
      conditions.good col r ∧ (k, v) ∈ r.entries n col) ∨
        ∃ i : GenerationInfo, k = (Key.info i.generation).encode ∧ v = i.toBytes := by
  obtain ⟨before, after, htrace⟩ := List.append_of_mem hx
  obtain ⟨_, stages', _, _, -, -, hstep⟩ := course.exists_of_append htrace
  rw [← hruns x.1]
  exact Run.cases_of_put hstep hk heffect

/-- An entry of a record under the key of a document is the record of the document. -/
theorem Graph.eq_of_mem_document (hG : G.IsCompiled) (hc : c ∈ G.collections) {col : Graph.Collection}
    (hcol : col ∈ G.collections) {r : Record} {n : Generation} (hname : r.collection = col.name)
    (hmem : ((Key.document g c.name p).encode, v) ∈ r.entries n col) :
    col = c ∧ r.path = p ∧ v = r.toBytes := by
  obtain ⟨hname', rfl, rfl⟩ := Record.eq_of_mem_document
    (hname ▸ (hG.names.1 col hcol).1) (hG.names.1 c hc).1 hmem
  exact ⟨List.inj_on_of_nodup_map hG.names.2 hcol hc (hname.symm.trans hname'), rfl, rfl⟩

/-- What runs of databases of one graph put under the key of a document is a record of the document
that has the property. -/
theorem Run.exists_good_of_put (hG : G.IsCompiled) (hruns : ∀ i, (runs i).database.graph = G)
    (course : Course (fun i => ((runs i).protocol conditions).step) (fun _ => .idle) store trace s
      stages) (hc : c ∈ G.collections) {x : ι × Exchange} (hx : x ∈ trace)
    (heffect : x.2.effect? (Key.document g c.name p).encode = some (some v)) :
    ∃ r : Record, v = r.toBytes ∧ r.path = p ∧ conditions.good c r := by
  obtain ⟨col, hcol, r, n, hname, hgood, hmem⟩ := (Run.exists_entry_of_put hruns course hx
    (Key.starts_of_generationPrefix Key.generation_starts_document) heffect).resolve_right
      fun ⟨_, hkey, _⟩ => Key.document_ne_info_of hkey
  obtain ⟨rfl, rfl, rfl⟩ := Graph.eq_of_mem_document hG hc hcol hname hmem
  exact ⟨r, rfl, rfl, hgood⟩

end Courses

namespace Graph

/-- A database of the graph makes the record of a content of the document, in the collection that
the path belongs to. -/
structure Makes (G : Graph) (c : Collection) (r : Record) : Prop where
  /-- The path belongs to the collection. -/
  owner : G.owner? r.path = some c
  /-- The record is made by a database of the graph. -/
  made : ∃ db : Database, db.graph = G ∧ ∃ content ws, db.record c r.path content = .ok (r, ws)

variable {G : Graph} {c : Collection} {path p : String} {g : Generation} {v : Bytes}

/-- In a compiled graph a path belongs to one collection. -/
theorem Owns.owner? (hG : G.IsCompiled) (hc : c ∈ G.collections) (h : G.Owns c path) :
    G.owner? path = some c := by
  obtain ⟨o, ho, hname⟩ := h
  obtain rfl := List.inj_on_of_nodup_map hG.names.2 (mem_of_owner? ho) hc hname
  exact ho

/-- **What is stored in a generation is an entry of a record that was made by its owner**, or the
information on it, whatever runs of databases of the graph have shared the store. -/
theorem exists_entry_of_get? {ι : Type} [DecidableEq ι] {runs : ι → Run} {trace : Trace ι}
    {w : World ι (Except IndexError Report)} (hG : G.IsCompiled)
    (hruns : ∀ i, (runs i).database.graph = G)
    (run : Interleaving (fun i => (runs i).program) OrderedMap.empty trace w) {k : Bytes}
    (hk : Key.generationsPrefix <+: k) (h : w.store.get? k = some v) :
    (∃ col ∈ G.collections, ∃ (r : Record) (n : Generation), r.collection = col.name ∧
      G.Makes col r ∧ (k, v) ∈ r.entries n col) ∨
        ∃ i : GenerationInfo, k = (Key.info i.generation).encode ∧ v = i.toBytes := by
  have hallow : ∀ x ∈ trace, Conditions.Allow ⟨False, G.Makes⟩ (runs x.1).database x.2 := by
    intro x hx
    obtain ⟨s, s', ha⟩ := run.exists_answers hx
    refine .of_answers ha (fun _ _ _ => False.elim) ?_
    rintro path content - col hcol howns r ws hr
    obtain ⟨-, rfl, -⟩ := Database.eq_of_record hr
    have hdb := hruns x.1
    exact ⟨(hdb ▸ howns).owner? hG (hdb ▸ hcol), _, hdb, content, ws, hr⟩
  obtain ⟨stages, course⟩ := Run.course_of_allow run (fun _ => False.elim) hallow
  obtain ⟨x, hx, heffect⟩ := (eq_or_exists_of_written ((run.get?_eq _).symm.trans h)).resolve_left
    nofun
  exact Run.exists_entry_of_put hruns course hx hk heffect

/-- **What is stored of a document was made by its owner**, whatever runs of databases of the graph
have shared the store. -/
theorem exists_makes_of_get? {ι : Type} [DecidableEq ι] {runs : ι → Run} {trace : Trace ι}
    {w : World ι (Except IndexError Report)} (hG : G.IsCompiled)
    (hruns : ∀ i, (runs i).database.graph = G)
    (run : Interleaving (fun i => (runs i).program) OrderedMap.empty trace w)
    (hc : c ∈ G.collections) (h : w.store.get? (Key.document g c.name p).encode = some v) :
    ∃ r : Record, v = r.toBytes ∧ r.path = p ∧ G.Makes c r := by
  obtain ⟨col, hcol, r, n, hname, hmakes, hmem⟩ := (exists_entry_of_get? hG hruns run
    (Key.starts_of_generationPrefix Key.generation_starts_document) h).resolve_right
      fun ⟨_, hkey, _⟩ => Key.document_ne_info_of hkey
  obtain ⟨rfl, rfl, rfl⟩ := eq_of_mem_document hG hc hcol hname hmem
  exact ⟨r, rfl, rfl, hmakes⟩

end Graph

end ContentIndex
