import ContentIndex.Index.Rebuild
import ContentIndex.Index.Update
import ContentIndex.Proofs.Consistency
import ContentIndex.Proofs.Lookup

/-!
# Default orders do not matter for an index

The default order of a collection is taken when a listing asks for none. Whatever writes an index
passes it over: without the default orders of its graph, a database puts the same questions to
storage and to the source, one after another, and writes the same batches. As graphs of one version
differ in default orders only, an index is as good for the one as for the other.

## Main definitions

* `Database.plain`: a database without default orders
* `Database.Interchangeable`: databases that write, and accept, the same indexes

## Main results

* `Database.rebuild_plain`, `Database.update_plain`: **rebuilds and updates pass default orders over**
* `Database.version_eq_iff_and_interchangeable`: **databases of one version differ in default orders
  only, and are interchangeable**
-/

namespace ContentIndex

open Json (Value)

namespace Graph

/-! ### Paths and targets -/

@[simp] theorem Collection.plain_name (c : Collection) : c.plain.name = c.name := rfl

@[simp] theorem Collection.plain_path (c : Collection) : c.plain.path = c.path := rfl

@[simp] theorem Collection.plain_strict (c : Collection) : c.plain.strict = c.strict := rfl

@[simp] theorem Collection.plain_templates (c : Collection) : c.plain.templates = c.templates := rfl

@[simp] theorem Collection.containsPath_plain (c : Collection) (path : String) :
    c.plain.containsPath path = c.containsPath path := rfl

@[simp] theorem Collection.entries_plain (c : Collection) (r : Record) (g : Generation) :
    r.entries g c.plain = r.entries g c := rfl

@[simp] theorem Collection.typeText_plain (c : Collection) : c.plain.typeText = c.typeText := rfl

@[simp] theorem collections_plain (G : Graph) :
    G.plain.collections = G.collections.map Collection.plain := rfl

variable {G : Graph}

theorem collection?_plain (name : String) :
    G.plain.collection? name = (G.collection? name).map Collection.plain := by
  rw [collection?, collection?, collections_plain, List.find?_map]
  rfl

theorem owner?_plain (path : String) :
    G.plain.owner? path = (G.owner? path).map Collection.plain := by
  rw [owner?, owner?, collections_plain, List.find?_map]
  rfl

theorem typeText_plain : typeText G.plain = typeText G := by
  have htypes : G.plain.collections.map Collection.typeText =
      G.collections.map Collection.typeText := by
    rw [collections_plain, List.map_map]
    exact List.map_congr_left fun c _ => c.typeText_plain
  have hlines : G.plain.collections.map Collection.queryLines =
      G.collections.map Collection.queryLines := by
    rw [collections_plain, List.map_map]
    exact List.map_congr_left fun _ _ => rfl
  unfold typeText
  rw [htypes, hlines]

theorem entries_plain (r : Record) (n : Generation) : G.plain.entries n r = G.entries n r := by
  rw [entries, entries, collection?_plain, Option.map_map]
  rfl

/-- References point to the same documents. -/
theorem Rules.target_plain (policy : TemplatePolicy) (strict : Bool) (names : List String)
    (path : String) :
    Rules.target ⟨G.plain, policy, strict⟩ names path = Rules.target ⟨G, policy, strict⟩ names path := by
  have hallowed : names.filterMap G.plain.collection? =
      (names.filterMap G.collection?).map Collection.plain := by
    rw [List.map_filterMap]
    exact List.filterMap_congr fun name _ => collection?_plain name
  unfold Rules.target
  dsimp only
  rw [hallowed, List.find?_map, Option.map_map]
  rfl

/-! ### Values of documents -/

section Values

variable (policy : TemplatePolicy) (strict : Bool)

mutual

/-- **Values do not depend on default orders.** -/
theorem Kind.normalize_plain (location : String) : ∀ (k : Kind) (v : Value),
    k.normalize ⟨G.plain, policy, strict⟩ location v = k.normalize ⟨G, policy, strict⟩ location v
  | .string, v | .number, v | .boolean, v | .datetime, v | .richText, v => by
    cases v <;> rfl
  | .reference targets, v => by
    cases v with
    | string s =>
      rw [Kind.normalize, Kind.normalize, checkReference, checkReference, Rules.target_plain]
    | _ => rfl
  | .list items, v => by
    cases v with
    | array vs =>
      rw [Kind.normalize, Kind.normalize]
      simp only [Kind.normalize_plain]
    | _ => rfl
  | .object templates, v => by
    cases v with
    | object members =>
      rw [Kind.normalize, Kind.normalize]
      simp only [Template.normalizeAs_plain]
    | _ => rfl

theorem Template.normalizeAs_plain (location name : String) (members : List (String × Value)) :
    ∀ ts : List Template,
      Template.normalizeAs ⟨G.plain, policy, strict⟩ location name members ts =
        Template.normalizeAs ⟨G, policy, strict⟩ location name members ts
  | [] => rfl
  | ⟨n, fields⟩ :: r => by
    rw [Template.normalizeAs, Template.normalizeAs, Template.normalizeAs_plain location name members r,
      Field.normalizeAll_plain location name members fields]

theorem Field.normalizeAll_plain (location template : String) (members : List (String × Value)) :
    ∀ fs : List Field,
      Field.normalizeAll ⟨G.plain, policy, strict⟩ location template members fs =
        Field.normalizeAll ⟨G, policy, strict⟩ location template members fs
  | [] => rfl
  | ⟨name, kind, required, indexed⟩ :: r => by
    rw [Field.normalizeAll, Field.normalizeAll, Field.normalizeAll_plain location template members r]
    simp only [Kind.normalize_plain]

end

end Values

theorem Collection.record_plain (c : Collection) (policy : TemplatePolicy)
    (path contentHash : String) (document : Value) :
    c.plain.record G.plain policy path contentHash document =
      c.record G policy path contentHash document := by
  unfold Collection.record
  simp only [Collection.plain_templates, Collection.plain_name, Collection.plain_strict,
    Template.normalizeAs_plain]

end Graph

/-- A step of a rebuild may go on with what is made of its result. -/
theorem Building.lift_map_bind {α β γ : Type} (f : α → β) (t : Failing IndexError α)
    (k : β → Building γ) :
    (liftM (f <$> t) : Building β) >>= k = (liftM t : Building α) >>= fun a => k (f a) := by
  refine ExceptT.ext (StateT.ext fun l => ?_)
  show StateT.bind (StateT.lift (f <$> t).run) _ l = StateT.bind (StateT.lift t.run) _ l
  simp only [StateT.bind, StateT.lift, bind_assoc, pure_bind, ExceptT.run_map, bind_map_left]
  exact bind_congr fun x => by cases x <;> rfl

namespace Database

/-- The database without the default orders of its graph. -/
def plain (db : Database) : Database := { db with graph := db.graph.plain }

@[simp] theorem graph_plain (db : Database) : db.plain.graph = db.graph.plain := rfl

@[simp] theorem settings_plain (db : Database) : db.plain.settings = db.settings := rfl

variable (db : Database)

theorem record_plain (c : Graph.Collection) (path : String) (content : Bytes) :
    db.plain.record c.plain path content = db.record c path content := by
  unfold record
  simp only [graph_plain, Graph.Collection.record_plain]
  rfl

/-! ### Rebuilds -/

theorem ownedPaths_plain (c : Graph.Collection) :
    db.plain.ownedPaths c.plain = db.ownedPaths c := by
  unfold ownedPaths
  simp only [graph_plain, Graph.owner?_plain, Option.any_map, Graph.Collection.plain_path,
    Graph.Collection.plain_name]
  rfl

/-- The work of a rebuild without the default orders of its collections. -/
def plainWork (work : List (Graph.Collection × String)) : List (Graph.Collection × String) :=
  work.map fun x => (x.1.plain, x.2)

theorem documents_plain : db.plain.documents = plainWork <$> db.documents := by
  have hlists (cs : List Graph.Collection) :
      (cs.map Graph.Collection.plain).mapM (fun c => do
        return (← db.plain.ownedPaths c).map (c, ·)) =
      List.map plainWork <$> cs.mapM (fun c => do
        return (← db.ownedPaths c).map (c, ·) : Graph.Collection → Failing IndexError _) := by
    induction cs with
    | nil => simp
    | cons c cs ih =>
      simp only [List.map_cons, List.mapM_cons, ih, ownedPaths_plain, bind_assoc, pure_bind,
        map_bind, bind_map_left, map_pure, List.map_cons, plainWork, List.map_map]
      rfl
  unfold documents
  rw [graph_plain, Graph.collections_plain, hlists, bind_map_left, map_bind]
  simp only [map_pure]
  exact congrArg _ (funext fun lists => congrArg pure (List.map_flatten ..).symm)

theorem writeFresh_plain (g : Generation) (c : Graph.Collection) (path : String) :
    db.plain.writeFresh g c.plain path = db.writeFresh g c path := by
  unfold writeFresh
  simp only [record_plain, Graph.Collection.entries_plain]

theorem writeAll_plain (g : Generation) (work : List (Graph.Collection × String)) :
    db.plain.writeAll g (plainWork work) = db.writeAll g work := by
  induction work with
  | nil => rfl
  | cons x work ih =>
    obtain ⟨c, path⟩ := x
    funext report
    rw [plainWork, List.map_cons, writeAll, writeAll, writeFresh_plain]
    simp only [← ih]
    rfl

theorem build_plain (rounds : Nat) (active : Option Generation) (g : Generation) :
    db.plain.build rounds active g = db.build rounds active g := by
  unfold build
  rw [documents_plain]
  simp only [graph_plain, Graph.typeText_plain, Graph.version_plain, Building.lift_map_bind,
    writeAll_plain]

/-- **Rebuilds pass default orders over.** -/
theorem rebuild_plain (rounds : Nat) : db.plain.rebuild rounds = db.rebuild rounds := by
  unfold rebuild
  simp only [settings_plain, build_plain]

/-! ### Updates -/

theorem updatable_plain : db.plain.updatable = db.updatable := by
  unfold updatable
  simp only [graph_plain, Graph.version_plain]

theorem change_plain (c : Graph.Collection) (path : String) (old : Option Record)
    (content : Except SourceError Bytes) :
    db.plain.change c.plain path old content = db.change c path old content := by
  unfold change
  simp only [record_plain]

theorem updatePath_plain (g : Generation) (c : Graph.Collection) (path : String) :
    db.plain.updatePath g c.plain path = db.updatePath g c path := by
  unfold updatePath updateOnce
  simp only [change_plain, Graph.Collection.entries_plain, Graph.Collection.plain_name]

theorem updateAll_plain (g : Generation) (paths : List String) :
    db.plain.updateAll g paths = db.updateAll g paths := by
  induction paths with
  | nil => rfl
  | cons path paths ih =>
    funext report
    rw [updateAll, updateAll, graph_plain, Graph.owner?_plain, ih]
    cases db.graph.owner? path with
    | none => rfl
    | some c => simp only [Option.map_some, updatePath_plain]

/-- **Updates pass default orders over.** -/
theorem update_plain (paths : List String) : db.plain.update paths = db.update paths := by
  unfold update
  simp only [settings_plain, updatable_plain, updateAll_plain]

/-! ### Databases of one version -/

/-- What one database writes into an index is what the other one writes, and an index that is right
for the one is right for the other. -/
structure Interchangeable (db db' : Database) : Prop where
  /-- Rebuilds ask the same, and write the same batches, whatever is replied. -/
  rebuild : ∀ rounds, db.rebuild rounds = db'.rebuild rounds
  /-- So do updates. -/
  update : ∀ paths, db.update paths = db'.update paths
  /-- The active generation is taken for the index of both or of neither. -/
  presents : ∀ (s : Store) (g : Generation), s.Presents g db.graph ↔ s.Presents g db'.graph
  /-- A generation has the entries of its records by both or by neither. -/
  consistent : ∀ (s : Store) (g : Generation), s.Consistent g db.graph ↔ s.Consistent g db'.graph

theorem presents_plain (s : Store) (g : Generation) (G : Graph) :
    s.Presents g G.plain ↔ s.Presents g G := by
  constructor <;> rintro ⟨hactive, i, hinfo, hversion⟩
  · exact ⟨hactive, i, hinfo, hversion.trans G.version_plain⟩
  · exact ⟨hactive, i, hinfo, hversion.trans G.version_plain.symm⟩

theorem holds_plain (s : Store) (g : Generation) (G : Graph) (D : Set Record) :
    s.Holds g G.plain D ↔ s.Holds g G D := by
  unfold Store.Holds
  simp only [Graph.entries_plain]

theorem consistent_plain (s : Store) (g : Generation) (G : Graph) :
    s.Consistent g G.plain ↔ s.Consistent g G := by
  constructor <;> rintro ⟨hinfo, hentries, hdocuments⟩
  · exact ⟨hinfo, (holds_plain ..).mp hentries, hdocuments⟩
  · exact ⟨hinfo, (holds_plain ..).mpr hentries, hdocuments⟩

variable {db : Database} {db' : Database}

/-- Databases that differ in their default orders only are interchangeable. -/
theorem interchangeable_of_plain_eq (h : db.plain = db'.plain) : Interchangeable db db' := by
  have hgraph : db.graph.plain = db'.graph.plain := congrArg graph h
  refine ⟨fun rounds => ?_, fun paths => ?_, fun s g => ?_, fun s g => ?_⟩
  · rw [← db.rebuild_plain, h, db'.rebuild_plain]
  · rw [← db.update_plain, h, db'.update_plain]
  · rw [← presents_plain, hgraph, presents_plain]
  · rw [← consistent_plain, hgraph, consistent_plain]

/-- **Graphs have one version exactly if they differ in their default orders only, and then
databases of them are interchangeable.** -/
theorem version_eq_iff_and_interchangeable (hdb : db.graph.IsCompiled) (hdb' : db'.graph.IsCompiled)
    (hapart : Graph.VersionsApart db.graph db'.graph) (hsettings : db.settings = db'.settings)
    (hbody : db.bodyField = db'.bodyField) :
    (db.graph.version = db'.graph.version ↔ db.graph.plain = db'.graph.plain) ∧
      (db.graph.version = db'.graph.version → Interchangeable db db') := by
  have hplain := Graph.version_eq_iff hdb hdb' hapart
  refine ⟨hplain, fun hversion => interchangeable_of_plain_eq ?_⟩
  rw [plain, plain, hplain.mp hversion, hsettings, hbody]

/-- Notes that are listed by whether they are done. -/
def sortedNotebook : Database :=
  ⟨.ofCollections [{ notes with defaultSort := some "done" }], {}, "body"⟩

theorem sortedNotebook_compiled : sortedNotebook.graph.IsCompiled :=
  ⟨⟨[⟨"notes", "notes", none, none, false, some "done",
    [.mk "done" (.mk .boolean false none [] none [] [])], []⟩]⟩, rfl⟩

/-- An index of notes needs no rebuild when the notes get a default order. -/
theorem version_eq_iff_and_interchangeable_notebook :
    notebook.graph ≠ sortedNotebook.graph ∧ Interchangeable notebook sortedNotebook := by
  have hplain : notebook.graph.plain = sortedNotebook.graph.plain := rfl
  have hvalue : Graph.collectionsValue notebook.graph.collections =
      Graph.collectionsValue sortedNotebook.graph.collections := by
    rw [← Graph.collectionsValue_plain notebook.graph.collections,
      ← Graph.collectionsValue_plain sortedNotebook.graph.collections]
    exact congrArg (fun G => Graph.collectionsValue G.collections) hplain
  have hboth := version_eq_iff_and_interchangeable notebook_compiled sortedNotebook_compiled
    (fun _ => congrArg Json.Value.bytes hvalue) rfl rfl
  refine ⟨fun h => ?_, hboth.2 (hboth.1.mpr hplain)⟩
  have hsort := congrArg (fun G => G.collections.map (·.defaultSort)) h
  cases hsort

end Database

end ContentIndex
