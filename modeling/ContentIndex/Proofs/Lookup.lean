import ContentIndex.Proofs.Documents
import ContentIndex.Proofs.QueryReads
import ContentIndex.Proofs.StoredValues

/-!
# Looking documents up

A query finds the active generation and what it was built from, and then asks for a document in it.
If nothing in particular is selected, then all fields are shown, and the template if there is a
choice of templates. No field can pass for the template, for names with its first character are
reserved.

## Main definitions

* `Store.Presents`: the active generation of a store, built with the graph of a database
* `Record.whole`: a record as it is shown

## Main results

* `Database.contains_template_of_record`: no field has the name of the template
* `Database.on_lookup`, `Database.on_lookup_of_none`: what a lookup answers
-/

namespace ContentIndex

open Graph (systemTemplate)
open Json (Value)

/-! ### Reserved names -/

namespace Graph

/-- The fields of a compiled graph have no reserved names. -/
theorem IsCompiled.not_reserved {g : Graph} (h : g.IsCompiled) :
    ∀ c ∈ g.collections, ∀ t ∈ c.templates, ∀ f ∈ t.fields, ¬ Reserved f.name := by
  intro c hc t ht f hf
  have hfields := (Template.allDeclared_iff.mp (h.declared.2 c hc).templates t ht).2
  exact (Field.allDeclared_iff.mp hfields f hf).1.free

end Graph

namespace Database

variable {db : Database} {c : Graph.Collection} {path : String} {content : Bytes} {r : Record}
  {ws : List Warning}

/-- **No field has the name of the template.** -/
theorem contains_template_of_record (hG : db.graph.IsCompiled) (hc : c ∈ db.graph.collections)
    (h : db.record c path content = .ok (r, ws)) :
    Entries.contains systemTemplate r.fieldsJson = false := by
  have hnone {l : List (String × FieldValue)} (hl : ∀ x ∈ l, x.1 ≠ systemTemplate) :
      Entries.find? systemTemplate (FieldValue.fieldsToJson l) = none := by
    induction l with
    | nil => rfl
    | cons x l ih =>
      obtain ⟨name, v⟩ := x
      have hname : systemTemplate ≠ name := (hl _ (List.mem_cons_self ..)).symm
      rw [FieldValue.fieldsToJson, Entries.find?, if_neg hname]
      exact ih fun y hy => hl y (List.mem_cons_of_mem _ hy)
  rw [Entries.contains, Record.fieldsJson, hnone fun x hx => ?_]
  · rfl
  · obtain ⟨t, ht, f, hf, -⟩ := (conforms_of_record hG hc h).exists_field hx
    rintro heq
    refine hG.not_reserved c hc t ht f (List.mem_of_find?_eq_some hf) ?_
    rw [eq_of_find?_name hf, heq]
    rfl

end Database

/-! ### Snapshots -/

/-- The generation is active, and was built with a graph of the version of the given one. -/
structure Store.Presents (s : Store) (g : Generation) (G : Graph) : Prop where
  /-- It is active. -/
  active : s.get? Key.active.encode = some g.toBytes
  /-- It was built with the version. -/
  info : ∃ i : GenerationInfo, s.get? (Key.info g).encode = some i.toBytes ∧
    i.graphVersion = G.version

theorem Generation.on_info? {s : Store} {g : Generation} {i : GenerationInfo} {b : Bytes}
    (h : s.get? (Key.info g).encode = some b) (hread : GenerationInfo.ofBytes? b = some i) :
    (Generation.info? g).on s = some (.ok (some i)) := by
  unfold Generation.info?
  generalize (Key.info g).encode = key at h
  rw [Failing.on_bind_ok (Failing.on_get _), h]
  simp only [hread, Failing.on_pure]

namespace Database

variable {db : Database} {s : Store} {g : Generation} {α : Type}

theorem snapshotOf_some (b : Bytes) : db.snapshotOf (some (g, b)) =
    (liftM (Generation.info? g) : Failing QueryError _) >>= fun i =>
      match i.map (·.graphVersion) with
      | some version =>
        if version = db.graph.version then pure (some ⟨db.graph, g⟩)
        else throw (.schemaMismatch db.graph.version version)
      | none => throw (.schemaMismatch db.graph.version none) := rfl

theorem on_snapshotOf (h : s.Presents g db.graph) (b : Bytes) :
    (db.snapshotOf (some (g, b))).on s = some (.ok (some ⟨db.graph, g⟩)) := by
  obtain ⟨-, i, hi, hversion⟩ := h
  have hread := Generation.on_info? hi (GenerationInfo.ofBytes?_toBytes i)
  rw [snapshotOf_some, Failing.on_bind_ok (Failing.on_storage_ok hread)]
  -- the version is a digest, which must not be computed here
  generalize db.graph.version = version at hversion
  show Failing.on s (if i.graphVersion = version then _ else _) = _
  rw [if_pos hversion]
  exact Failing.on_pure _

/-- A query finds the active generation. -/
theorem on_snapshot?_bind (h : s.Presents g db.graph) (f : Option Snapshot → Failing QueryError α) :
    (db.snapshot? >>= f).on s = (f (some ⟨db.graph, g⟩)).on s := by
  have htold : Generation.told .active (.ok (some g.toBytes)) = .ok (some (g, g.toBytes)) := by
    rw [Generation.told, Generation.ofStored, Generation.parse?_toBytes]
    rfl
  have hreply : Question.reply? s (.get Key.active.encode) = some (.ok (some g.toBytes)) := by
    rw [Question.reply?, h.active]
  rw [Failing.on, run_snapshot?_bind, Program.on_ask s hreply, htold]
  exact Failing.on_bind_ok (on_snapshotOf h _) f

theorem on_snapshot? (h : s.Presents g db.graph) :
    db.snapshot?.on s = some (.ok (some ⟨db.graph, g⟩)) := by
  have hpure := on_snapshot?_bind h pure
  rwa [bind_pure] at hpure

end Database

/-- What is asked first is asked, and the projection goes on with the reply. -/
theorem Projecting.on_lift_bind {s : Store} {α β : Type} (u : Failing QueryError α) (f : α → Projecting β)
    (ws : List Dangling) :
    Failing.on s ((liftM u >>= f : Projecting β).run ws) = (u.on s).bind fun
      | .ok a => Failing.on s ((f a).run ws)
      | .error e => some (.error e) := by
  have hlift : (liftM u >>= f : Projecting β).run ws =
      (u >>= fun a => pure (a, ws)) >>= fun p => (f p.1).run p.2 := rfl
  rw [hlift, Failing.on_bind, Failing.on_bind]
  cases u.on s with
  | none => rfl
  | some r => cases r <;> rfl

/-! ### One document -/

/-- A record as it is shown if nothing in particular is selected: with all its fields, and with its
template if the collection has several. -/
def Record.whole (r : Record) (c : Graph.Collection) : Value :=
  .object (if c.isPolymorphic then Entries.insert systemTemplate (.string r.template) r.fieldsJson
    else r.fieldsJson)

theorem Composite.withTemplate_ofRecord {c : Graph.Collection} {r : Record}
    (h : Entries.contains systemTemplate r.fieldsJson = false) :
    (ofRecord c r).withTemplate r.fieldsJson = r.whole c := by
  rw [withTemplate, h, Record.whole]
  by_cases hpoly : 1 < c.templates.length
  · simp [ofRecord, Graph.Collection.isPolymorphic, hpoly]
  · simp [ofRecord, Graph.Collection.isPolymorphic, hpoly]

namespace Database

variable {db : Database} {s : Store} {g : Generation} {c : Graph.Collection} {path : String}
  {content : Bytes} {r : Record} {ws : List Warning}

/-- The request for a document without a selection makes sense. -/
theorem query_get (hG : db.graph.IsCompiled) (hc : c ∈ db.graph.collections) :
    db.query (Request.get c.name path .empty) = .ok (.lookup c path .empty) := by
  have hcollection : db.collection c.name = .ok c := by
    rw [collection, hG.collection?_eq hc]
  have hselection : c.checkSelection db.graph .empty = .ok () := by
    rw [Graph.Collection.checkSelection, Selection.empty, Selection.check, Selection.checkFields]
  rw [query, Request.get, hcollection]
  show (c.checkSelection db.graph .empty >>= fun _ => _) = _
  rw [hselection]
  rfl

theorem resolve_get (hG : db.graph.IsCompiled) (hc : c ∈ db.graph.collections) (rounds : Nat) :
    db.resolve rounds (Request.get c.name path .empty) = db.lookup c path .empty := by
  rw [resolve, query_get hG hc]
  rfl

/-- What is found under the key of a document. -/
theorem on_found {x : Snapshot} {v : Option Bytes} {found : Option Record}
    (hget : s.get? (x.key c.name path) = v)
    (hread : Record.ofStored? (x.key c.name path) v = .ok found) :
    Failing.on s (liftM (x.record? c.name path) : Failing QueryError (Option Record)) =
      some (.ok found) :=
  Failing.on_storage_ok ((Snapshot.on_record? hget).trans (congrArg some hread))

/-- **A document that is stored is shown as a whole.** -/
theorem on_lookup (hG : db.graph.IsCompiled) (hc : c ∈ db.graph.collections)
    (hs : s.Presents g db.graph) (hrecord : db.record c path content = .ok (r, ws))
    (hget : s.get? (Key.document g c.name path).encode = some r.toBytes)
    (hread : Record.ofBytes? r.toBytes = some r) :
    (db.lookup c path .empty).on s = some (.ok ⟨r.whole c, none, []⟩) := by
  have hwhole : (Composite.ofRecord c r).withTemplate (FieldValue.fieldsToJson r.fields) =
      r.whole c :=
    Composite.withTemplate_ofRecord (contains_template_of_record hG hc hrecord)
  have hfound : Failing.on s (liftM (Snapshot.record? ⟨db.graph, g⟩ c.name path) :
      Failing QueryError (Option Record)) = some (.ok (some r)) := by
    refine on_found hget ?_
    rw [Record.ofStored?, hread]
  have hproject (x : Snapshot) (ws : List Dangling) :
      (Selection.empty.project x (.ofRecord c r) "").run ws = pure (r.whole c, ws) := by
    rw [Selection.empty, Selection.project, ← hwhole]
    rfl
  rw [lookup, on_snapshot?_bind hs]
  refine (Failing.on_bind_ok hfound _).trans ?_
  show Failing.on s ((Selection.empty.project _ (.ofRecord c r) "").run [] >>= _) = _
  rw [hproject]
  rfl

/-- A document that is not stored is not found. -/
theorem on_lookup_of_none (hs : s.Presents g db.graph)
    (hget : s.get? (Key.document g c.name path).encode = none) (selection : Selection) :
    (db.lookup c path selection).on s = some (.error (.notFound c.name path)) := by
  rw [lookup, on_snapshot?_bind hs]
  have hfound : Failing.on s (liftM (Snapshot.record? ⟨db.graph, g⟩ c.name path) :
      Failing QueryError (Option Record)) = some (.ok none) :=
    on_found hget rfl
  exact Failing.on_bind_ok hfound _

end Database

end ContentIndex
