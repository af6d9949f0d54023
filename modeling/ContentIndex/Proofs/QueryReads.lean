import ContentIndex.Proofs.KeyLayout
import ContentIndex.Proofs.Reading
import ContentIndex.Query.Resolve

/-!
# What queries ask

A query is checked without a look at the index. Then it asks which generation is active, once, and
all that it asks after that lies in the generation that it was told.

## Main definitions

* `Access.generation`: programs that read one generation
* `Projecting.Within`: steps of a projection that ask no more than they may

## Main results

* `Database.reads_resolve`, `Database.reads_referencedBy`: **queries ask for the active generation
  first, and then for keys of that generation only**
-/

namespace ContentIndex

open Graph (Kind)
open Json (Value)

/-- A program may read one generation, and its loops may be cut off. -/
def Access.generation (g : Generation) : Access := ⟨fun k => Key.generationPrefix g <+: k, True⟩

/-! ### Projections -/

namespace Projecting

variable {α β : Type} {A : Access}

/-- All that the step asks it may ask, whatever was noted before. -/
def Within (A : Access) (t : Projecting α) : Prop :=
  ∀ ws, Failing.Within A (fun _ => True) (t.run ws)

theorem Within.pure {a : α} : (pure a : Projecting α).Within A :=
  fun _ => Failing.Within.pure trivial

theorem Within.bind {t : Projecting α} {f : α → Projecting β} (h : t.Within A)
    (hf : ∀ a, (f a).Within A) : (t >>= f).Within A :=
  fun ws => Failing.Within.bind (h ws) fun r _ => hf r.1 r.2

theorem Within.throw {e : QueryError} : (throw e : Projecting α).Within A :=
  fun _ => Failing.Within.bind (Q := fun _ => True) Failing.Within.throw fun _ _ =>
    Failing.Within.pure trivial

/-- A step that notes nothing. -/
theorem Within.lift {t : Failing QueryError α} (h : t.Within A fun _ => True) :
    Within A (liftM t : Projecting α) :=
  fun _ => Failing.Within.bind h fun _ _ => Failing.Within.pure trivial

theorem Within.modify {f : List Dangling → List Dangling} :
    Within A (modify f : Projecting Unit) :=
  fun _ => Failing.Within.pure trivial

theorem Within.mapM {l : List α} {f : α → Projecting β} (h : ∀ a ∈ l, (f a).Within A) :
    Within A (l.mapM f : Projecting (List β)) := by
  induction l with
  | nil => exact Within.pure
  | cons a l ih =>
    rw [List.mapM_cons]
    refine Within.bind (h a (List.mem_cons_self ..)) fun b => ?_
    exact Within.bind (ih fun a ha => h a (List.mem_cons_of_mem _ ha)) fun _ => Within.pure

end Projecting

open Projecting (Within)

/-- The recursion of `Graph.Kind.walk`: into the values of a list of values, and no further. -/
theorem Graph.Kind.walk_induction {motive : Kind → FieldValue → Prop}
    (list : ∀ items vs, (∀ v, motive items v) → motive (.list items) (.list vs))
    (leaf : ∀ k v, (∀ items vs, k = .list items → v = .list vs → False) → motive k v)
    (k : Kind) (v : FieldValue) : motive k v := by
  match k with
  | .list items =>
    by_cases hlist : ∃ vs, v = .list vs
    · obtain ⟨vs, rfl⟩ := hlist
      exact list items vs fun v => walk_induction list leaf items v
    · exact leaf _ _ fun _ vs _ hv => hlist ⟨vs, hv⟩
  | .string | .number | .boolean | .datetime | .richText | .reference _ | .object _ =>
    exact leaf _ _ nofun

theorem Graph.Kind.within_walk {A : Access} {visit : Kind → FieldValue → String → Projecting Value}
    (hvisit : ∀ k v location, (visit k v location).Within A) (k : Kind) (v : FieldValue)
    (location : String) : Within A (k.walk visit v location) := by
  induction k, v using Kind.walk_induction generalizing location with
  | list items vs ih =>
    rw [Kind.walk]
    exact .bind (.mapM fun x _ => ih x.1 _) fun _ => .pure
  | leaf k v hleaf =>
    rw [Kind.walk]
    · exact hvisit _ _ _
    · exact hleaf

namespace Snapshot

variable (x : Snapshot)

/-- What is asked about a snapshot lies in its generation. -/
abbrev access : Access := .generation x.generation

theorem within_document (c p : String) : (x.record? c p).Within x.access fun _ => True :=
  within_record? Key.Owned.document.starts

theorem within_follow (allowed : List String) (t : Target) (location : String) :
    Within x.access (x.follow allowed t location) := by
  unfold follow
  split
  · exact .throw
  · next c _ =>
    refine .bind (.lift (x.within_document c.name t.path).adapt) fun r => ?_
    cases r with
    | some r => exact .pure
    | none => exact .bind .modify fun _ => .pure

end Snapshot

/-! ### Selections -/

namespace Selection

variable (x : Snapshot) (d : Composite) (location : String)

/-- What is shown of a value that is in no list. -/
def visit (inner : Selection) : Kind → FieldValue → String → Projecting Value
  | .object templates, .object template fields, here =>
    inner.project x (.ofObject templates template fields) here
  | .reference allowed, .reference target, here =>
    if inner.isEmpty then pure (.string target.path)
    else x.follow allowed target here >>= fun
      | some document => inner.project x document here
      | none => pure .null
  | _, v, _ => pure v.toJson

/-- What is shown of one field. -/
def projectField (name : String) (inner : Selection) : Projecting Value :=
  match Entries.find? name d.system, d.field? name with
  | some v, _ => pure v
  | none, none => pure .null
  | none, some (kind, v) => kind.walk (inner.visit x) v (Graph.memberLocation location name)

theorem projectFields_cons (name : String) (inner : Selection)
    (rest : List (String × Selection)) :
    projectFields x d location ((name, inner) :: rest) =
      projectField x d location name inner >>= fun value =>
        projectFields x d location rest >>= fun values => pure ((name, value) :: values) := by
  rw [projectFields, projectField]
  cases Entries.find? name d.system with
  | some v => rfl
  | none =>
    cases d.field? name with
    | none => rfl
    | some f => rfl

mutual

theorem within_project (d : Composite) (location : String) :
    ∀ sel : Selection, Within x.access (sel.project x d location)
  | .mk fields => by
    rw [project]
    split
    · exact .pure
    · exact .bind (within_projectFields d location fields) fun _ => .pure

theorem within_projectFields (d : Composite) (location : String) :
    ∀ fields : List (String × Selection), Within x.access (projectFields x d location fields)
  | [] => by
    rw [projectFields]
    exact .pure
  | (name, inner) :: rest => by
    rw [projectFields_cons]
    refine .bind ?_ fun value => .bind (within_projectFields d location rest) fun _ => .pure
    unfold projectField
    split
    · exact .pure
    · exact .pure
    · refine Kind.within_walk (fun k v here => ?_) _ _ _
      unfold visit
      split
      · exact within_project _ _ inner
      · split
        · exact .pure
        · refine .bind (x.within_follow _ _ _) fun r => ?_
          cases r with
          | some document => exact within_project _ _ inner
          | none => exact .pure
      · exact .pure

end

end Selection

/-! ### Pages -/

namespace Listing

variable {l : Listing} {start k : Bytes} {after : Option Bytes}

/-- The keys of an order come after the end of the page before. -/
theorem contains_range_iff : (l.range start after).contains k ↔
    start <+: k ∧ ∀ suffix ∈ after, l.direction.Before (start ++ suffix) k := by
  cases after with
  | none => simp [range, KeyRange.contains_ofPrefix_iff]
  | some suffix =>
    have hkey : (KeyRange.ofPrefix start).contains (start ++ suffix) :=
      KeyRange.contains_ofPrefix_iff.mpr (List.prefix_append ..)
    rw [range, KeyRange.contains_past_iff hkey, KeyRange.contains_ofPrefix_iff]
    simp

theorem starts_start (l : Listing) (g : Generation) (c : String) :
    Key.generationPrefix g <+: l.start g c := by
  cases l <;> simp [start, Key.documentPrefix, Key.sortPrefix, List.append_assoc]

end Listing

namespace PageQuery

variable (q : PageQuery) (x : Snapshot)

theorem within_recordOf? (e : Entry) : (q.recordOf? x e).Within x.access fun _ => True := by
  unfold recordOf?
  split
  · exact Failing.Within.ofStored
  · split
    · exact x.within_document _ _
    · exact Failing.Within.throw

theorem within_fill (rounds : Nat) {scan : Scan} (hscan : scan.Inside x.access) (items : Items) :
    Within x.access (q.fill x rounds scan items) := by
  induction rounds generalizing scan items with
  | zero => exact Within.lift (Failing.Within.cut trivial)
  | succ rounds ih =>
    intro ws
    refine Failing.Within.bind (Q := fun r => ∀ e y, r.1 = some (e, y) → y.Inside x.access) ?_ ?_
    · refine Failing.Within.bind (Scan.within_next hscan).adapt fun r hr => ?_
      exact Failing.Within.pure hr
    rintro ⟨r, ws⟩ hr
    cases r with
    | none => exact Within.pure ws
    | some p =>
      obtain ⟨e, scan⟩ := p
      refine Within.bind (.lift (q.within_recordOf? x e).adapt) (fun r => ?_) ws
      split
      · exact ih (hr e scan rfl) items
      · split
        · exact .pure
        · exact .bind (Selection.within_project x _ _ _) fun _ => ih (hr e scan rfl) _

theorem within_read (rounds : Nat) : (q.read x rounds).Within x.access fun _ => True := by
  refine Failing.Within.bind (q.within_fill x rounds (fun k hk => ?_) noItems []) fun _ _ =>
    Failing.Within.pure trivial
  exact (q.listing.starts_start x.generation _).trans (Listing.contains_range_iff.mp hk).1

end PageQuery

theorem Database.within_backlinks {A : Access} (hcuts : A.cuts) (start : Bytes) (rounds : Nat)
    {scan : Scan} (hscan : scan.Inside A) :
    (Database.backlinks start rounds scan).Within A fun _ => True := by
  induction rounds generalizing scan with
  | zero => exact Failing.Within.cut hcuts
  | succ rounds ih =>
    refine Failing.Within.bind (Scan.within_next hscan) fun r hr => ?_
    cases r with
    | none => exact Failing.Within.pure trivial
    | some p =>
      obtain ⟨e, scan⟩ := p
      dsimp only
      split
      · exact Failing.Within.bind (ih (hr e scan rfl)) fun _ _ => Failing.Within.pure trivial
      · exact Failing.Within.throw

/-! ### Whole queries -/

/-- A program may read the generation that it was told is active. -/
def Access.told (r : Except StorageError (Option Bytes)) : Access where
  keys k := ∃ b g, r = .ok (some b) ∧ Generation.parse? b = some g ∧ Key.generationPrefix g <+: k
  cuts := True

/-- The program asks which generation is active, if it asks anything, and after that for keys of
the generation that it was told. -/
inductive Program.ReadsActive {α : Type} : Program α → Prop
  /-- It asks nothing. -/
  | done (a : α) : ReadsActive (.done a)
  /-- It asks for the active generation. -/
  | ask {next : Except StorageError (Option Bytes) → Program α}
    (h : ∀ r, (next r).Within (.told r) fun _ => True) :
    ReadsActive (.ask (.get Key.active.encode) next)

/-- A query does nothing but read. -/
theorem Program.ReadsActive.within {α : Type} {t : Program α} (h : t.ReadsActive) :
    t.Within ⟨fun _ => True, True⟩ fun _ => True := by
  cases h with
  | done a => trivial
  | ask h => exact ⟨trivial, fun r _ => (h r).widen (fun _ _ => trivial) id⟩

/-- A host runs a query on its store, and stays as it is. -/
theorem Program.ReadsActive.run_eq {α : Type} {t : Program α} (h : t.ReadsActive) (host : Host) :
    Host.run t host = (t.on host.store, host) :=
  h.within.run_eq host

namespace Generation

/-- The number in what a program is told of a key. -/
def told (key : Key) :
    Except StorageError (Option Bytes) → Except StorageError (Option (Generation × Bytes))
  | .error e => .error e
  | .ok none => .ok none
  | .ok (some b) => (ofStored key b).map fun g => some (g, b)

theorem run_stored? (key : Key) :
    (stored? key).run = .ask (.get key.encode) fun r => .done (told key r) := by
  refine congrArg (Program.ask _) (funext fun r => ?_)
  match r with
  | .error e => rfl
  | .ok none => rfl
  | .ok (some b) =>
    show ExceptT.run ((liftM (ofStored key b) : Storage Generation) >>= fun g =>
      pure (some (g, b))) = .done ((ofStored key b).map fun g => some (g, b))
    cases ofStored key b <;> rfl

theorem parse?_of_told {key : Key} {r : Except StorageError (Option Bytes)} {g : Generation}
    {b : Bytes} (h : told key r = .ok (some (g, b))) :
    r = .ok (some b) ∧ parse? b = some g := by
  match r with
  | .error e => cases h
  | .ok none => cases h
  | .ok (some b') =>
    rw [told, ofStored] at h
    split at h
    · next g' hg' =>
      cases h
      exact ⟨rfl, hg'⟩
    · cases h

end Generation

namespace Database

variable {db : Database} {α : Type}

/-- What a query does with the active generation. -/
def snapshotOf (db : Database) :
    Option (Generation × Bytes) → Failing QueryError (Option Snapshot)
  | none => return none
  | some (g, _) => do
    match (← Generation.info? g).map (·.graphVersion) with
    | some version =>
      if version = db.graph.version then return some ⟨db.graph, g⟩
      else throw (.schemaMismatch db.graph.version version)
    | none => throw (.schemaMismatch db.graph.version none)

/-- What a query goes on with after it was told the active generation. -/
theorem run_snapshot?_bind (db : Database) (f : Option Snapshot → Failing QueryError α) :
    (db.snapshot? >>= f).run = .ask (.get Key.active.encode) fun r =>
      match Generation.told .active r with
      | .error e => .done (.error (.storage e))
      | .ok p => (db.snapshotOf p >>= f).run := by
  have hsnapshot : db.snapshot? >>= f =
      (liftM Generation.active? : Failing QueryError _) >>= fun p => db.snapshotOf p >>= f :=
    bind_assoc (m := Failing QueryError) _ db.snapshotOf f
  rw [hsnapshot]
  show Program.bind (Program.bind (Generation.stored? .active).run _) _ = _
  rw [Generation.run_stored?]
  refine congrArg (Program.ask _) (funext fun r => ?_)
  beta_reduce
  cases Generation.told .active r <;> rfl

theorem within_snapshotOf (g : Generation) (b : Bytes) :
    (db.snapshotOf (some (g, b))).Within (.generation g)
      fun r => ∀ x ∈ r, x.generation = g := by
  refine Failing.Within.bind (Q := fun _ => True) ?_ fun i _ => ?_
  · refine (Failing.Within.bind (Failing.Within.get Key.info_starts) fun v _ => ?_).adapt
    split
    · exact Failing.Within.pure trivial
    · split
      · exact Failing.Within.pure trivial
      · exact Failing.Within.throw
  · split
    · split
      · exact Failing.Within.pure (by simp)
      · exact Failing.Within.throw
    · exact Failing.Within.throw

/-- A query on what is active. -/
theorem readsActive_snapshot? {f : Option Snapshot → Failing QueryError α}
    (hnone : ∀ A : Access, (f none).Within A fun _ => True)
    (hsome : ∀ x, (f (some x)).Within x.access fun _ => True) :
    Program.ReadsActive (db.snapshot? >>= f).run := by
  rw [run_snapshot?_bind]
  refine .ask fun r => ?_
  split
  · trivial
  · next p hp =>
    refine Program.Within.mono (Q := fun r => ∀ a, r = .ok a → True) ?_ fun _ _ => trivial
    cases p with
    | none => exact hnone _
    | some p =>
      obtain ⟨g, b⟩ := p
      obtain ⟨rfl, hb⟩ := Generation.parse?_of_told hp
      have hgeneration {β : Type} {t : Failing QueryError β} {Q : β → Prop}
          (ht : t.Within (.generation g) Q) : t.Within (.told (.ok (some b))) Q :=
        Program.Within.widen ht (fun k hk => ⟨b, g, rfl, hb, hk⟩) id
      refine Failing.Within.bind (hgeneration (within_snapshotOf g b)) fun x hx => ?_
      cases x with
      | none => exact hnone _
      | some x =>
        obtain rfl := hx x rfl
        exact hgeneration (hsome x)

/-- **A request is answered from one generation.** -/
theorem reads_resolve (db : Database) (rounds : Nat) (r : Request) :
    (db.resolve rounds r).run.ReadsActive := by
  unfold resolve
  cases db.query r with
  | error e => exact .done _
  | ok q =>
    cases q with
    | lookup c path selection =>
      refine readsActive_snapshot? (fun _ => Failing.Within.throw) fun x => ?_
      refine Failing.Within.bind (x.within_document c.name path).adapt fun r _ => ?_
      cases r with
      | none => exact Failing.Within.throw
      | some r =>
        exact Failing.Within.bind (Selection.within_project x _ _ _ []) fun _ _ =>
          Failing.Within.pure trivial
    | page q =>
      exact readsActive_snapshot? (fun _ => Failing.Within.pure trivial) fun x => q.within_read x rounds

/-- **The references to a document are read from one generation.** -/
theorem reads_referencedBy (db : Database) (rounds : Nat) (collection path : String) :
    (db.referencedBy rounds collection path).run.ReadsActive := by
  unfold referencedBy
  cases db.collection collection with
  | error e => exact .done _
  | ok c =>
    refine readsActive_snapshot? (fun _ => Failing.Within.pure trivial) fun x => ?_
    refine (within_backlinks trivial _ rounds fun k hk => ?_).adapt
    have hstart := KeyRange.contains_ofPrefix_iff.mp hk
    refine List.IsPrefix.trans ?_ hstart
    simp [Key.backlinkPrefix, List.append_assoc]

end Database

end ContentIndex
