import ContentIndex.Proofs.Contents
import ContentIndex.Proofs.Documents
import ContentIndex.Proofs.Served
import ContentIndex.Proofs.SwapSafety

/-!
# Rebuilds that succeed

A rebuild that is served by storage and by a source that is seen in one way writes the records of
the documents that the source lists into a generation. If nobody has written there before, then in
the end nothing else is there.

## Main definitions

* `Source.View.record?`, `Source.View.work`: what a source that is seen has for a run
* `Store.NextFree`: nothing is stored where the next rebuild will write
* `Report.Adds`: what a report tells more than another one
* `Source.View.records`, `Source.View.skips`: what a rebuild writes and what it leaves out

## Main results

* `Rebuild.brings_rebuild`: **what a rebuild that succeeds leaves**
* `Rebuild.gives_rebuild`: the same of a rebuild that is alone with documents
-/

namespace ContentIndex

open Source (Files View)

/-! ### What a source that is seen has -/

namespace Source.View

variable {v : View} {db : Database} {path : String}

/-- What a run makes of the document at a path: its collection and its record, or the reason to
leave it out. There is none if the source has no document, or no collection owns the path. -/
def document? (v : View) (db : Database) (path : String) :
    Option (Except DocumentSkip (Graph.Collection × Record)) := do
  let c ← db.graph.owner? path
  match v.get path with
  | .error (.notFound _) => none
  | .error e => some (.error (.unreadable e.message))
  | .ok content => some ((db.record c path content).map fun x => (c, x.1))

/-- The record of the document at a path, if it has one. -/
def record? (v : View) (db : Database) (path : String) : Option Record :=
  match v.document? db path with
  | some (.ok x) => some x.2
  | _ => none

/-- The reason to leave the document at a path out, if there is one. -/
def skip? (v : View) (db : Database) (path : String) : Option (String × DocumentSkip) :=
  match v.document? db path with
  | some (.error reason) => some (path, reason)
  | _ => none

/-- What a rebuild works through: the paths that the source lists for a collection and that the
collection owns, for one collection after another. -/
def work (v : View) (db : Database) : List (Graph.Collection × String) :=
  db.graph.collections.flatMap fun c => (((v.list c.path).toOption.getD []).filter fun p =>
    (db.graph.owner? p).any (·.name = c.name)).map (c, ·)

/-- The records that a rebuild writes. -/
def records (v : View) (db : Database) : List Record :=
  ((v.work db).map (·.2)).filterMap (v.record? db)

/-- What a rebuild leaves out. -/
def skips (v : View) (db : Database) : List (String × DocumentSkip) :=
  ((v.work db).map (·.2)).filterMap (v.skip? db)

theorem document?_eq {c : Graph.Collection} (howner : db.graph.owner? path = some c) :
    v.document? db path = match v.get path with
      | .error (.notFound _) => none
      | .error e => some (.error (.unreadable e.message))
      | .ok content => some ((db.record c path content).map fun x => (c, x.1)) := by
  rw [document?, howner]
  rfl

theorem record?_eq_some_iff {r : Record} : v.record? db path = some r ↔
    ∃ c, db.graph.owner? path = some c ∧ ∃ content ws, v.get path = .ok content ∧
      db.record c path content = .ok (r, ws) := by
  rw [record?]
  cases howner : db.graph.owner? path with
  | none => simp [document?, howner]
  | some c =>
    rw [document?_eq howner]
    match hget : v.get path with
    | .error (.notFound _) | .error (.unusable _) | .error (.refused _) => simp
    | .ok content =>
      cases hrecord : db.record c path content with
      | error reason => simp [hrecord, Except.map]
      | ok x =>
        obtain ⟨x, ws⟩ := x
        simp [hrecord, Except.map]

theorem skip?_eq_some_iff {x : String × DocumentSkip} : v.skip? db path = some x ↔
    path = x.1 ∧ v.document? db path = some (.error x.2) := by
  obtain ⟨p, reason⟩ := x
  rw [skip?]
  rcases v.document? db path with _ | _ | _ <;> simp

/-- A rebuild works through the listed paths that a collection owns, each for its owner. -/
theorem mem_work_iff (hG : db.graph.IsCompiled) {x : Graph.Collection × String} :
    x ∈ v.work db ↔ db.graph.owner? x.2 = some x.1 ∧
      ∃ paths, v.list x.1.path = .ok paths ∧ x.2 ∈ paths := by
  obtain ⟨c, p⟩ := x
  simp only [work, List.mem_flatMap, List.mem_map, List.mem_filter, Option.any_eq_true,
    decide_eq_true_eq, Prod.mk.injEq]
  have hlisted (c : Graph.Collection) : p ∈ (v.list c.path).toOption.getD [] ↔
      ∃ paths, v.list c.path = .ok paths ∧ p ∈ paths := by
    cases v.list c.path with
    | ok paths => simp [Except.toOption]
    | error e => simp [Except.toOption]
  constructor
  · rintro ⟨d, hd, q, ⟨hq, o, ho, hname⟩, rfl, rfl⟩
    obtain rfl := List.inj_on_of_nodup_map hG.names.2 (Graph.mem_of_owner? ho) hd hname
    exact ⟨ho, (hlisted o).mp hq⟩
  · rintro ⟨ho, hp⟩
    exact ⟨c, Graph.mem_of_owner? ho, p, ⟨(hlisted c).mpr hp, c, ho, rfl⟩, rfl, rfl⟩

/-- Documents are seen as what they are. -/
theorem document?_files (fs : Files) (db : Database) (path : String) :
    (Source.files fs).view.document? db path = db.document? fs path := by
  have hget : (Source.files fs).view.get path = fs.get path := rfl
  rw [document?, Database.document?]
  cases db.graph.owner? path with
  | none => rfl
  | some c =>
    rw [Option.bind_eq_bind, Option.bind_some, Option.bind_eq_bind, Option.bind_some, hget,
      Files.get]
    cases fs.get? path with
    | none => rfl
    | some content => rfl

theorem record?_files (fs : Files) (db : Database) :
    (Source.files fs).view.record? db = db.recorded? fs := by
  funext path
  rw [record?, document?_files]
  rcases hd : db.document? fs path with _ | _ | _ <;> simp only [Database.recorded?, hd]

theorem skip?_files (fs : Files) (db : Database) :
    (Source.files fs).view.skip? db = db.skip? fs := by
  funext path
  rw [skip?, document?_files]
  rcases hd : db.document? fs path with _ | _ | _ <;> simp only [Database.skip?, hd]

theorem work_files (fs : Files) (db : Database) : (Source.files fs).view.work db = db.work fs := rfl

end Source.View

/-! ### Reports -/

namespace Report

/-- The second report tells of more records and of more documents that were left out than the first
one, and of nothing else. -/
structure Adds (r r' : Report) (records : Nat) (skips : List (String × DocumentSkip)) :
    Prop where
  /-- The generation is the same. -/
  generation : r'.generation = r.generation
  /-- More records were written. -/
  indexed : r'.indexed = r.indexed + records
  /-- More documents were left out. -/
  skipped : r'.skipped = r.skipped ++ skips
  /-- No document was found unchanged. -/
  unchanged : r'.unchanged = r.unchanged
  /-- No record was removed. -/
  deleted : r'.deleted = r.deleted

variable {r r' r'' : Report} {m n : Nat} {xs ys : List (String × DocumentSkip)}

theorem Adds.refl (r : Report) : r.Adds r 0 [] :=
  ⟨rfl, rfl, (List.append_nil _).symm, rfl, rfl⟩

theorem Adds.trans (h : r.Adds r' m xs) (h' : r'.Adds r'' n ys) :
    r.Adds r'' (m + n) (xs ++ ys) := by
  refine ⟨h'.generation.trans h.generation, ?_, ?_, h'.unchanged.trans h.unchanged,
    h'.deleted.trans h.deleted⟩
  · rw [h'.indexed, h.indexed, Nat.add_assoc]
  · rw [h'.skipped, h.skipped, List.append_assoc]

end Report

/-! ### Steps of a rebuild -/

/-- Nothing is stored under the number that comes after those that are stored. -/
def Store.NextFree (s : Store) : Prop :=
  ∀ counter active, Generation.Reads counter → Generation.Reads active →
    s.get? Key.counter.encode = counter.map (·.2) → s.get? Key.active.encode = active.map (·.2) →
    ∀ k, Key.generationPrefix (Generation.successor (counter.map (·.1)) (active.map (·.1))) <+: k →
      s.get? k = none

namespace Rebuild

open Generation (Reads)

variable {fs : Files} {v : View} {db : Database} {s : Store} {l : Lock} {g : Generation}
  {rs : List Record}

theorem brings_acquire {seconds : Nat} : (Lock.acquire seconds).Brings v.Tells s fun _ s' =>
    ∀ k, k ≠ Key.lock.encode → s'.get? k = s.get? k := by
  refine Failing.Follows.bind (m := fun _ s' => s' = s)
    (follows_storage (Served.follows_get rfl fun _ => trivial)) ?_
  rintro current s rfl
  refine Failing.Follows.bind (m := fun _ s' => s' = s) (follows_program follows_liveIn?) ?_
  rintro held s rfl
  split
  · trivial
  · refine Failing.Follows.bind (m := fun _ s' => s' = s)
      (follows_program (follows_question (fun _ => ⟨rfl, fun _ _ h => by cases h⟩) fun _ _ => rfl)) ?_
    rintro owner s rfl
    refine Failing.Follows.bind (m := fun _ s' => s' = s) (follows_program follows_now) ?_
    rintro t s rfl
    refine Failing.Follows.bind (Failing.Brings.outcome (Served.follows_write
      (Q := fun _ s' => ∀ k, k ≠ Key.lock.encode → s'.get? k = s.get? k)
      (fun _ k hk => ?_) fun _ _ => trivial)) ?_
    · exact Store.get?_foldl_apply_of_forall_ne (by simpa [WriteOp.key] using hk.symm)
    intro r s' hr
    split
    · exact hr _ rfl
    · exact Failing.Follows.bind Failing.Brings.any fun _ _ _ => trivial
    · trivial

theorem brings_prepare : Database.prepare.Brings v.Tells s fun x s' =>
    Reads x.1 ∧ s.get? Key.active.encode = x.1.map (·.2) ∧
      (∃ counter, Reads counter ∧ s.get? Key.counter.encode = counter.map (·.2) ∧
        x.2 = Generation.successor (counter.map (·.1)) (x.1.map (·.1))) ∧
      ∀ k, k ≠ Key.counter.encode → s'.get? k = s.get? k := by
  refine Failing.Follows.bind
    (m := fun active s' => s' = s ∧ Reads active ∧ s.get? Key.active.encode = active.map (·.2))
    (Served.follows_number (fun p hp hget => ⟨rfl, hp, hget⟩) fun _ => trivial) ?_
  rintro active s ⟨rfl, hactive, hstored⟩
  refine Failing.Follows.bind (m := fun g s' =>
      (∃ counter, Reads counter ∧ s.get? Key.counter.encode = counter.map (·.2) ∧
        g = Generation.successor (counter.map (·.1)) (active.map (·.1))) ∧
      ∀ k, k ≠ Key.counter.encode → s'.get? k = s.get? k) ?_ ?_
  · refine Failing.Follows.retrying ?_ _
    refine Failing.Follows.bind
      (m := fun counter s' => s' = s ∧ Reads counter ∧
        s.get? Key.counter.encode = counter.map (·.2))
      (Served.follows_number (fun p hp hget => ⟨rfl, hp, hget⟩) fun _ => ⟨trivial, fun _ => rfl⟩) ?_
    rintro counter s ⟨rfl, hcounter, hget⟩
    refine Failing.Follows.bind
      (m := fun _ s' => ∀ k, k ≠ Key.counter.encode → s'.get? k = s.get? k)
      (Served.follows_write (fun _ k hk => ?_) fun _ _ => ⟨trivial, fun _ => rfl⟩) ?_
    · exact Store.get?_foldl_apply_of_forall_ne (by simpa [WriteOp.key] using hk.symm)
    · exact fun _ s' hs' => ⟨⟨counter, hcounter, hget, rfl⟩, hs'⟩
  · exact fun g s' hg => ⟨hactive, hstored, hg⟩

/-- Clearing writes nothing. -/
theorem brings_clear {range : KeyRange} {P : Bytes → Prop} (hs : ∀ k, P k → s.get? k = none)
    (rounds : Nat) :
    (Storage.clear range rounds).Brings v.Tells s fun _ s' => ∀ k, P k → s'.get? k = none := by
  induction rounds generalizing s with
  | zero => exact Failing.Follows.cut trivial
  | succ rounds ih =>
    refine Failing.Follows.bind (m := fun _ s' => s' = s) (Served.follows_scan rfl fun _ => trivial) ?_
    rintro es s rfl
    split
    · exact hs
    · refine Failing.Follows.bind (m := fun _ s' => ∀ k, P k → s'.get? k = none)
        (Served.follows_write (fun _ k hk => ?_) fun _ _ => trivial) ?_
      · have hmap : (es.map fun e => WriteOp.delete e.1) = (es.map (·.1)).map .delete := by simp
        show ((es.map fun e => WriteOp.delete e.1).foldl Store.apply s).get? k = none
        rw [hmap, Store.get?_deletes, hs k hk, ite_self]
      · exact fun _ s' hs' => Failing.Follows.bind (ih hs') fun _ _ h => h

theorem brings_clearExcept {keep : List Generation} {P : Bytes → Prop}
    (hs : ∀ k, P k → s.get? k = none) (rounds : Nat) :
    (Generation.clearExcept rounds keep).Brings v.Tells s fun _ s' => ∀ k, P k → s'.get? k = none := by
  refine Failing.Follows.forM (J := fun s' : Store => ∀ k, P k → s'.get? k = none) ?_ hs
  exact fun range _ s' hs' => Failing.Follows.discard (brings_clear hs' rounds)

/-- The list of what is to be done. -/
theorem brings_documents : db.documents.Brings v.Tells s fun work s' => s' = s ∧ work = v.work db := by
  refine Failing.Follows.bind (Failing.Follows.mapM (R := fun c work => work =
    (((v.list c.path).toOption.getD []).filter fun p =>
      (db.graph.owner? p).any (·.name = c.name)).map (c, ·)) fun c _ => ?_) ?_
  · refine Failing.Follows.bind (m := fun paths s' => s' = s ∧
      paths = ((v.list c.path).toOption.getD []).filter fun p =>
        (db.graph.owner? p).any (·.name = c.name)) ?_ ?_
    · refine Failing.Follows.bind (m := fun _ s' => s' = s) (Failing.Brings.checkCancelled rfl) ?_
      rintro _ s rfl
      refine Failing.Follows.bind (m := fun r s' => s' = s ∧ r = v.list c.path)
        (Served.follows_paths fun r hr => ⟨rfl, hr⟩) ?_
      rintro r s ⟨rfl, hr⟩
      rw [← hr]
      cases r with
      | ok paths => exact ⟨rfl, rfl⟩
      | error e => trivial
    · rintro _ s ⟨rfl, rfl⟩
      exact ⟨rfl, rfl⟩
  · rintro works s ⟨rfl, hworks⟩
    refine ⟨rfl, ?_⟩
    have hmap := map_eq_of_forall₂ (g := id) hworks fun _ _ h => h
    rw [View.work, List.flatMap_def, ← hmap, List.map_id]

/-! ### Documents that are written -/

theorem brings_beat {seconds : Nat} {held : Lock} : (Lock.beat seconds held).Brings v.Tells s fun _ s' =>
    ∀ k, k ≠ Key.lock.encode → s'.get? k = s.get? k := by
  refine Failing.Follows.bind (m := fun _ s' => s' = s) (follows_program follows_now) ?_
  rintro t s rfl
  split
  · exact fun _ _ => rfl
  · refine Failing.Follows.bind (Failing.Brings.outcome (Served.follows_write
      (Q := fun _ s' => ∀ k, k ≠ Key.lock.encode → s'.get? k = s.get? k)
      (fun _ k hk => ?_) fun _ _ => trivial)) ?_
    · exact Store.get?_foldl_apply_of_forall_ne (by simpa [WriteOp.key] using hk.symm)
    intro r s' hr
    split
    · exact hr _ rfl
    · trivial
    · trivial

theorem brings_keepLock (hsettled : s.Settled g db.graph rs) :
    Building.Brings v.Tells db.keepLock l s fun _ s' => s'.Settled g db.graph rs := by
  refine Building.Brings.bind (m := fun _ s' => s' = s) (Building.Follows.get rfl) ?_
  rintro held l s rfl
  refine Building.Brings.bind (Building.Brings.lift brings_beat) ?_
  intro l' _ s' hs'
  refine Building.Follows.set (hsettled.congr fun k hk _ => hs' k ?_)
  rintro rfl
  exact Key.not_starts_lock (Key.starts_of_generationPrefix hk)

/-- A document of an owned path is written if it has a record, and counted once. -/
theorem brings_writeFresh (hG : db.graph.IsCompiled) {c : Graph.Collection} {path : String}
    (howner : db.graph.owner? path = some c) (hsettled : s.Settled g db.graph rs) :
    (db.writeFresh g c path).Brings v.Tells s fun x s' =>
      s'.Settled g db.graph (rs ++ (v.record? db path).toList) ∧
        ∀ report : Report, report.Adds (report.add path x.1 x.2)
          (v.record? db path).toList.length (v.skip? db path).toList := by
  refine Failing.Follows.bind (m := fun r s' => s' = s ∧ r = v.get path)
    (Served.follows_content fun r hr => ⟨rfl, hr⟩) ?_
  rintro r s ⟨rfl, hr⟩
  rw [View.record?, View.skip?, View.document?_eq howner, ← hr]
  match r with
  | .error (.notFound p) =>
    exact ⟨by simpa using hsettled, fun report => ⟨rfl, rfl, by simp [Report.add], rfl, rfl⟩⟩
  | .error (.unusable p) | .error (.refused p) =>
    exact ⟨by simpa using hsettled, fun report => ⟨rfl, rfl, rfl, rfl, rfl⟩⟩
  | .ok content =>
    cases hx : db.record c path content with
    | error reason =>
      simp only [hx, Except.map]
      exact ⟨by simpa using hsettled, fun report => ⟨rfl, rfl, rfl, rfl, rfl⟩⟩
    | ok x =>
      obtain ⟨x, ws⟩ := x
      simp only [hx, Except.map]
      have hname := (Database.eq_of_record hx).1
      refine Failing.Follows.bind (m := fun _ s' => s'.Settled g db.graph (rs ++ [x]))
        (follows_storage (Served.follows_write (fun _ => ?_) fun _ _ => trivial)) ?_
      · rw [← Graph.entries_eq hG (Graph.mem_of_owner? howner) hname]
        exact hsettled.concat x
      · exact fun _ s' hs' => ⟨hs', fun report => ⟨rfl, rfl, by simp [Report.add], rfl, rfl⟩⟩

theorem brings_writeAll (hG : db.graph.IsCompiled) {todo : List (Graph.Collection × String)}
    (htodo : ∀ x ∈ todo, db.graph.owner? x.2 = some x.1) (report : Report)
    (hsettled : s.Settled g db.graph rs) :
    Building.Brings v.Tells (db.writeAll g todo report) l s fun report' s' =>
      s'.Settled g db.graph (rs ++ (todo.map (·.2)).filterMap (v.record? db)) ∧
        report.Adds report' ((todo.map (·.2)).filterMap (v.record? db)).length
          ((todo.map (·.2)).filterMap (v.skip? db)) := by
  induction todo generalizing s rs report l with
  | nil => exact ⟨by simpa using hsettled, .refl report⟩
  | cons x rest ih =>
    obtain ⟨c, path⟩ := x
    have howner := htodo _ (List.mem_cons_self ..)
    refine Building.Brings.bind (m := fun _ s' => s' = s)
      (Building.Brings.lift (Failing.Brings.checkCancelled rfl)) ?_
    rintro _ l s rfl
    refine Building.Brings.bind (brings_keepLock hsettled) ?_
    intro _ l s hsettled
    refine Building.Brings.bind (Building.Brings.lift (brings_writeFresh hG howner hsettled)) ?_
    rintro ⟨outcome, notices⟩ l s ⟨hsettled, hadds⟩
    refine (ih (fun y hy => htodo y (List.mem_cons_of_mem _ hy)) _ hsettled).mono ?_
    rintro report' s' ⟨hsettled', hadds'⟩
    have hcons {α : Type} (f : String → Option α) :
        (((c, path) :: rest).map (·.2)).filterMap f =
          (f path).toList ++ (rest.map (·.2)).filterMap f := by
      rw [List.map_cons, List.filterMap_cons]
      cases f path <;> rfl
    rw [hcons, hcons, List.length_append, ← List.append_assoc]
    exact ⟨hsettled', (hadds report).trans hadds'⟩

/-! ### The whole rebuild -/

/-- The records that a rebuild writes. -/
def records (db : Database) (fs : Files) : List Record :=
  ((db.work fs).map (·.2)).filterMap (db.recorded? fs)

/-- What a rebuild leaves out. -/
def skips (db : Database) (fs : Files) : List (String × DocumentSkip) :=
  ((db.work fs).map (·.2)).filterMap (db.skip? fs)

theorem brings_info? {a : Generation} : (Generation.info? a).Brings v.Tells s fun _ s' => s' = s := by
  refine Failing.Follows.bind (m := fun _ s' => s' = s) (Served.follows_get rfl fun _ => trivial) ?_
  rintro v s rfl
  split
  · rfl
  · split <;> trivial

theorem brings_build (hG : db.graph.IsCompiled) (rounds : Nat) {active : Option Generation}
    (hfree : ∀ k, Key.generationPrefix g <+: k → s.get? k = none) :
    Building.Brings v.Tells (db.build rounds active g) l s fun report s' =>
      Report.Adds { generation := g } report (v.records db).length (v.skips db) ∧
        s'.Settled g db.graph (v.records db) ∧ s'.get? (Key.info g).encode =
          some (GenerationInfo.mk g db.graph.version db.graph.typeText active).toBytes := by
  refine Building.Brings.bind (m := fun _ s' => s' = s) (Building.Brings.lift
    (follows_storage ?_)) ?_
  · cases active with
    | none => rfl
    | some a =>
      refine Failing.Follows.bind brings_info? ?_
      rintro i s rfl
      rfl
  rintro retired l s rfl
  refine Building.Brings.bind (Building.Brings.lift (follows_storage
    (brings_clearExcept hfree rounds))) ?_
  intro _ l s hfree
  refine Building.Brings.bind (Building.Brings.lift brings_documents) ?_
  rintro _ l s ⟨rfl, rfl⟩
  have hempty : s.Settled g db.graph [] := fun k hk _ => hfree k hk
  refine Building.Brings.bind (brings_writeAll hG
    (fun x hx => (View.mem_work_iff hG).mp hx |>.1) _ hempty) ?_
  rintro report l s ⟨hsettled, hadds⟩
  refine Building.Brings.bind (m := fun _ s' => s' = s)
    (Building.Brings.lift (Failing.Brings.checkCancelled rfl)) ?_
  rintro _ l s rfl
  refine Building.Brings.bind (m := fun _ s' => s'.Settled g db.graph (v.records db) ∧
      s'.get? (Key.info g).encode =
        some (GenerationInfo.mk g db.graph.version db.graph.typeText active).toBytes)
    (Building.Brings.lift (follows_storage (Served.follows_write (fun _ => ?_) fun _ _ => trivial))) ?_
  · refine ⟨hsettled.congr fun k _ hinfo => ?_, ?_⟩
    · exact Store.get?_foldl_apply_of_forall_ne
        (by simpa [Batch.ofOps, WriteOp.key] using hinfo.symm)
    · simp [Batch.ofOps, WriteOp.key, WriteOp.value?]
  · exact fun _ _ s' hs' => ⟨hadds, hs'⟩

/-- **A rebuild that succeeds has written the records of the documents, and nothing else**, into a
generation that is now active. It has given the lock back. -/
theorem brings_rebuild (hG : db.graph.IsCompiled) (rounds : Nat) (hfree : s.NextFree) :
    (db.rebuild rounds).Brings v.Tells s fun report s' =>
      Report.Adds { generation := report.generation } report (v.records db).length
        (v.skips db) ∧
      s'.Settled report.generation db.graph (v.records db) ∧
      (∃ active, Reads active ∧ s.get? Key.active.encode = active.map (·.2) ∧
        s'.get? (Key.info report.generation).encode = some (GenerationInfo.mk report.generation
          db.graph.version db.graph.typeText (active.map (·.1))).toBytes) ∧
      s'.get? Key.active.encode = some report.generation.toBytes ∧
      s'.get? Key.lock.encode = none := by
  refine Failing.Follows.bind brings_acquire ?_
  intro l s₁ hs₁
  refine Failing.Follows.bind (Failing.Brings.outcome brings_prepare) ?_
  intro r s₂ hr
  split
  · exact Failing.Follows.bind Failing.Brings.any fun _ _ _ => trivial
  · next active g =>
    obtain ⟨hactive, hstored, ⟨counter, hcounter, hcounted, hg⟩, hs₂⟩ := hr _ rfl
    replace hstored : s.get? Key.active.encode = active.map (·.2) := by
      rw [← hs₁ _ active_ne_lock]
      exact hstored
    replace hcounted : s.get? Key.counter.encode = counter.map (·.2) := by
      rw [← hs₁ _ counter_ne_lock]
      exact hcounted
    have hg' : ∀ k, Key.generationPrefix g <+: k → s₂.get? k = none := by
      intro k hk
      have hstarts := Key.starts_of_generationPrefix hk
      rw [hs₂ k, hs₁ k]
      · exact hfree counter active hcounter hactive hcounted hstored k (hg ▸ hk)
      · rintro rfl
        exact Key.not_starts_lock hstarts
      · rintro rfl
        exact Key.not_starts_counter hstarts
    refine Failing.Follows.bind (m := fun r s' => ∀ report, r.1 = .ok report →
      Report.Adds { generation := g } report (v.records db).length (v.skips db) ∧
        s'.Settled g db.graph (v.records db) ∧ s'.get? (Key.info g).encode = some
          (GenerationInfo.mk g db.graph.version db.graph.typeText (active.map (·.1))).toBytes) ?_ ?_
    · refine Failing.Follows.lift (Program.Follows.mono (brings_build hG rounds hg')
        fun r s' hr report hreport => ?_)
      obtain ⟨r, l'⟩ := r
      obtain rfl : r = .ok report := hreport
      exact hr
    rintro ⟨built, l'⟩ s₃ hbuilt
    cases built with
    | error e => exact Failing.Follows.bind Failing.Brings.any fun _ _ _ => trivial
    | ok report =>
      obtain ⟨hadds, hsettled, hinfo⟩ := hbuilt report rfl
      refine Failing.Follows.bind (Failing.Brings.outcome (Served.follows_write
        (Q := fun _ s' => s'.Settled g db.graph (v.records db) ∧
          s'.get? (Key.info g).encode = some (GenerationInfo.mk g db.graph.version
            db.graph.typeText (active.map (·.1))).toBytes ∧
          s'.get? Key.active.encode = some g.toBytes ∧ s'.get? Key.lock.encode = none)
        (fun _ => ?_) fun _ _ => trivial)) ?_
      · have hkept (k : Bytes) (hk : Key.generationPrefix g <+: k) :
            ((Database.swap active g l').ops.foldl Store.apply s₃).get? k = s₃.get? k := by
          have hstarts := Key.starts_of_generationPrefix hk
          refine Store.get?_foldl_apply_of_forall_ne ?_
          simp only [Database.swap, List.mem_cons, List.not_mem_nil, or_false, forall_eq_or_imp,
            forall_eq, WriteOp.key]
          constructor
          · rintro rfl
            exact Key.not_starts_active hstarts
          · rintro rfl
            exact Key.not_starts_lock hstarts
        refine ⟨hsettled.congr fun k hk _ => hkept k hk, (hkept _ Key.info_starts).trans hinfo, ?_, ?_⟩
        · simp [Database.swap, WriteOp.key, WriteOp.value?]
        · simp [Database.swap, WriteOp.key, WriteOp.value?]
      intro r s' hr
      split
      · obtain ⟨hsettled, hinfo, hswapped, hlock⟩ := hr _ rfl
        obtain rfl : report.generation = g := hadds.generation
        exact ⟨hadds, hsettled, ⟨active, hactive, hstored, hinfo⟩, hswapped, hlock⟩
      · exact Failing.Follows.bind Failing.Brings.any fun _ _ _ => trivial

/-- The list of what is to be done with documents that stay as they are. -/
theorem gives_documents : db.documents.Gives fs s fun work s' => s' = s ∧ work = db.work fs :=
  Failing.Brings.gives brings_documents

/-- **A rebuild that is alone with documents and succeeds has written their records, and nothing
else.** -/
theorem gives_rebuild (hG : db.graph.IsCompiled) (rounds : Nat) (hfree : s.NextFree) :
    (db.rebuild rounds).Gives fs s fun report s' =>
      Report.Adds { generation := report.generation } report (records db fs).length
        (skips db fs) ∧
      s'.Settled report.generation db.graph (records db fs) ∧
      (∃ active, Reads active ∧ s.get? Key.active.encode = active.map (·.2) ∧
        s'.get? (Key.info report.generation).encode = some (GenerationInfo.mk report.generation
          db.graph.version db.graph.typeText (active.map (·.1))).toBytes) ∧
      s'.get? Key.active.encode = some report.generation.toBytes ∧
      s'.get? Key.lock.encode = none := by
  rw [records, skips, ← View.record?_files, ← View.skip?_files, ← View.work_files]
  exact Failing.Brings.gives (brings_rebuild hG rounds hfree)

end Rebuild

end ContentIndex
