import ContentIndex.Proofs.Names
import ContentIndex.Proofs.Protocol

/-!
# The protocol of rebuilds

What a rebuild may do at which stage, and the proof that the program does no more. A rebuild takes a
name and the lock, reads the active generation, counts, and then writes into the new generation
only, until it swaps or gives up. Reads and failures leave it where it is; every batch that is
applied is one of a few kinds.

## Main definitions

* `Graph.Owns`: the collections that paths belong to
* `Rebuild.Work`, `Rebuild.Stage`: how far a rebuild has come
* `Rebuild.Conditions`: what is known of the source in addition
* `Rebuild.Step`: what a rebuild may do
* `Rebuild.protocol`: the protocol

## Main results

* `Rebuild.follows`: **rebuilds follow the protocol**
-/

namespace ContentIndex

/-- The path belongs to the collection: the first one that has it has the same name. -/
def Graph.Owns (G : Graph) (c : Collection) (path : String) : Prop :=
  ∃ o ∈ G.owner? path, o.name = c.name

namespace Rebuild

open Generation (Reads)

/-- The work of a rebuild: its lock as it was last acquired, the active generation that it found,
its own number, the generation it keeps for readers, and the records that it has written. -/
structure Work where
  /-- The lock. -/
  lock : Lock
  /-- The active generation as it was found, with its bytes. -/
  active : Option (Generation × Bytes)
  /-- The number of the new generation. -/
  number : Generation
  /-- The generation that the active one replaced. -/
  retired : Option Generation
  /-- The records that were written, each with its collection. -/
  records : List (Graph.Collection × Record)

/-- The generations that a rebuild does not clear. -/
def Work.kept (w : Work) : List Generation :=
  (w.active.map (·.1)).toList ++ w.retired.toList ++ [w.number]

/-- How far a rebuild has come. -/
inductive Stage
  /-- Nothing has been done. -/
  | idle
  /-- It has a name for its lock. -/
  | named (owner : String)
  /-- It has taken the lock. -/
  | locked (l : Lock)
  /-- It has read the active generation. -/
  | pointed (l : Lock) (active : Option (Generation × Bytes))
  /-- It has a number, and the active generation has to be asked what it replaced. -/
  | numbered (w : Work)
  /-- It clears and writes. -/
  | building (w : Work)
  /-- The new generation is complete. -/
  | complete (w : Work)
  /-- The new generation is active. -/
  | swapped (w : Work)
  /-- It removes what it has written. -/
  | dropping (l : Lock) (g : Generation)
  /-- It has given the lock back. -/
  | ended

namespace Stage

/-- The lock that is held, or was until it was lost. -/
def lock? : Stage → Option Lock
  | locked l | pointed l _ | dropping l _ => some l
  | numbered w | building w | complete w => some w.lock
  | _ => none

/-- The number of the new generation. -/
def number? : Stage → Option Generation
  | numbered w | building w | complete w | swapped w => some w.number
  | dropping _ g => some g
  | _ => none

/-- The stage after a number was taken. Without an active generation there is nothing to ask. -/
def counted (l : Lock) (active : Option (Generation × Bytes)) (g : Generation) : Stage :=
  match active with
  | some _ => numbered ⟨l, active, g, none, []⟩
  | none => building ⟨l, none, g, none, []⟩

end Stage

/-- What is known in addition: listings name no path twice, and records have a property. -/
structure Conditions where
  /-- Listings name no path twice. -/
  distinct : Prop
  /-- The property of the records of what the source holds. -/
  good : Graph.Collection → Record → Prop

/-- Nothing is known. -/
def Conditions.none : Conditions := ⟨False, fun _ _ => True⟩

/-- The exchange can happen under the conditions. A scan stays in its range. -/
def Conditions.Allow (c : Conditions) (db : Database) : Exchange → Prop
  | ⟨.scan range _ _, .ok es⟩ => ∀ e ∈ es, range.contains e.1
  | ⟨.paths _, .ok ps⟩ => c.distinct → ps.Nodup
  | ⟨.content path, .ok content⟩ => ∀ col ∈ db.graph.collections, db.graph.Owns col path →
      ∀ r ws, db.record col path content = .ok (r, ws) → c.good col r
  | _ => True

/-- What storage answers is allowed, if the listings and the contents are. -/
theorem Conditions.Allow.of_answers {c : Conditions} {db : Database} {e : Exchange} {s s' : Store}
    (h : s.Answers e s')
    (hpaths : ∀ directory ps, e = ⟨.paths directory, .ok ps⟩ → c.distinct → ps.Nodup)
    (hcontent : ∀ path content, e = ⟨.content path, .ok content⟩ →
      ∀ col ∈ db.graph.collections, db.graph.Owns col path → ∀ r ws,
        db.record col path content = .ok (r, ws) → c.good col r) : c.Allow db e := by
  cases h with
  | scan => exact fun x hx => (Store.mem_scan hx).2
  | paths directory r =>
    cases r with
    | ok ps => exact hpaths directory ps rfl
    | error => trivial
  | content path r =>
    cases r with
    | ok content => exact hcontent path content rfl
    | error => trivial
  | _ => trivial

/-- What a rebuild may do. -/
inductive Step (db : Database) (c : Conditions) : Stage → Exchange → Stage → Prop
  /-- It reads, or a write is refused. -/
  | quiet {s : Stage} {e : Exchange} (h : e.applied? = none) : Step db c s e s
  /-- It gets a name. -/
  | name {o : String} : Step db c .idle ⟨.freshName, o⟩ (.named o)
  /-- It takes the lock. -/
  | acquire {l : Lock} {current : Option Bytes} :
    Step db c (.named l.owner)
      ⟨.write ⟨[.put Key.lock.encode l.toBytes], [⟨Key.lock.encode, current⟩]⟩, .ok ()⟩ (.locked l)
  /-- It reads the active generation. -/
  | point {l : Lock} {active : Option (Generation × Bytes)} (h : Reads active) :
    Step db c (.locked l) ⟨.get Key.active.encode, .ok (active.map (·.2))⟩ (.pointed l active)
  /-- It takes the number above the counter and the active generation. -/
  | count {l : Lock} {active counter : Option (Generation × Bytes)} {g : Generation}
    (h : Reads counter) (hg : g = Generation.successor (counter.map (·.1)) (active.map (·.1))) :
    Step db c (.pointed l active)
      ⟨.write ⟨[.put Key.counter.encode g.toBytes], [⟨Key.counter.encode, counter.map (·.2)⟩]⟩,
        .ok ()⟩ (.counted l active g)
  /-- It asks what the active generation replaced. -/
  | survey {w : Work} {p : Generation × Bytes} {v : Option Bytes} (hp : w.active = some p) :
    Step db c (.numbered w) ⟨.get (Key.info p.1).encode, .ok v⟩
      (.building { w with retired := (v.bind GenerationInfo.ofBytes?).bind (·.previous) })
  /-- It removes entries of generations that it does not keep. -/
  | clear {w : Work} {keys : List Bytes} (hw : w.records = [])
    (h : ∀ k ∈ keys, Key.generationsPrefix <+: k ∧ ∀ g ∈ w.kept, ¬ Key.generationPrefix g <+: k) :
    Step db c (.building w) ⟨.write (.ofOps (keys.map .delete)), .ok ()⟩ (.building w)
  /-- It acquires the lock anew. -/
  | beat {w : Work} {t : Instant} :
    Step db c (.building w) ⟨.write ⟨[.put Key.lock.encode (Lock.mk w.lock.owner t).toBytes],
      [⟨Key.lock.encode, some w.lock.toBytes⟩]⟩, .ok ()⟩
      (.building { w with lock := ⟨w.lock.owner, t⟩ })
  /-- It writes the entries of a record. -/
  | document {w : Work} {col : Graph.Collection} {r : Record} (hcol : col ∈ db.graph.collections)
    (hname : r.collection = col.name) (hgood : c.good col r)
    (hfresh : c.distinct → ∀ x ∈ w.records, x.2.path ≠ r.path) :
    Step db c (.building w)
      ⟨.write (.ofOps ((r.entries w.number col).map fun e => .put e.1 e.2)), .ok ()⟩
      (.building { w with records := w.records ++ [(col, r)] })
  /-- It writes what the new generation was built from. -/
  | inform {w : Work} : Step db c (.building w)
      ⟨.write (.ofOps [.put (Key.info w.number).encode (GenerationInfo.mk w.number
        db.graph.version db.graph.typeText (w.active.map (·.1))).toBytes]), .ok ()⟩ (.complete w)
  /-- It makes the new generation active and gives the lock back. -/
  | swap {w : Work} :
    Step db c (.complete w) ⟨.write (Database.swap w.active w.number w.lock), .ok ()⟩ (.swapped w)
  /-- It gives up, and its generation is not the active one. -/
  | giveUp {s : Stage} {l : Lock} {g : Generation} {active : Option (Generation × Bytes)}
    (hl : s.lock? = some l) (hg : s.number? = some g) (h : Reads active)
    (hne : active.map (·.1) ≠ some g) :
    Step db c s ⟨.get Key.active.encode, .ok (active.map (·.2))⟩ (.dropping l g)
  /-- It removes entries of its own generation. -/
  | drop {l : Lock} {g : Generation} {keys : List Bytes}
    (h : ∀ k ∈ keys, Key.generationPrefix g <+: k) :
    Step db c (.dropping l g) ⟨.write (.ofOps (keys.map .delete)), .ok ()⟩ (.dropping l g)
  /-- It gives the lock back. -/
  | release {s : Stage} {l : Lock} (hl : s.lock? = some l) :
    Step db c s ⟨.write ⟨[.delete Key.lock.encode], [⟨Key.lock.encode, some l.toBytes⟩]⟩, .ok ()⟩
      .ended

/-- The protocol of the rebuilds of a database. -/
def protocol (db : Database) (c : Conditions) : Protocol Stage where
  may _ := c.Allow db
  step := Step db c
  may_scan := id
  cuts := True

instance (db : Database) (c : Conditions) : (protocol db c).Lenient := ⟨fun h => .quiet h.1⟩

/-! ### Taking the lock and a number -/

variable {db : Database} {c : Conditions} {s : Stage}

theorem follows_lostRace :
    Lock.lostRace.Follows (protocol db c) (fun _ _ => True) (fun _ _ => True) s := by
  refine Failing.Follows.bind (m := fun _ _ => True)
    (follows_storage (follows_get (fun _ => trivial) fun _ => trivial)) fun v s' _ => ?_
  split
  · trivial
  · refine Failing.Follows.bind (m := fun _ _ => True) (follows_program ?_) fun _ _ _ => trivial
    exact follows_now.mono fun _ _ _ => trivial

/-- A rebuild that has taken the lock holds it. -/
theorem follows_acquire {seconds : Nat} :
    (Lock.acquire seconds).Follows (protocol db c) (fun l s => s = .locked l) (fun _ _ => True)
      .idle := by
  refine Failing.Follows.bind (m := fun _ s => s = .idle)
    (follows_storage (follows_get (fun _ => rfl) fun _ => trivial)) ?_
  rintro current _ rfl
  refine Failing.Follows.bind (m := fun _ s => s = .idle) (follows_program follows_liveIn?) ?_
  rintro held _ rfl
  split
  · trivial
  · refine Failing.Follows.bind (m := fun o s => s = .named o) (follows_program ?_) ?_
    · exact Program.Follows.question fun o _ => ⟨.named o, Step.name, rfl⟩
    rintro owner _ rfl
    refine Failing.Follows.bind (m := fun _ s => s = .named owner)
      (follows_program follows_now) ?_
    rintro t _ rfl
    refine Failing.Follows.bind
      (m := fun r s => r = .ok () → s = .locked ⟨owner, t⟩)
      (Failing.Follows.outcome
        (follows_write (Step.acquire (l := ⟨owner, t⟩)) (fun _ => rfl) nofun)) ?_
    intro r s hr
    split
    · exact hr rfl
    · exact Failing.Follows.bind follows_lostRace fun _ _ _ => trivial
    · trivial

/-- After a conflict the number is tried for again at the same stage. -/
theorem follows_allocate {l : Lock} {active : Option (Generation × Bytes)} :
    (Generation.allocate (active.map (·.1))).Follows (protocol db c)
      (fun g s => s = .counted l active g) (fun _ s => s.lock? = some l) (.pointed l active) := by
  refine Failing.Follows.retrying ?_ _
  refine Failing.Follows.bind (m := fun counter s => Reads counter ∧ s = .pointed l active)
    (follows_stored? (fun p hp _ => ⟨_, Step.quiet rfl, hp, rfl⟩)
      fun _ _ _ _ => ⟨rfl, fun _ => rfl⟩) ?_
  rintro counter _ ⟨hcounter, rfl⟩
  refine Failing.Follows.bind (m := fun _ s => s = .counted l active
      (Generation.successor (counter.map (·.1)) (active.map (·.1))))
    (follows_write (Step.count hcounter rfl) rfl fun _ => ⟨rfl, fun _ => rfl⟩) ?_
  rintro _ _ rfl
  rfl

theorem follows_prepare {l : Lock} :
    Database.prepare.Follows (protocol db c) (fun r s => s = .counted l r.1 r.2)
      (fun _ s => s.lock? = some l) (.locked l) := by
  refine Failing.Follows.bind (m := fun active s => s = .pointed l active)
    (follows_stored? (fun p hp _ => ⟨_, Step.point hp, rfl⟩) fun _ _ _ _ => rfl) ?_
  rintro active _ rfl
  refine Failing.Follows.bind follows_allocate ?_
  rintro g _ rfl
  rfl

theorem lock?_counted (l : Lock) (active : Option (Generation × Bytes)) (g : Generation) :
    (Stage.counted l active g).lock? = some l := by
  cases active <;> rfl

theorem number?_counted (l : Lock) (active : Option (Generation × Bytes)) (g : Generation) :
    (Stage.counted l active g).number? = some g := by
  cases active <;> rfl

/-! ### Clearing -/

/-- What the active generation replaced is noted. -/
theorem follows_info? {w : Work} {p : Generation × Bytes} (hp : w.active = some p) :
    (Generation.info? p.1).Follows (protocol db c)
      (fun i s => s = .building { w with retired := i.bind (·.previous) })
      (fun _ s => s.lock? = some w.lock ∧ s.number? = some w.number) (.numbered w) := by
  refine Failing.Follows.bind (m := fun v s =>
    s = .building { w with retired := (v.bind GenerationInfo.ofBytes?).bind (·.previous) }) ?_ ?_
  · refine Program.Follows.question fun r _ => ?_
    cases r with
    | ok v => exact ⟨_, Step.survey hp, rfl⟩
    | error e => exact ⟨_, Step.quiet rfl, rfl, rfl⟩
  rintro v _ rfl
  cases v with
  | none => rfl
  | some b =>
    simp only [Option.bind_some]
    split
    · next i hi =>
      rw [hi]
      rfl
    · exact ⟨rfl, rfl⟩

theorem follows_retired? {l : Lock} {active : Option (Generation × Bytes)} {g : Generation} :
    (Database.retired? (active.map (·.1))).Follows (protocol db c)
      (fun retired s => s = .building ⟨l, active, g, retired, []⟩)
      (fun _ s => s.lock? = some l ∧ s.number? = some g) (.counted l active g) := by
  cases active with
  | none => rfl
  | some p =>
    refine Failing.Follows.bind (follows_info? (w := ⟨l, some p, g, none, []⟩) rfl) ?_
    rintro i _ rfl
    rfl

/-- What is found in a range is removed, if the stage allows to remove it. -/
theorem follows_clear {range : KeyRange} {E : StorageError → Stage → Prop}
    (hstep : ∀ keys : List Bytes, (∀ k ∈ keys, range.contains k) →
      Step db c s ⟨.write (.ofOps (keys.map .delete)), .ok ()⟩ s)
    (hfailed : ∀ e, E e s) (rounds : Nat) :
    (Storage.clear range rounds).Follows (protocol db c) (fun _ s' => s' = s) E s := by
  induction rounds with
  | zero => exact Failing.Follows.cut trivial
  | succ rounds ih =>
    refine Failing.Follows.bind
      (m := fun es s' => (∀ e ∈ es, range.contains e.1) ∧ s' = s)
      (follows_scan (fun es hes => ⟨hes, rfl⟩) hfailed) ?_
    rintro es s ⟨hes, rfl⟩
    split
    · rfl
    · refine Failing.Follows.bind (m := fun _ s' => s' = s) (follows_write ?_ rfl hfailed) ?_
      · have hmap : (es.map fun e => WriteOp.delete e.1) = (es.map (·.1)).map .delete := by simp
        rw [hmap]
        refine hstep _ fun k hk => ?_
        obtain ⟨e, he, rfl⟩ := List.mem_map.mp hk
        exact hes e he
      rintro _ s rfl
      refine Failing.Follows.bind ih ?_
      rintro n s rfl
      rfl

theorem follows_clearExcept {w : Work} (hw : w.records = []) (rounds : Nat)
    {E : StorageError → Stage → Prop} (hfailed : ∀ e, E e (.building w)) :
    (Generation.clearExcept rounds w.kept).Follows (protocol db c)
      (fun _ s => s = .building w) E (.building w) := by
  refine Failing.Follows.forM (J := fun s => s = Stage.building w) ?_ rfl
  rintro range hrange _ rfl
  refine Failing.Follows.discard (follows_clear (fun keys hkeys => ?_) hfailed rounds)
  exact .clear hw fun k hk => Key.not_prefix_of_mem_rangesExcept hrange (hkeys k hk)

/-! ### Documents -/

/-- The work of a collection is told by the source: the listed paths that the collection owns. -/
def IsToldOf {σ : Type} (P : Protocol σ) (s : σ) (db : Database) (col : Graph.Collection)
    (work : List (Graph.Collection × String)) : Prop :=
  ∃ listed, P.may s ⟨.paths col.path, .ok listed⟩ ∧
    work = (listed.filter fun p => (db.graph.owner? p).any (·.name = col.name)).map (col, ·)

theorem IsToldOf.owns {σ : Type} {P : Protocol σ} {s : σ} {col : Graph.Collection}
    {work : List (Graph.Collection × String)} (h : IsToldOf P s db col work) :
    ∀ x ∈ work, x.1 = col ∧ db.graph.Owns col x.2 := by
  obtain ⟨listed, -, rfl⟩ := h
  intro x hx
  obtain ⟨p, hp, rfl⟩ := List.mem_map.mp hx
  exact ⟨rfl, by simpa [Graph.Owns, Option.any_eq_true] using (List.mem_filter.mp hp).2⟩

/-- The work is that of the collections, one after another, whatever the protocol. -/
theorem follows_told {σ : Type} {P : Protocol σ} [P.Lenient] {s : σ} {E : IndexError → σ → Prop}
    (hstopped : E .cancelled s) (hfailed : ∀ e, E (.source e) s) :
    db.documents.Follows P (fun work s' => s' = s ∧ ∃ works, work = works.flatten ∧
      List.Forall₂ (IsToldOf P s db) db.graph.collections works) E s := by
  refine Failing.Follows.bind (Failing.Follows.mapM (R := IsToldOf P s db) fun col _ => ?_) ?_
  · have hpaths : (db.ownedPaths col).Follows P (fun paths s' => s' = s ∧ ∃ listed,
        P.may s ⟨.paths col.path, .ok listed⟩ ∧
          paths = listed.filter fun p => (db.graph.owner? p).any (·.name = col.name)) E s := by
      refine Failing.Follows.bind (follows_checkCancelled hstopped) ?_
      rintro _ s rfl
      refine Failing.Follows.bind (m := fun r s' => s' = s ∧ P.may s ⟨.paths col.path, r⟩)
        (follows_program (follows_question (fun _ => ⟨rfl, nofun⟩) fun _ hr => ⟨rfl, hr⟩)) ?_
      rintro r s ⟨rfl, hr⟩
      cases r with
      | error e => exact hfailed _
      | ok listed => exact ⟨rfl, listed, hr, rfl⟩
    refine Failing.Follows.bind hpaths ?_
    rintro _ s ⟨rfl, listed, hlisted, rfl⟩
    exact ⟨rfl, listed, hlisted, rfl⟩
  rintro works s ⟨rfl, hworks⟩
  exact ⟨rfl, works, rfl, hworks⟩

/-- The work of a collection: paths that it owns. -/
def IsWorkOf (db : Database) (c : Conditions) (col : Graph.Collection)
    (work : List (Graph.Collection × String)) : Prop :=
  (c.distinct → (work.map (·.2)).Nodup) ∧
    ∀ x ∈ work, x.1 = col ∧ db.graph.Owns col x.2

/-- A path has one owner, so no path is in the work twice. -/
theorem nodup_flatten {cols : List Graph.Collection}
    {works : List (List (Graph.Collection × String))} (h : List.Forall₂ (IsWorkOf db c) cols works)
    (hnames : c.distinct → (cols.map (·.name)).Nodup) :
    (c.distinct → (works.flatten.map (·.2)).Nodup) ∧ ∀ x ∈ works.flatten, x.1 ∈ cols ∧
      db.graph.Owns x.1 x.2 := by
  induction h with
  | nil => exact ⟨fun _ => List.nodup_nil, nofun⟩
  | @cons col work cols works hwork _ ih =>
    obtain ⟨hnodup, hmem⟩ := ih fun hd => (List.nodup_cons.mp (hnames hd)).2
    refine ⟨fun hd => ?_, fun x hx => ?_⟩
    · rw [List.flatten_cons, List.map_append, List.nodup_append]
      refine ⟨hwork.1 hd, hnodup hd, ?_⟩
      rintro _ hp _ hq rfl
      obtain ⟨x, hx, rfl⟩ := List.mem_map.mp hp
      obtain ⟨y, hy, hxy⟩ := List.mem_map.mp hq
      obtain ⟨-, o, ho, hname⟩ := hwork.2 x hx
      obtain ⟨hy, o', ho', hname'⟩ := hmem y hy
      rw [hxy] at ho'
      obtain rfl := Option.mem_unique ho ho'
      refine (List.nodup_cons.mp (hnames hd)).1 (List.mem_map.mpr ⟨y.1, hy, ?_⟩)
      exact hname'.symm.trans hname
    · rw [List.flatten_cons, List.mem_append] at hx
      rcases hx with hx | hx
      · obtain ⟨rfl, howner⟩ := hwork.2 x hx
        exact ⟨List.mem_cons_self .., howner⟩
      · exact ⟨List.mem_cons_of_mem _ (hmem x hx).1, (hmem x hx).2⟩

/-- The work names no path twice, if listings name none twice. -/
theorem follows_documents {E : IndexError → Stage → Prop} (hfailed : ∀ e, E e s)
    (hnames : c.distinct → (db.graph.collections.map (·.name)).Nodup) :
    db.documents.Follows (protocol db c)
      (fun work s' => s' = s ∧ (c.distinct → (work.map (·.2)).Nodup) ∧
        ∀ x ∈ work, x.1 ∈ db.graph.collections ∧ db.graph.Owns x.1 x.2) E s := by
  refine (follows_told (hfailed _) fun _ => hfailed _).mono ?_ fun _ _ he => he
  rintro _ s ⟨rfl, works, rfl, htold⟩
  refine ⟨rfl, nodup_flatten (htold.imp fun col work hwork => ⟨fun hd => ?_, hwork.owns⟩) hnames⟩
  obtain ⟨listed, hlisted, rfl⟩ := hwork
  simpa [Function.comp_def] using
    List.Nodup.filter (fun p => (db.graph.owner? p).any (·.name = col.name)) (hlisted hd)

/-! ### Writing -/

/-- The lock that a rebuild holds after it has kept it is the one that it wrote. -/
theorem follows_beat {w : Work} {seconds : Nat} :
    (Lock.beat seconds w.lock).Follows (protocol db c)
      (fun l s => s = .building { w with lock := l }) (fun _ s => s = .building w)
      (.building w) := by
  refine Failing.Follows.bind (m := fun _ s => s = .building w) (follows_program follows_now) ?_
  rintro t _ rfl
  split
  · rfl
  · refine Failing.Follows.bind
      (m := fun r s => match r with
        | .ok _ => s = .building { w with lock := ⟨w.lock.owner, t⟩ }
        | .error _ => s = .building w)
      (Failing.Follows.outcome (follows_write Step.beat rfl fun _ => rfl)) ?_
    intro r s hr
    split
    · exact hr
    · exact hr
    · exact hr

theorem follows_keepLock {w : Work} {E : IndexError → Lock → Stage → Prop}
    (hfailed : ∀ e, E e w.lock (.building w)) :
    db.keepLock.Follows (protocol db c)
      (fun _ l s => s = .building { w with lock := l }) E w.lock (.building w) := by
  refine Building.Follows.bind (m := fun held l s => held = w.lock ∧ l = w.lock ∧
    s = .building w) (Building.Follows.get ⟨rfl, rfl, rfl⟩) ?_
  rintro _ _ _ ⟨rfl, rfl, rfl⟩
  refine Building.Follows.bind (m := fun l _ s => s = .building { w with lock := l })
    (Building.Follows.lift (follows_beat.mono (fun _ _ h => h) ?_)) ?_
  · rintro e _ rfl
    exact hfailed e
  · rintro l _ _ rfl
    exact Building.Follows.set rfl

/-- A document is written at most once, and after it its path is taken. -/
theorem follows_writeFresh {w : Work} {col : Graph.Collection} {path : String}
    {E : IndexError → Stage → Prop} (hfailed : ∀ e, E e (.building w))
    (hcol : col ∈ db.graph.collections ∧ db.graph.Owns col path)
    (hfresh : c.distinct → ∀ x ∈ w.records, x.2.path ≠ path) :
    (db.writeFresh w.number col path).Follows (protocol db c)
      (fun _ s => ∃ records, s = .building { w with records } ∧
        ∀ x ∈ records, x ∈ w.records ∨ x.2.path = path)
      E (.building w) := by
  refine Failing.Follows.bind
    (m := fun (r : Except SourceError Bytes) s => s = .building w ∧ ∀ content, r = .ok content →
      ∀ record ws, db.record col path content = .ok (record, ws) → c.good col record)
    (follows_program (Program.Follows.question fun r hr => ⟨_, Step.quiet rfl, rfl, ?_⟩)) ?_
  · rintro content rfl
    exact hr col hcol.1 hcol.2
  rintro r _ ⟨rfl, hgood⟩
  split
  · exact ⟨w.records, rfl, fun x hx => Or.inl hx⟩
  · exact ⟨w.records, rfl, fun x hx => Or.inl hx⟩
  · next content =>
    split
    · exact ⟨w.records, rfl, fun x hx => Or.inl hx⟩
    · next record ws hrecord =>
      obtain ⟨hname, rfl, -⟩ := Database.eq_of_record hrecord
      refine Failing.Follows.bind (follows_storage (follows_write
        (Step.document hcol.1 hname (hgood content rfl record ws hrecord) hfresh)
        (Q := fun _ s => s = .building { w with records := w.records ++ [(col, record)] }) rfl
        fun _ => hfailed _)) ?_
      rintro _ _ rfl
      refine ⟨_, rfl, fun x hx => ?_⟩
      rcases List.mem_append.mp hx with hx | hx
      · exact Or.inl hx
      · obtain rfl := List.mem_singleton.mp hx
        exact Or.inr rfl

/-- The rebuild has failed while it holds a lock and has a number. -/
def Failed (g : Generation) (l : Lock) (s : Stage) : Prop :=
  s.lock? = some l ∧ s.number? = some g

theorem follows_writeAll {todo : List (Graph.Collection × String)} (w : Work) (report : Report)
    (hcol : ∀ x ∈ todo, x.1 ∈ db.graph.collections ∧ db.graph.Owns x.1 x.2)
    (hfresh : c.distinct →
      (todo.map (·.2)).Nodup ∧ ∀ x ∈ w.records, ∀ y ∈ todo, x.2.path ≠ y.2) :
    (db.writeAll w.number todo report).Follows (protocol db c)
      (fun _ l s => ∃ w' : Work, s = .building w' ∧ w'.number = w.number ∧
        w'.active = w.active ∧ l = w'.lock)
      (fun _ => Failed w.number) w.lock (.building w) := by
  induction todo generalizing w report with
  | nil => exact ⟨w, rfl, rfl, rfl, rfl⟩
  | cons x rest ih =>
    obtain ⟨col, path⟩ := x
    refine Building.Follows.bind (m := fun _ l s => l = w.lock ∧ s = .building w)
      (Building.Follows.lift ((follows_checkCancelled ⟨rfl, rfl⟩).mono
        (fun _ _ h => ⟨rfl, h⟩) fun _ _ h => h)) ?_
    rintro _ _ _ ⟨rfl, rfl⟩
    refine Building.Follows.bind (follows_keepLock fun _ => ⟨rfl, rfl⟩) ?_
    rintro _ l _ rfl
    refine Building.Follows.bind (m := fun _ l' s => l' = l ∧ ∃ records,
      s = .building { w with lock := l, records } ∧
        ∀ x ∈ records, x ∈ w.records ∨ x.2.path = path)
      (Building.Follows.lift ((follows_writeFresh (w := { w with lock := l })
        (fun _ => ⟨rfl, rfl⟩) (hcol _ (List.mem_cons_self ..)) ?_).mono
        (fun _ _ h => ⟨rfl, h⟩) fun _ _ h => h)) ?_
    · exact fun hd x hx => (hfresh hd).2 x hx _ (List.mem_cons_self ..)
    rintro ⟨outcome, notices⟩ l _ ⟨rfl, records, rfl, hrecords⟩
    refine ih { w with lock := l, records } _ (fun y hy => hcol y (List.mem_cons_of_mem _ hy)) ?_
    intro hd
    obtain ⟨hnodup, hne⟩ := hfresh hd
    rw [List.map_cons, List.nodup_cons] at hnodup
    refine ⟨hnodup.2, fun x hx y hy heq => ?_⟩
    rcases hrecords x hx with hx | hx
    · exact hne x hx y (List.mem_cons_of_mem _ hy) heq
    · exact hnodup.1 (List.mem_map.mpr ⟨y, hy, heq.symm.trans hx⟩)

/-! ### The whole rebuild -/

theorem follows_build {l : Lock} {active : Option (Generation × Bytes)} {g : Generation}
    {rounds : Nat} (hnames : c.distinct → (db.graph.collections.map (·.name)).Nodup) :
    (db.build rounds (active.map (·.1)) g).Follows (protocol db c)
      (fun _ l s => ∃ w : Work, s = .complete w ∧ w.number = g ∧ w.active = active ∧ l = w.lock)
      (fun _ => Failed g) l (.counted l active g) := by
  refine Building.Follows.bind
    (m := fun retired l' s => l' = l ∧ s = .building ⟨l, active, g, retired, []⟩)
    (Building.Follows.lift (follows_storage (follows_retired?.mono (fun _ _ h => ⟨rfl, h⟩)
      fun _ _ h => h))) ?_
  rintro retired l _ ⟨rfl, rfl⟩
  generalize hw : (⟨l, active, g, retired, []⟩ : Work) = w
  obtain ⟨rfl, rfl, rfl⟩ : l = w.lock ∧ active = w.active ∧ g = w.number := by
    subst hw
    exact ⟨rfl, rfl, rfl⟩
  have hrecords : w.records = [] := by
    rw [← hw]
  have hkept : (w.active.map (·.1)).toList ++ retired.toList ++ [w.number] = w.kept := by
    rw [Work.kept, ← hw]
  rw [hkept]
  refine Building.Follows.bind (m := fun _ l s => l = w.lock ∧ s = .building w)
    (Building.Follows.lift (follows_storage ((follows_clearExcept hrecords rounds
      (E := fun _ => Failed w.number w.lock) fun _ => ⟨rfl, rfl⟩).mono
      (fun _ _ h => ⟨rfl, h⟩) fun _ _ h => h))) ?_
  rintro _ _ _ ⟨rfl, rfl⟩
  refine Building.Follows.bind (m := fun work l s => l = w.lock ∧ s = .building w ∧
      (c.distinct → (work.map (·.2)).Nodup) ∧
        ∀ x ∈ work, x.1 ∈ db.graph.collections ∧ db.graph.Owns x.1 x.2)
    (Building.Follows.lift ((follows_documents (E := fun _ => Failed w.number w.lock)
      (fun _ => ⟨rfl, rfl⟩) hnames).mono (fun _ _ h => ⟨rfl, h⟩) fun _ _ h => h)) ?_
  rintro work _ _ ⟨rfl, rfl, hnodup, hcol⟩
  refine Building.Follows.bind (follows_writeAll w _ hcol fun hd => ⟨hnodup hd, ?_⟩) ?_
  · rw [hrecords]
    nofun
  rintro report _ _ ⟨w', rfl, hnumber, hactive, rfl⟩
  rw [← hnumber, ← hactive]
  refine Building.Follows.bind (m := fun _ l s => l = w'.lock ∧ s = .building w')
    (Building.Follows.lift ((follows_checkCancelled (E := fun _ => Failed w'.number w'.lock)
      ⟨rfl, rfl⟩).mono (fun _ _ h => ⟨rfl, h⟩) fun _ _ h => h)) ?_
  rintro _ _ _ ⟨rfl, rfl⟩
  refine Building.Follows.bind (m := fun _ l s => l = w'.lock ∧ s = .complete w')
    (Building.Follows.lift (follows_storage (follows_write Step.inform ⟨rfl, rfl⟩
      fun _ => ⟨rfl, rfl⟩))) ?_
  rintro _ _ _ ⟨rfl, rfl⟩
  exact ⟨w', rfl, rfl, rfl, rfl⟩

theorem follows_release {l : Lock} (hl : s.lock? = some l) :
    l.release.Follows (protocol db c) (fun _ _ => True) (fun _ _ => True) s := by
  refine Failing.Follows.bind (m := fun _ _ => True)
    (Failing.Follows.outcome (follows_write (Step.release hl) trivial fun _ => trivial)) ?_
  intro r s _
  split <;> trivial

theorem follows_abandon {l : Lock} {g : Generation} {rounds : Nat} (h : Failed g l s) :
    (Database.abandon rounds g l).Follows (protocol db c) (fun _ _ => True) s := by
  obtain ⟨hl, hg⟩ := h
  refine Program.Follows.bind (m := fun r s => s.lock? = some l ∧
    ∀ active : Option (Generation × Bytes), r = .ok active → active.map (·.1) ≠ some g →
      s = .dropping l g) ?_ ?_
  · refine Program.Follows.mono (follows_stored?
      (Q := fun active s => s.lock? = some l ∧ (active.map (·.1) ≠ some g → s = .dropping l g))
      (E := fun _ s => s.lock? = some l) (fun p hp _ => ?_) fun _ _ _ _ => hl) ?_
    · by_cases hne : p.map (·.1) = some g
      · exact ⟨s, Step.quiet rfl, hl, fun h => absurd hne h⟩
      · exact ⟨_, Step.giveUp hl hg hp hne, rfl, fun _ => rfl⟩
    · intro r s hr
      cases r with
      | ok active => exact ⟨hr.1, fun _ h hne => by cases h; exact hr.2 hne⟩
      | error e => exact ⟨hr, nofun⟩
  rintro r s ⟨hl, hdropping⟩
  have hrelease : ∀ s : Stage, s.lock? = some l →
      (discard l.release.run : Program Unit).Follows (protocol db c) (fun _ _ => True) s :=
    fun s hl => Program.Follows.bind (follows_release hl) fun _ _ _ => trivial
  cases r with
  | error e => exact hrelease s hl
  | ok active =>
    show Program.Follows _ _ (if active.map (·.1) ≠ some g then _ else _) s
    split
    · next hne =>
      obtain rfl := hdropping active rfl hne
      have hdrop : ∀ keys : List Bytes,
          (∀ k ∈ keys, (KeyRange.ofPrefix (Key.generationPrefix g)).contains k) →
          Step db c (.dropping l g) ⟨.write (.ofOps (keys.map .delete)), .ok ()⟩ (.dropping l g) :=
        fun keys hkeys => .drop fun k hk => KeyRange.contains_ofPrefix_iff.mp (hkeys k hk)
      have hclear : (Generation.clear rounds g).Follows (protocol db c)
          (fun _ s => s = .dropping l g) (fun _ s => s = .dropping l g) (.dropping l g) :=
        Failing.Follows.discard (follows_clear (E := fun _ s => s = .dropping l g) hdrop
          (fun _ => rfl) rounds)
      refine Program.Follows.bind (m := fun _ s => s = Stage.dropping l g)
        (Program.Follows.bind hclear ?_) ?_
      · intro r s hs
        cases r with
        | ok _ => exact hs
        | error _ => exact hs
      · rintro _ _ rfl
        exact hrelease _ rfl
    · exact hrelease s hl

/-- **Rebuilds follow the protocol.** A rebuild that succeeds has made its generation active. -/
theorem follows (db : Database) (c : Conditions) (rounds : Nat)
    (hnames : c.distinct → (db.graph.collections.map (·.name)).Nodup) :
    (db.rebuild rounds).Follows (protocol db c) (fun _ s => ∃ w, s = .swapped w)
      (fun _ _ => True) .idle := by
  refine Failing.Follows.bind follows_acquire ?_
  rintro l _ rfl
  refine Failing.Follows.bind (m := fun r s => match r with
      | .ok p => s = .counted l p.1 p.2
      | .error _ => s.lock? = some l) (Failing.Follows.outcome follows_prepare) ?_
  intro r s hr
  split
  · refine Failing.Follows.bind (m := fun _ _ => True) (Failing.Follows.outcome
      ((follows_release hr).mono (fun _ _ _ => trivial) fun _ _ _ => trivial)) fun _ _ _ => trivial
  · next active g =>
    obtain rfl : s = .counted l active g := hr
    refine Failing.Follows.bind (m := fun r s => match r.1 with
      | .ok _ => ∃ w : Work, s = .complete w ∧ w.number = g ∧ w.active = active ∧ r.2 = w.lock
      | .error _ => Failed g r.2 s) ?_ ?_
    · refine Failing.Follows.lift (Program.Follows.mono (follows_build hnames) fun r s hr => ?_)
      obtain ⟨built, l'⟩ := r
      cases built with
      | ok report => exact hr
      | error e => exact hr
    rintro ⟨built, l'⟩ s hbuilt
    cases built with
    | error e =>
      refine Failing.Follows.bind (m := fun _ _ => True)
        (Failing.Follows.lift (follows_abandon hbuilt)) fun _ _ _ => trivial
    | ok report =>
      obtain ⟨w, rfl, rfl, rfl, rfl⟩ := hbuilt
      refine Failing.Follows.bind (m := fun r s => match r with
        | .ok _ => s = .swapped w
        | .error _ => s = .complete w)
        (Failing.Follows.outcome (follows_write Step.swap rfl fun _ => rfl)) ?_
      intro r s hr
      split
      · exact ⟨w, hr⟩
      · obtain rfl : s = .complete w := hr
        refine Failing.Follows.bind (m := fun _ _ => True)
          (Failing.Follows.lift (follows_abandon ⟨rfl, rfl⟩)) fun _ _ _ => trivial

end Rebuild

end ContentIndex
