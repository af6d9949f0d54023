import ContentIndex.Proofs.Histories
import ContentIndex.Proofs.Ownership
import ContentIndex.Proofs.StoredDocuments
import ContentIndex.Proofs.SwapSafety

/-!
# The history of a rebuild

A rebuild that succeeds takes the lock and a number, works on the generation of that number, and
swaps it in at last. While it works it reads the contents of documents, one after another, and it
writes the record of a content, if it has one, before it goes on. So what it has written of a
document is what it has read of it.

## Main definitions

* `Exchange.shows?`, `Database.found`: what is read of a document, and what is read of it last
* `Rebuild.Copies`: what is written of documents is what was read of them
* `Rebuild.Accounted`: what a rebuild that succeeds has done

## Main results

* `Rebuild.follows_accounted`: **a rebuild that succeeds leaves of a document what it has found**
-/

namespace ContentIndex

/-! ### What is found of documents -/

/-- The record that an exchange shows of a document: that of the content that is read. -/
def Exchange.shows? (db : Database) (c : Graph.Collection) (p : String) :
    Exchange → Option Bytes
  | ⟨.content path, x⟩ => if path = p then db.shown c p x else none
  | _ => none

@[simp] theorem Exchange.shows?_write {db : Database} {c : Graph.Collection} {p : String}
    {b : Batch} {r : Except StorageError Unit} : shows? db c p ⟨.write b, r⟩ = none := rfl

@[simp] theorem Exchange.effect?_content {path : String} {x : Except SourceError Bytes}
    {key : Bytes} : effect? ⟨.content path, x⟩ key = none := rfl

/-- The last record that a process has found of a document. -/
def Database.found (db : Database) (c : Graph.Collection) (p : String) (h : List Exchange) :
    Option Bytes :=
  (h.filterMap (·.shows? db c p)).getLast?

theorem Database.found_ledger {ι : Type} [DecidableEq ι] {db : Database} {c : Graph.Collection}
    {p : String} {i : ι} {trace : Trace ι} :
    db.found c p (ledger i trace) = db.found c p (history i trace) := by
  rw [found, ledger, List.filterMap_filter, found]
  congr 1
  refine List.filterMap_congr fun e _ => ?_
  cases he : e.counts with
  | true => rfl
  | false =>
    obtain ⟨q, x⟩ := e
    cases q with
    | content path => cases he
    | _ => rfl

namespace Rebuild

open Generation (Reads)

variable {db : Database} {g : Generation} {h h' : List Exchange}

/-- Under the keys of documents is written what was read of them, and the active generation and the
counter are left alone. -/
structure Copies (db : Database) (g : Generation) (h : List Exchange) : Prop where
  /-- The active generation is left alone. -/
  active : ∀ e ∈ h, e.effect? Key.active.encode = none
  /-- So is the counter. -/
  counter : ∀ e ∈ h, e.effect? Key.counter.encode = none
  /-- What is written of a document is what was read of it. -/
  documents : ∀ c p, db.graph.owner? p = some c →
    h.filterMap (·.effect? (Key.document g c.name p).encode) =
      (h.filterMap (·.shows? db c p)).map some

namespace Copies

theorem nil : Copies db g [] := ⟨nofun, nofun, fun _ _ _ => rfl⟩

theorem append (hh : Copies db g h) (hh' : Copies db g h') : Copies db g (h ++ h') := by
  refine ⟨fun e he => ?_, fun e he => ?_, fun c p howner => ?_⟩
  · rcases List.mem_append.mp he with he | he
    · exact hh.active e he
    · exact hh'.active e he
  · rcases List.mem_append.mp he with he | he
    · exact hh.counter e he
    · exact hh'.counter e he
  · rw [List.filterMap_append, List.filterMap_append, List.map_append,
      hh.documents c p howner, hh'.documents c p howner]

/-- A batch that writes no document. -/
theorem write (hh : Copies db g h) {b : Batch} (hactive : b.effect? Key.active.encode = none)
    (hcounter : b.effect? Key.counter.encode = none)
    (hdocument : ∀ name p, b.effect? (Key.document g name p).encode = none) :
    Copies db g (h ++ [⟨.write b, .ok ()⟩]) := by
  refine hh.append ⟨?_, ?_, fun c p _ => ?_⟩
  · simpa using hactive
  · simpa using hcounter
  · simp [hdocument]

/-- A batch inside of the generations that writes no document. -/
theorem write_inside (hh : Copies db g h) {b : Batch}
    (hinside : ∀ op ∈ b.ops, Key.generationsPrefix <+: op.key)
    (hdocument : ∀ name p, b.effect? (Key.document g name p).encode = none) :
    Copies db g (h ++ [⟨.write b, .ok ()⟩]) :=
  have hstays : Exchange.StaysInside ⟨.write b, .ok ()⟩ := Exchange.staysInside_write hinside
  hh.write (hstays.effect? Key.not_starts_active) (hstays.effect? Key.not_starts_counter) hdocument

/-- The lock is stored. -/
theorem storing (hh : Copies db g h) (l : Lock) (current : Option Bytes) :
    Copies db g (h ++ [l.storing current]) := by
  have heffect (key : Bytes) (hkey : Key.lock.encode ≠ key) :
      (l.storing current).effect? key = none := by
    simp [hkey]
  refine hh.write (heffect _ lock_ne_active) (heffect _ lock_ne_counter) fun name p => ?_
  refine heffect (Key.document g name p).encode fun heq => Key.not_starts_lock ?_
  rw [heq]
  exact Key.starts_of_generationPrefix Key.generation_starts_document

variable {c : Graph.Collection} {path : String}

/-- A content without a record. -/
theorem vain (hh : Copies db g h) (howner : db.graph.owner? path = some c)
    {x : Except SourceError Bytes} (hx : db.shown c path x = none) :
    Copies db g (h ++ [⟨.content path, x⟩]) := by
  refine hh.append ⟨by simp, by simp, fun c' p howner' => ?_⟩
  have hshows : Exchange.shows? db c' p ⟨.content path, x⟩ = none := by
    rw [Exchange.shows?]
    split
    · next hpath =>
      obtain rfl := hpath
      obtain rfl := Option.some.inj (howner.symm.trans howner')
      exact hx
    · rfl
  simp [hshows]

/-- A content and its record. -/
theorem document (hG : db.graph.IsCompiled) (hh : Copies db g h)
    (howner : db.graph.owner? path = some c) {content : Bytes} {r : Record} {ws : List Warning}
    (hrecord : db.record c path content = .ok (r, ws)) :
    Copies db g (h ++ [⟨.content path, .ok content⟩] ++
      [⟨.write (.ofOps ((r.entries g c).map fun x => .put x.1 x.2)), .ok ()⟩]) := by
  obtain ⟨hname, rfl, -⟩ := Database.eq_of_record hrecord
  have hzero := (hG.names.1 c (Graph.mem_of_owner? howner)).1
  have hstays : Exchange.StaysInside
      ⟨.write (.ofOps ((r.entries g c).map fun x => .put x.1 x.2)), .ok ()⟩ := by
    refine Exchange.staysInside_write fun op hop => ?_
    obtain ⟨x, hx, rfl⟩ := List.mem_map.mp hop
    exact Key.starts_of_generationPrefix (Record.starts_of_mem_entries hx)
  have heffect (key : Bytes) :
      Exchange.effect? ⟨.write (.ofOps ((r.entries g c).map fun x => .put x.1 x.2)), .ok ()⟩ key =
        (Entries.find? key (r.entries g c)).map some :=
    Batch.effect?_puts (r.sorted_entries g c) key
  rw [List.append_assoc]
  refine hh.append ⟨?_, ?_, fun c' p howner' => ?_⟩
  · simpa using hstays.effect? Key.not_starts_active
  · simpa using hstays.effect? Key.not_starts_counter
  · by_cases hpath : r.path = p
    · obtain rfl := hpath
      obtain rfl := Option.some.inj (howner.symm.trans howner')
      have hfind : Entries.find? (Key.document g c.name r.path).encode (r.entries g c) =
          some r.toBytes := by
        rw [← hname]
        exact r.find?_document g c
      have hshows : Exchange.shows? db c r.path ⟨.content r.path, .ok content⟩ =
          some r.toBytes := by
        rw [Exchange.shows?, if_pos rfl, Database.shown_of_record hrecord]
      simp [List.filterMap_cons, heffect, hfind, hshows]
    · have hfind : Entries.find? (Key.document g c'.name p).encode (r.entries g c) = none := by
        refine Option.eq_none_iff_forall_ne_some.mpr fun v hv => hpath ?_
        have hmem := List.mem_map_of_mem (f := Prod.fst)
          ((Entries.find?_eq_some_iff (r.sorted_entries g c)).mp hv)
        exact ((Record.mem_document_iff (hname ▸ hzero)
          (hG.names.1 c' (Graph.mem_of_owner? howner')).1).mp hmem).2
      have hshows : Exchange.shows? db c' p ⟨.content r.path, .ok content⟩ = none := by
        rw [Exchange.shows?, if_neg hpath]
      simp [List.filterMap_cons, heffect, hfind, hshows]

end Copies

/-- What a rebuild that succeeds has done: it has taken the lock and a number, it has worked on the
generation, and it has swapped that in. -/
def Accounted (db : Database) (g : Generation) (h : List Exchange) : Prop :=
  ∃ (taken lock : Lock) (current : Option Bytes) (active counter : Option (Generation × Bytes))
    (work : List Exchange), Reads active ∧ Reads counter ∧
      g = Generation.successor (counter.map (·.1)) (active.map (·.1)) ∧ Copies db g work ∧
      h = [taken.storing current, g.counting (counter.map (·.2))] ++ work ++
        [⟨.write (Database.swap active g lock), .ok ()⟩]

/-! ### Taking the lock and a number -/

/-- Of failures nothing is said. -/
abbrev Unsaid {ε : Type} (_ : ε) (_ : List Exchange) : Prop := True

theorem accounts_acquire {seconds : Nat} :
    (Lock.acquire seconds).Follows Ledger.protocol
      (fun l h => ∃ current, h = [l.storing current]) Unsaid [] := by
  refine Failing.Follows.bind (m := fun _ h => h = [])
    (follows_storage (follows_get (fun _ => rfl) fun _ => trivial)) ?_
  rintro current _ rfl
  refine Failing.Follows.bind (m := fun _ h => h = []) (follows_program follows_liveIn?) ?_
  rintro held _ rfl
  split
  · trivial
  · refine Failing.Follows.bind (m := fun _ h => h = [])
      (follows_program (follows_question (fun _ => ⟨rfl, nofun⟩) fun _ _ => rfl)) ?_
    rintro owner _ rfl
    refine Failing.Follows.bind (m := fun _ h => h = []) (follows_program follows_now) ?_
    rintro t _ rfl
    refine Failing.Follows.bind
      (m := fun r h => r = .ok () → h = [Lock.storing ⟨owner, t⟩ current])
      (Failing.Follows.outcome (follows_write rfl (fun _ => rfl) nofun)) ?_
    intro r h hr
    split
    · exact ⟨current, hr rfl⟩
    · exact Failing.Follows.bind (Ledger.follows_any _) fun _ _ _ => trivial
    · trivial

theorem accounts_allocate {active : Option Generation} :
    (Generation.allocate active).Follows Ledger.protocol
      (fun g h' => ∃ counter, Reads counter ∧
        g = Generation.successor (counter.map (·.1)) active ∧
        h' = h ++ [g.counting (counter.map (·.2))]) Unsaid h := by
  refine Failing.Follows.retrying ?_ _
  refine Failing.Follows.bind (m := fun counter h' => Reads counter ∧ h' = h)
    (follows_stored? (fun p hp _ => ⟨h, Ledger.protocol.quiet ⟨rfl, nofun⟩, hp, rfl⟩)
      fun _ _ _ _ => ⟨trivial, fun _ => rfl⟩) ?_
  rintro counter h ⟨hcounter, rfl⟩
  refine Failing.Follows.bind (m := fun _ h' => h' = h ++ [Generation.counting
      (Generation.successor (counter.map (·.1)) active) (counter.map (·.2))])
    (follows_write rfl rfl fun _ => ⟨trivial, fun _ => rfl⟩) ?_
  rintro _ _ rfl
  exact ⟨counter, hcounter, rfl, rfl⟩

theorem accounts_prepare :
    Database.prepare.Follows Ledger.protocol
      (fun r h' => ∃ counter, Reads r.1 ∧ Reads counter ∧
        r.2 = Generation.successor (counter.map (·.1)) (r.1.map (·.1)) ∧
        h' = h ++ [r.2.counting (counter.map (·.2))]) Unsaid h := by
  refine Failing.Follows.bind (m := fun active h' => Reads active ∧ h' = h)
    (follows_stored? (fun p hp _ => ⟨h, Ledger.protocol.quiet ⟨rfl, nofun⟩, hp, rfl⟩)
      fun _ _ _ _ => trivial) ?_
  rintro active _ ⟨hactive, rfl⟩
  refine Failing.Follows.bind accounts_allocate ?_
  rintro g _ ⟨counter, hcounter, hg, rfl⟩
  exact ⟨counter, hactive, hcounter, hg, rfl⟩

/-! ### Working on the generation -/

variable {first : List Exchange}

/-- The work that is done after the first exchanges. -/
abbrev Working (db : Database) (g : Generation) (first h : List Exchange) : Prop :=
  ∃ work, Copies db g work ∧ h = first ++ work

theorem accounts_retired? {active : Option Generation} :
    (Database.retired? active).Follows Ledger.protocol (fun _ h' => h' = h) Unsaid h := by
  cases active with
  | none => rfl
  | some a =>
    have hinfo : (Generation.info? a).Follows Ledger.protocol (fun _ h' => h' = h) Unsaid h := by
      refine Failing.Follows.bind (m := fun _ h' => h' = h)
        (follows_get (fun _ => rfl) fun _ => trivial) ?_
      rintro v _ rfl
      split
      · rfl
      · split <;> trivial
    refine Failing.Follows.bind hinfo ?_
    rintro i _ rfl
    rfl

/-- What is removed is not of the generation. -/
theorem accounts_clear {range : KeyRange} (hrange : ∀ k, range.contains k →
      Key.generationsPrefix <+: k ∧ ¬ Key.generationPrefix g <+: k)
    (hh : Working db g first h) (rounds : Nat) :
    (Storage.clear range rounds).Follows Ledger.protocol (fun _ => Working db g first) Unsaid
      h := by
  induction rounds generalizing h with
  | zero => exact Failing.Follows.cut trivial
  | succ rounds ih =>
    refine Failing.Follows.bind
      (m := fun es h' => (∀ e ∈ es, range.contains e.1) ∧ h' = h)
      (follows_scan (fun es hes => ⟨hes, rfl⟩) fun _ => trivial) ?_
    rintro es _ ⟨hes, rfl⟩
    split
    · exact hh
    · obtain ⟨work, hwork, rfl⟩ := hh
      refine Failing.Follows.bind (m := fun _ => Working db g first)
        (follows_write rfl ⟨_, hwork.write_inside ?_ ?_, List.append_assoc ..⟩
          fun _ => trivial) ?_
      · intro op hop
        obtain ⟨e, he, rfl⟩ := List.mem_map.mp hop
        exact (hrange e.1 (hes e he)).1
      · refine fun name p => Batch.effect?_eq_none fun op hop hkey => ?_
        obtain ⟨e, he, rfl⟩ := List.mem_map.mp hop
        refine (hrange e.1 (hes e he)).2 ?_
        rw [show e.1 = _ from hkey]
        exact Key.generation_starts_document
      intro _ h' hh'
      exact Failing.Follows.bind (ih hh') fun _ _ hh' => hh'

theorem accounts_clearExcept {kept : List Generation} (hg : g ∈ kept)
    (hh : Working db g first h) (rounds : Nat) :
    (Generation.clearExcept rounds kept).Follows Ledger.protocol
      (fun _ => Working db g first) Unsaid h := by
  refine Failing.Follows.forM (J := Working db g first) (fun range hrange h' hh' => ?_) hh
  refine Failing.Follows.discard (accounts_clear (fun k hk => ?_) hh' rounds)
  obtain ⟨hstarts, hkept⟩ := Key.not_prefix_of_mem_rangesExcept hrange hk
  exact ⟨hstarts, hkept g hg⟩

/-- The documents of the source, each with the collection that it belongs to. -/
theorem accounts_documents (hG : db.graph.IsCompiled) :
    db.documents.Follows Ledger.protocol
      (fun todo h' => h' = h ∧ ∀ x ∈ todo, db.graph.owner? x.2 = some x.1) Unsaid h := by
  refine (follows_told (E := Unsaid) trivial fun _ => trivial).mono ?_ fun _ _ he => he
  rintro _ h ⟨rfl, works, rfl, htold⟩
  refine ⟨rfl, fun x hx => ?_⟩
  obtain ⟨hc, howns⟩ := (nodup_flatten (c := .none)
    (htold.imp fun col work hwork => ⟨False.elim, hwork.owns⟩) False.elim).2 x hx
  exact howns.owner? hG hc

theorem accounts_keepLock {l : Lock} (hh : Working db g first h) :
    db.keepLock.Follows Ledger.protocol (fun _ _ => Working db g first) (fun _ _ _ => True)
      l h := by
  refine Building.Follows.bind (m := fun _ _ => Working db g first) (Building.Follows.get hh) ?_
  intro held l h hh
  refine Building.Follows.bind (m := fun _ _ => Working db g first) (Building.Follows.lift ?_)
    fun l' _ _ hh => Building.Follows.set hh
  refine Failing.Follows.bind (m := fun _ => Working db g first)
    (follows_program (follows_question (fun _ => ⟨rfl, nofun⟩) fun _ _ => hh)) ?_
  rintro t _ ⟨work, hwork, rfl⟩
  split
  · exact ⟨work, hwork, rfl⟩
  · refine Failing.Follows.bind
      (m := fun r h => r = .ok () → Working db g first h)
      (Failing.Follows.outcome (follows_write rfl
        (fun _ => ⟨_, hwork.storing ⟨held.owner, t⟩ (some held.toBytes), List.append_assoc ..⟩)
        nofun)) ?_
    intro r h hr
    split
    · exact hr rfl
    · trivial
    · trivial

/-- A document is written as it was read. -/
theorem accounts_writeFresh (hG : db.graph.IsCompiled) {c : Graph.Collection} {path : String}
    (howner : db.graph.owner? path = some c) (hh : Working db g first h) :
    (db.writeFresh g c path).Follows Ledger.protocol (fun _ => Working db g first) Unsaid h := by
  obtain ⟨work, hwork, rfl⟩ := hh
  refine Failing.Follows.bind
    (m := fun (x : Except SourceError Bytes) h => h = first ++ work ++ [⟨.content path, x⟩])
    (follows_program (Program.Follows.question fun x _ => ⟨_, rfl, rfl⟩)) ?_
  rintro x _ rfl
  have hvain (hx : db.shown c path x = none) :
      Working db g first (first ++ work ++ [⟨.content path, x⟩]) :=
    ⟨_, hwork.vain howner hx, List.append_assoc ..⟩
  split
  · exact hvain rfl
  · exact hvain rfl
  · next content =>
    split
    · next reason hrecord =>
      refine hvain ?_
      rw [Database.shown, hrecord]
      rfl
    · next r ws hrecord =>
      refine Failing.Follows.bind (m := fun _ => Working db g first)
        (follows_storage (follows_write rfl ⟨_, hwork.document hG howner hrecord, ?_⟩
          fun _ => trivial)) fun _ _ hh => hh
      simp [Ledger.note, Exchange.counts]

theorem accounts_writeAll (hG : db.graph.IsCompiled) {l : Lock}
    {todo : List (Graph.Collection × String)} {report : Report}
    (howner : ∀ x ∈ todo, db.graph.owner? x.2 = some x.1) (hh : Working db g first h) :
    (db.writeAll g todo report).Follows Ledger.protocol
      (fun r _ h' => r.generation = report.generation ∧ Working db g first h') (fun _ _ _ => True)
      l h := by
  induction todo generalizing report l h with
  | nil => exact ⟨rfl, hh⟩
  | cons x rest ih =>
    refine Building.Follows.bind (m := fun _ _ => Working db g first)
      (Building.Follows.lift ((follows_checkCancelled (E := Unsaid) trivial).mono
        (fun _ _ heq => heq ▸ hh) fun _ _ he => he)) ?_
    intro _ l h hh
    refine Building.Follows.bind (accounts_keepLock hh) ?_
    intro _ l h hh
    refine Building.Follows.bind (m := fun _ _ => Working db g first)
      (Building.Follows.lift (accounts_writeFresh hG (howner x (List.mem_cons_self ..)) hh)) ?_
    rintro ⟨outcome, notices⟩ l h hh
    refine Program.Follows.mono
      (ih (fun y hy => howner y (List.mem_cons_of_mem _ hy)) hh) fun r h' hr => ?_
    obtain ⟨r, l'⟩ := r
    cases r with
    | ok r => exact ⟨hr.1.trans (Report.generation_add ..), hr.2⟩
    | error e => trivial

/-! ### The whole rebuild -/

theorem accounts_build (hG : db.graph.IsCompiled) {l : Lock} {rounds : Nat}
    {active : Option Generation} :
    (db.build rounds active g).Follows Ledger.protocol
      (fun r _ h' => r.generation = g ∧ Working db g h h') (fun _ _ _ => True) l h := by
  refine Building.Follows.bind (m := fun _ _ h' => h' = h)
    (Building.Follows.lift (follows_storage (accounts_retired?.mono (fun _ _ h => h)
      fun _ _ _ => trivial))) ?_
  rintro retired l h rfl
  refine Building.Follows.bind (m := fun _ _ => Working db g h)
    (Building.Follows.lift (follows_storage (accounts_clearExcept (by simp)
      ⟨[], .nil, (List.append_nil _).symm⟩ rounds))) ?_
  intro _ l h' hh
  refine Building.Follows.bind (m := fun todo _ h' => Working db g h h' ∧
      ∀ x ∈ todo, db.graph.owner? x.2 = some x.1)
    (Building.Follows.lift ((accounts_documents hG).mono ?_ fun _ _ _ => trivial)) ?_
  · rintro todo h'' ⟨rfl, howner⟩
    exact ⟨hh, howner⟩
  rintro todo l h' ⟨hh, howner⟩
  refine Building.Follows.bind (accounts_writeAll hG howner hh) ?_
  rintro report l h' ⟨hg, hh⟩
  refine Building.Follows.bind (m := fun _ _ => Working db g h)
    (Building.Follows.lift ((follows_checkCancelled (E := Unsaid) trivial).mono
      (fun _ _ heq => heq ▸ hh) fun _ _ he => he)) ?_
  rintro _ l _ ⟨work, hwork, rfl⟩
  refine Building.Follows.bind (m := fun _ _ => Working db g h)
    (Building.Follows.lift (follows_storage (follows_write rfl ⟨_, hwork.write_inside ?_ ?_,
      List.append_assoc ..⟩ fun _ => trivial))) fun _ _ _ hh => ⟨hg, hh⟩
  · intro op hop
    obtain rfl := List.mem_singleton.mp hop
    exact Key.starts_of_generationPrefix Key.info_starts
  · refine fun name p => Batch.effect?_eq_none fun op hop hkey => ?_
    obtain rfl := List.mem_singleton.mp hop
    exact Key.document_ne_info_of hkey.symm

/-- **A rebuild that succeeds leaves of a document what it has found.** -/
theorem follows_accounted (hG : db.graph.IsCompiled) (rounds : Nat) :
    (db.rebuild rounds).Follows Ledger.protocol (fun report => Accounted db report.generation)
      Unsaid [] := by
  refine Failing.Follows.bind accounts_acquire ?_
  rintro taken _ ⟨current, rfl⟩
  refine Failing.Follows.bind (m := fun r h => ∀ p, r = .ok p → ∃ counter, Reads p.1 ∧
      Reads counter ∧ p.2 = Generation.successor (counter.map (·.1)) (p.1.map (·.1)) ∧
      h = [taken.storing current] ++ [p.2.counting (counter.map (·.2))])
    (Failing.Follows.outcome (accounts_prepare.mono ?_ fun _ _ _ => nofun)) ?_
  · rintro r h hr p ⟨⟩
    exact hr
  intro r h hr
  split
  · exact Failing.Follows.bind (Ledger.follows_any _) fun _ _ _ => trivial
  · next active g =>
    obtain ⟨counter, hactive, hcounter, hg, rfl⟩ := hr _ rfl
    refine Failing.Follows.bind (m := fun r h => ∀ report, r.1 = .ok report →
        report.generation = g ∧ Working db g
          ([taken.storing current] ++ [g.counting (counter.map (·.2))]) h)
      (Failing.Follows.lift (Program.Follows.mono (accounts_build hG) ?_)) ?_
    · rintro ⟨r, l⟩ h hr report rfl
      exact hr
    rintro ⟨built, lock⟩ h hbuilt
    cases built with
    | error e => exact Failing.Follows.bind (Ledger.follows_any _) fun _ _ _ => trivial
    | ok report =>
      obtain ⟨rfl, work, hwork, rfl⟩ := hbuilt report rfl
      refine Failing.Follows.bind (m := fun r h => r = .ok () → Accounted db report.generation h)
        (Failing.Follows.outcome (follows_write rfl (fun _ => ?_) nofun)) ?_
      · exact ⟨taken, lock, current, active, counter, work, hactive, hcounter, hg, hwork, rfl⟩
      intro r h hr
      split
      · exact hr rfl
      · exact Failing.Follows.bind (Ledger.follows_any _) fun _ _ _ => trivial

end Rebuild

end ContentIndex
