import ContentIndex.Proofs.Interleaving
import ContentIndex.Proofs.RecordEntries
import ContentIndex.Proofs.UpdateProtocol

/-!
# Runs that share a store

Rebuilds and updates of any number of databases share a store. Outside of the generations the store
holds the active generation, the lock and the counter, and a run writes them in five ways only.

## Main definitions

* `Run`, `Run.program`, `Run.protocol`: rebuilds and updates
* `MetaStep`: how a step of a run shows outside of the generations

## Main results

* `Run.follows`: runs follow their protocols
* `Run.metaStep`: the steps of a run as they show outside of the generations
* `Rebuild.Step.cases_of_effect?`, `Update.Step.active_of_effect?`: what a run writes inside of them
-/

namespace ContentIndex

open Rebuild (Conditions Stage Work)

/-- A run of a database. -/
inductive Run
  /-- A rebuild; a clearing loop is cut off after so many rounds. -/
  | rebuild (db : Database) (rounds : Nat)
  /-- An update of paths. -/
  | update (db : Database) (paths : List String)

namespace Run

/-- The database of the run. -/
def database : Run → Database
  | rebuild db _ | update db _ => db

/-- The program of the run. -/
def program : Run → Program (Except IndexError Report)
  | rebuild db rounds => (db.rebuild rounds).run
  | update db paths => (db.update paths).run

/-- The protocol of the run. -/
def protocol (c : Conditions) : Run → Protocol Stage
  | rebuild db _ => Rebuild.protocol db c
  | update db _ => Update.protocol db c

instance (c : Conditions) : (r : Run) → (r.protocol c).Lenient
  | rebuild db _ => inferInstanceAs (Rebuild.protocol db c).Lenient
  | update db _ => inferInstanceAs (Update.protocol db c).Lenient

theorem follows (c : Conditions) (r : Run)
    (hnames : c.distinct → (r.database.graph.collections.map (·.name)).Nodup) :
    r.program.Follows (r.protocol c) (fun _ _ => True) .idle := by
  cases r with
  | rebuild db rounds =>
    exact Program.Follows.mono (Rebuild.follows db c rounds hnames) fun _ _ _ => trivial
  | update db paths =>
    exact Program.Follows.mono (Update.follows db c paths .idle) fun _ _ _ => trivial

end Run

/-- **Runs in turns take the course of their protocols**, if the protocols allow what they are
told. -/
theorem Run.course_of_allow {ι : Type} [DecidableEq ι] {runs : ι → Run} {c : Conditions}
    {store : Store} {trace : Trace ι} {w : World ι (Except IndexError Report)}
    (run : Interleaving (fun i => (runs i).program) store trace w)
    (hnames : ∀ i, c.distinct → ((runs i).database.graph.collections.map (·.name)).Nodup)
    (hallow : ∀ x ∈ trace, c.Allow (runs x.1).database x.2) :
    ∃ stages, Course (fun i => ((runs i).protocol c).step) (fun _ => .idle) store trace w.store
      stages := by
  obtain ⟨stages, course, -⟩ := run.exists_course (P := fun i => (runs i).protocol c)
    (fun i => Run.follows c (runs i) (hnames i)) fun x hx _ => by
      have hmay := hallow x hx
      generalize runs x.1 = r at hmay ⊢
      cases r with
      | rebuild db rounds => exact hmay
      | update db paths => exact hmay
  exact ⟨stages, course⟩

/-! ### Batches -/

/-- A batch leaves nothing under a key that it does not write. -/
theorem Batch.effect?_eq_none {b : Batch} {key : Bytes} (h : ∀ op ∈ b.ops, op.key ≠ key) :
    b.effect? key = none := by
  have : b.ops.reverse.find? (·.key = key) = none := by
    simpa using h
  rw [effect?, this]
  rfl

/-- What a batch leaves under a key, one of its operations leaves there. -/
theorem Batch.exists_of_effect? {b : Batch} {key : Bytes} {v : Option Bytes}
    (h : b.effect? key = some v) : ∃ op ∈ b.ops, op.key = key ∧ op.value? = v := by
  obtain ⟨op, hop, rfl⟩ := Option.map_eq_some_iff.mp h
  refine ⟨op, List.mem_reverse.mp (List.mem_of_find?_eq_some hop), ?_, rfl⟩
  exact of_decide_eq_true (List.find?_some (p := fun op : WriteOp => decide (op.key = key)) hop)

theorem Batch.effect?_put (key value : Bytes) :
    (ofOps [.put key value]).effect? key = some (some value) := by
  simp [ofOps, Batch.effect?, WriteOp.key, WriteOp.value?]

/-- A batch that puts entries in key order leaves these and nothing else. -/
theorem Batch.effect?_puts {es : List Entry} (h : Entries.Sorted es) (key : Bytes) :
    (ofOps (es.map fun x => .put x.1 x.2)).effect? key = (Entries.find? key es).map some := by
  induction es with
  | nil => rfl
  | cons x es ih =>
    obtain ⟨hfirst, hrest⟩ := List.pairwise_cons.mp h
    replace ih := ih hrest
    simp only [ofOps, Batch.effect?, List.map_cons, List.reverse_cons, List.find?_append,
      Option.map_or] at ih ⊢
    rw [ih]
    by_cases hk : key = x.1
    · subst hk
      rw [Entries.find?_eq_none_of_lt hfirst]
      simp [Entries.find?, WriteOp.key, WriteOp.value?]
    · have hk' : x.1 ≠ key := fun h => hk h.symm
      simp [Entries.find?, WriteOp.key, hk, hk']

/-- The exchange writes no key outside of the generations. -/
def Exchange.StaysInside (e : Exchange) : Prop :=
  ∀ b, e.applied? = some b → ∀ op ∈ b.ops, Key.generationsPrefix <+: op.key

theorem Exchange.StaysInside.effect? {e : Exchange} (h : e.StaysInside) {key : Bytes}
    (hkey : ¬ Key.generationsPrefix <+: key) : e.effect? key = none := by
  cases hb : e.applied? with
  | none => exact effect?_eq_none_of_applied? hb key
  | some b =>
    rw [Exchange.effect?, hb, Option.bind_some]
    exact Batch.effect?_eq_none fun op hop hk => hkey (hk ▸ h b hb op hop)

theorem Exchange.staysInside_of_applied? {e : Exchange} (h : e.applied? = none) :
    e.StaysInside := by
  intro b hb
  rw [h] at hb
  cases hb

theorem Exchange.staysInside_write {b : Batch}
    (h : ∀ op ∈ b.ops, Key.generationsPrefix <+: op.key) :
    StaysInside ⟨.write b, .ok ()⟩ := by
  rintro _ ⟨⟩
  exact h

theorem Key.starts_of_generationPrefix {g : Generation} {k : Bytes}
    (h : Key.generationPrefix g <+: k) : Key.generationsPrefix <+: k :=
  (Key.starts_generationPrefix g).trans h

/-! ### Steps outside of the generations -/

namespace Rebuild.Stage

/-- The owner of the lock, which is known before the lock is taken. -/
def owner? : Stage → Option String
  | named o => some o
  | s => s.lock?.map (·.owner)

/-- The lock has been taken, whatever came of it. -/
def hasLocked : Stage → Bool
  | idle | named _ => false
  | _ => true

/-- The active generation as it was found. -/
def active? : Stage → Option (Option (Generation × Bytes))
  | pointed _ active => some active
  | numbered w | building w | complete w => some w.active
  | _ => none

end Rebuild.Stage

/-- The exchange that stores a lock in place of what was stored. -/
def Lock.storing (l : Lock) (current : Option Bytes) : Exchange :=
  ⟨.write ⟨[.put Key.lock.encode l.toBytes], [⟨Key.lock.encode, current⟩]⟩, .ok ()⟩

/-- The exchange that counts on in place of what was counted. -/
def Generation.counting (g : Generation) (counter : Option Bytes) : Exchange :=
  ⟨.write ⟨[.put Key.counter.encode g.toBytes], [⟨Key.counter.encode, counter⟩]⟩, .ok ()⟩

/-- The exchange that gives a lock back. -/
def Lock.releasing (l : Lock) : Exchange :=
  ⟨.write ⟨[.delete Key.lock.encode], [⟨Key.lock.encode, some l.toBytes⟩]⟩, .ok ()⟩

/-- The exchange that swaps in the generation of a rebuild. -/
def Rebuild.Work.swapping (w : Work) : Exchange :=
  ⟨.write (Database.swap w.active w.number w.lock), .ok ()⟩

/-- How a step of a run shows outside of the generations. -/
inductive MetaStep : Stage → Exchange → Stage → Prop
  /-- Nothing is written outside of them. -/
  | inside {s s' : Stage} {e : Exchange} (he : e.StaysInside) (howner : s'.owner? = s.owner?)
    (hlock : s'.lock? = s.lock?) (hlocked : s'.hasLocked = s.hasLocked)
    (hnumber : s'.number? = s.number?) (hactive : s'.active? = s.active? ∨ s'.active? = none) :
    MetaStep s e s'
  /-- A name is given. -/
  | name {o : String} : MetaStep .idle ⟨.freshName, o⟩ (.named o)
  /-- The lock is taken. -/
  | acquire {l : Lock} {current : Option Bytes} :
    MetaStep (.named l.owner) (l.storing current) (.locked l)
  /-- The active generation is read. -/
  | point {l : Lock} {active : Option (Generation × Bytes)} (h : Generation.Reads active) :
    MetaStep (.locked l) ⟨.get Key.active.encode, .ok (active.map (·.2))⟩ (.pointed l active)
  /-- A number is taken. -/
  | count {l : Lock} {active counter : Option (Generation × Bytes)} {g : Generation}
    (h : Generation.Reads counter)
    (hg : g = Generation.successor (counter.map (·.1)) (active.map (·.1))) :
    MetaStep (.pointed l active) (g.counting (counter.map (·.2))) (.counted l active g)
  /-- The lock is acquired anew. -/
  | beat {w : Work} {t : Instant} :
    MetaStep (.building w) (Lock.storing ⟨w.lock.owner, t⟩ (some w.lock.toBytes))
      (.building { w with lock := ⟨w.lock.owner, t⟩ })
  /-- A generation becomes active, and the lock is given back. -/
  | swap {w : Work} : MetaStep (.complete w) w.swapping (.swapped w)
  /-- The lock is given back. -/
  | release {s : Stage} {l : Lock} (hl : s.lock? = some l) : MetaStep s l.releasing .ended

namespace Rebuild

variable {db : Database} {c : Conditions} {s s' : Stage} {e : Exchange}

/-- Stages agree in all that shows outside of the generations. -/
theorem metaStep_of_inside (he : e.StaysInside) (howner : s'.owner? = s.owner?)
    (hlock : s'.lock? = s.lock?) (hlocked : s'.hasLocked = s.hasLocked)
    (hnumber : s'.number? = s.number?) (hactive : s'.active? = s.active?) : MetaStep s e s' :=
  .inside he howner hlock hlocked hnumber (Or.inl hactive)

theorem Step.metaStep (h : Step db c s e s') : MetaStep s e s' := by
  cases h with
  | quiet h => exact metaStep_of_inside (Exchange.staysInside_of_applied? h) rfl rfl rfl rfl rfl
  | name => exact .name
  | acquire => exact .acquire
  | point h => exact .point h
  | count h hg => exact .count h hg
  | survey _ => exact metaStep_of_inside (Exchange.staysInside_of_applied? rfl) rfl rfl rfl rfl rfl
  | clear _ hkeys =>
    refine metaStep_of_inside (Exchange.staysInside_write fun op hop => ?_) rfl rfl rfl rfl rfl
    obtain ⟨k, hk, rfl⟩ := List.mem_map.mp hop
    exact (hkeys k hk).1
  | beat => exact .beat
  | document _ _ _ _ =>
    refine metaStep_of_inside (Exchange.staysInside_write fun op hop => ?_) rfl rfl rfl rfl rfl
    obtain ⟨x, hx, rfl⟩ := List.mem_map.mp hop
    exact Key.starts_of_generationPrefix (Record.starts_of_mem_entries hx)
  | inform =>
    refine metaStep_of_inside (Exchange.staysInside_write fun op hop => ?_) rfl rfl rfl rfl rfl
    obtain rfl := List.mem_singleton.mp hop
    exact Key.starts_of_generationPrefix (List.prefix_append _ _)
  | swap => exact .swap
  | giveUp hl hg _ _ =>
    refine .inside (Exchange.staysInside_of_applied? rfl) ?_ hl.symm ?_ hg.symm (Or.inr rfl)
    · cases s <;> simp_all [Stage.owner?, Stage.lock?]
    · cases s <;> simp_all [Stage.hasLocked, Stage.lock?]
  | drop hkeys =>
    refine metaStep_of_inside (Exchange.staysInside_write fun op hop => ?_) rfl rfl rfl rfl rfl
    obtain ⟨k, hk, rfl⟩ := List.mem_map.mp hop
    exact Key.starts_of_generationPrefix (hkeys k hk)
  | release hl => exact .release hl

end Rebuild

namespace Update

/-- A replacement writes keys of entries that it replaces or puts in their place. -/
theorem exists_mem_of_mem_replacement {old new : List Entry} {op : WriteOp}
    (h : op ∈ Database.replacement old new) : ∃ x, (x ∈ old ∨ x ∈ new) ∧ x.1 = op.key := by
  rcases List.mem_append.mp h with h | h
  · obtain ⟨x, hx, rfl⟩ := List.mem_map.mp h
    exact ⟨x, Or.inl (List.mem_filter.mp hx).1, rfl⟩
  · obtain ⟨x, hx, rfl⟩ := List.mem_map.mp h
    exact ⟨x, Or.inr hx, rfl⟩

theorem starts_of_mem_entriesOf {g : Generation} {col : Graph.Collection} {r : Option Record}
    {x : Entry} (h : x ∈ entriesOf g col r) : Key.generationPrefix g <+: x.1 := by
  cases r with
  | none => cases h
  | some r => exact Record.starts_of_mem_entries h

end Update

/-- An update writes inside of the generations only, and it has no stages. -/
theorem Update.Step.staysInside {db : Database} {c : Conditions} {s s' : Stage} {e : Exchange}
    (h : Update.Step db c s e s') : e.StaysInside ∧ s' = s := by
  cases h with
  | quiet h => exact ⟨Exchange.staysInside_of_applied? h, rfl⟩
  | replace =>
    refine ⟨Exchange.staysInside_write fun op hop => ?_, rfl⟩
    obtain ⟨x, hx, hkey⟩ := exists_mem_of_mem_replacement hop
    rw [← hkey]
    rcases hx with hx | hx
    · exact Key.starts_of_generationPrefix (starts_of_mem_entriesOf hx)
    · exact Key.starts_of_generationPrefix (starts_of_mem_entriesOf hx)

theorem Update.Step.metaStep {db : Database} {c : Conditions} {s s' : Stage} {e : Exchange}
    (h : Update.Step db c s e s') : MetaStep s e s' := by
  obtain ⟨he, rfl⟩ := h.staysInside
  exact Rebuild.metaStep_of_inside he rfl rfl rfl rfl rfl

/-- The steps of a run as they show outside of the generations. -/
theorem Run.metaStep {c : Conditions} {r : Run} {s s' : Stage} {e : Exchange}
    (h : (r.protocol c).step s e s') : MetaStep s e s' := by
  cases r with
  | rebuild db rounds => exact Rebuild.Step.metaStep h
  | update db paths => exact Update.Step.metaStep h

/-! ### Steps inside of generations -/

namespace Rebuild

variable {db : Database} {c : Conditions} {s s' : Stage} {e : Exchange}

/-- A rebuild that writes a key of a generation clears what it does not keep, writes into its own
generation, or drops that. -/
theorem Step.cases_of_effect? (h : Step db c s e s') {k : Bytes} {v : Option Bytes}
    (hk : Key.generationsPrefix <+: k) (he : e.effect? k = some v) :
    (∃ w, s = .building w ∧ s' = .building w ∧ v = none ∧
      ∀ g ∈ w.kept, ¬ Key.generationPrefix g <+: k) ∨
    (∃ w, s = .building w ∧ Key.generationPrefix w.number <+: k ∧ v ≠ none) ∨
    ∃ l g, s = .dropping l g ∧ s' = .dropping l g ∧ v = none ∧ Key.generationPrefix g <+: k := by
  cases h with
  | quiet h =>
    rw [Exchange.effect?_eq_none_of_applied? h] at he
    cases he
  | name => cases he
  | point => cases he
  | survey => cases he
  | giveUp => cases he
  | acquire =>
    obtain ⟨op, hop, rfl, -⟩ := Batch.exists_of_effect? he
    obtain rfl := List.mem_singleton.mp hop
    exact absurd hk Key.not_starts_lock
  | count =>
    obtain ⟨op, hop, rfl, -⟩ := Batch.exists_of_effect? he
    obtain rfl := List.mem_singleton.mp hop
    exact absurd hk Key.not_starts_counter
  | beat =>
    obtain ⟨op, hop, rfl, -⟩ := Batch.exists_of_effect? he
    obtain rfl := List.mem_singleton.mp hop
    exact absurd hk Key.not_starts_lock
  | release =>
    obtain ⟨op, hop, rfl, -⟩ := Batch.exists_of_effect? he
    obtain rfl := List.mem_singleton.mp hop
    exact absurd hk Key.not_starts_lock
  | swap =>
    obtain ⟨op, hop, rfl, -⟩ := Batch.exists_of_effect? he
    rcases List.mem_pair.mp hop with rfl | rfl
    · exact absurd hk Key.not_starts_active
    · exact absurd hk Key.not_starts_lock
  | @clear w keys hw hkeys =>
    obtain ⟨op, hop, rfl, rfl⟩ := Batch.exists_of_effect? he
    obtain ⟨k, hmem, rfl⟩ := List.mem_map.mp hop
    exact Or.inl ⟨w, rfl, rfl, rfl, (hkeys k hmem).2⟩
  | @document w col r hcol hname hgood hfresh =>
    obtain ⟨op, hop, rfl, rfl⟩ := Batch.exists_of_effect? he
    obtain ⟨x, hx, rfl⟩ := List.mem_map.mp hop
    exact Or.inr (Or.inl ⟨w, rfl, Record.starts_of_mem_entries hx, nofun⟩)
  | @inform w =>
    obtain ⟨op, hop, rfl, rfl⟩ := Batch.exists_of_effect? he
    obtain rfl := List.mem_singleton.mp hop
    exact Or.inr (Or.inl ⟨w, rfl, List.prefix_append _ _, nofun⟩)
  | @drop l g keys hkeys =>
    obtain ⟨op, hop, rfl, rfl⟩ := Batch.exists_of_effect? he
    obtain ⟨k, hmem, rfl⟩ := List.mem_map.mp hop
    exact Or.inr (Or.inr ⟨l, g, rfl, rfl, rfl, hkeys k hmem⟩)

end Rebuild

/-- An update writes into the active generation only. -/
theorem Update.Step.active_of_effect? {db : Database} {c : Conditions} {s s' : Stage} {e : Exchange}
    (h : Update.Step db c s e s') {k : Bytes} {v : Option Bytes} (he : e.effect? k = some v)
    {st st' : Store} (ha : st.Answers e st') :
    ∃ g : Generation, Key.generationPrefix g <+: k ∧
      st.get? Key.active.encode = some g.toBytes := by
  cases h with
  | quiet h =>
    rw [Exchange.effect?_eq_none_of_applied? h] at he
    cases he
  | @replace g =>
    obtain ⟨op, hop, rfl, -⟩ := Batch.exists_of_effect? he
    obtain ⟨x, hx, hkey⟩ := exists_mem_of_mem_replacement hop
    refine ⟨g, ?_, ha.guard_eq (List.mem_cons_of_mem _ (List.mem_singleton_self _))⟩
    rw [← hkey]
    rcases hx with hx | hx
    · exact starts_of_mem_entriesOf hx
    · exact starts_of_mem_entriesOf hx

end ContentIndex
