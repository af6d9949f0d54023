import ContentIndex.Proofs.Acquisition
import ContentIndex.Proofs.Reading

/-!
# Keeping the lock

A rebuild that holds the lock leaves it alone but for two things. It acquires the lock anew, at the
time at which it has looked at the clock last, and in place of its own lock; and in the end it gives
the lock back. All else that it writes are numbers and generations.

## Main definitions

* `Failing.Spares`: programs that leave the lock alone
* `Lock.Tenure`, `Lock.keeping`: what is done with a lock that is held
* `Building.Keeps`: steps of a rebuild that keep the lock

## Main results

* `Rebuild.follows_keeping`: **a rebuild keeps the lock that it has taken**
-/

namespace ContentIndex

variable {α β ε : Type}

/-! ### Programs that leave the lock alone -/

/-- The protocol of programs that do not write the lock. -/
def Lock.sparing : Protocol Unit where
  may _ e := e.question.Sound e.reply
  step _ e _ := e.effect? Key.lock.encode = none
  may_scan h := h
  cuts := True

instance : Lock.sparing.Lenient := ⟨fun h => Exchange.effect?_eq_none_of_applied? h.1 _⟩

namespace Failing

/-- The program does not write the lock. -/
abbrev Spares (t : Failing ε α) : Prop :=
  t.Follows Lock.sparing (fun _ _ => True) (fun _ _ => True) ()

theorem Spares.bind {t : Failing ε β} {f : β → Failing ε α} (h : t.Spares)
    (hf : ∀ b, (f b).Spares) : (t >>= f).Spares :=
  Follows.bind h fun b _ _ => hf b

theorem spares_write {b : Batch} (h : b.effect? Key.lock.encode = none) :
    (Storage.write b).Spares := by
  have hstep : Lock.sparing.step () ⟨.write b, .ok ()⟩ () := h
  exact follows_write hstep trivial fun _ => trivial

end Failing

/-- The batch writes generations only. -/
theorem Batch.effect?_lock_of_starts {b : Batch}
    (h : ∀ op ∈ b.ops, Key.generationsPrefix <+: op.key) : b.effect? Key.lock.encode = none :=
  Batch.effect?_eq_none fun op hop hkey => Key.not_starts_lock (hkey ▸ h op hop)

section Functions

variable {db : Database} {range : KeyRange}

theorem Generation.spares_stored? (key : Key) : (stored? key).Spares :=
  follows_stored? (fun _ _ _ => ⟨(), rfl, trivial⟩) fun _ _ _ _ => trivial

theorem Generation.spares_allocate (active : Option Generation) : (allocate active).Spares := by
  have honce : (allocateOnce active).Spares := by
    refine Failing.Spares.bind (spares_stored? _) fun counter => ?_
    refine Failing.Spares.bind (Failing.spares_write (Batch.effect?_eq_none fun op hop => ?_))
      fun _ => trivial
    rw [List.mem_singleton.mp hop]
    exact counter_ne_lock
  exact Failing.Follows.retrying
    (honce.mono (fun _ _ _ => trivial) fun _ _ _ => ⟨trivial, fun _ => rfl⟩) _

theorem Database.spares_prepare : prepare.Spares :=
  Failing.Spares.bind (Generation.spares_stored? _) fun _ =>
    Failing.Spares.bind (Generation.spares_allocate _) fun _ => trivial

theorem Generation.spares_info? (g : Generation) : (info? g).Spares := by
  refine Failing.Spares.bind (follows_get (fun _ => trivial) fun _ => trivial) fun v => ?_
  cases v with
  | none => trivial
  | some b =>
    simp only
    split <;> trivial

theorem Database.spares_retired? (active : Option Generation) : (retired? active).Spares := by
  cases active with
  | none => trivial
  | some g => exact Failing.Spares.bind (Generation.spares_info? g) fun _ => trivial

/-- Removal of what is in the generations. -/
theorem Storage.spares_clear (hrange : ∀ k, range.contains k → Key.generationsPrefix <+: k)
    (rounds : Nat) : (Storage.clear range rounds).Spares := by
  induction rounds with
  | zero => exact Failing.Follows.cut trivial
  | succ rounds ih =>
    refine Failing.Follows.bind (m := fun es _ => ∀ e ∈ es, range.contains e.1)
      (follows_scan (fun _ hes => hes) fun _ => trivial) ?_
    intro es _ hes
    split
    · trivial
    · refine Failing.Spares.bind (Failing.spares_write (Batch.effect?_lock_of_starts ?_)) fun _ =>
        Failing.Spares.bind ih fun _ => trivial
      intro op hop
      obtain ⟨e, he, rfl⟩ := List.mem_map.mp hop
      exact hrange _ (hes e he)

theorem Generation.spares_clearExcept (rounds : Nat) (keep : List Generation) :
    (clearExcept rounds keep).Spares :=
  Failing.Follows.forM (J := fun _ => True) (fun _ hrange _ _ =>
    Failing.Follows.discard (Storage.spares_clear
      (fun _ hk => (Key.not_prefix_of_mem_rangesExcept hrange hk).1) rounds)) trivial

theorem Generation.spares_clear (rounds : Nat) (g : Generation) : (clear rounds g).Spares :=
  Failing.Follows.discard (Storage.spares_clear
    (fun _ hk => Key.starts_of_generationPrefix (KeyRange.contains_ofPrefix_iff.mp hk)) rounds)

theorem spares_checkCancelled : checkCancelled.Spares :=
  Failing.Follows.mono (follows_checkCancelled (E := fun _ _ => True) trivial)
    (fun _ _ _ => trivial) fun _ _ _ => trivial

theorem Database.spares_documents (db : Database) : db.documents.Spares :=
  Failing.Follows.mono (Rebuild.follows_told (E := fun _ _ => True) trivial fun _ => trivial)
    (fun _ _ _ => trivial) fun _ _ _ => trivial

theorem Database.spares_writeFresh (g : Generation) (c : Graph.Collection) (path : String) :
    (db.writeFresh g c path).Spares := by
  refine Failing.Spares.bind (follows_program (Program.Follows.question fun r _ =>
    ⟨(), rfl, trivial⟩)) fun r => ?_
  split
  · trivial
  · trivial
  · split
    · trivial
    · refine Failing.Spares.bind (follows_storage (Failing.spares_write
        (Batch.effect?_lock_of_starts fun op hop => ?_))) fun _ => trivial
      obtain ⟨x, hx, rfl⟩ := List.mem_map.mp hop
      exact Key.starts_of_generationPrefix (Record.starts_of_mem_entries hx)

end Functions

/-! ### Keeping the lock -/

namespace Lock

/-- What is done with a lock that is held: the lock as it was acquired last, and the time at which
the clock was looked at last. -/
inductive Tenure : Option (Lock × Instant) → Exchange → Option (Lock × Instant) → Prop
  /-- The lock is left alone. -/
  | quiet {s : Option (Lock × Instant)} {e : Exchange} (h : e.effect? Key.lock.encode = none) :
    Tenure s e s
  /-- The clock is looked at. -/
  | look {l : Lock} {t t' : Instant} : Tenure (some (l, t)) ⟨.now, t'⟩ (some (l, t'))
  /-- The lock is acquired anew. -/
  | renew {l : Lock} {t : Instant} :
    Tenure (some (l, t)) (storing ⟨l.owner, t⟩ (some l.toBytes)) (some (⟨l.owner, t⟩, t))
  /-- The lock is given back. -/
  | giveBack {s : Option (Lock × Instant)} {e : Exchange}
    (h : e.effect? Key.lock.encode = some none) : Tenure s e none

/-- The protocol of what is done with a lock that is held. -/
def keeping : Protocol (Option (Lock × Instant)) where
  may _ e := e.question.Sound e.reply
  step := Tenure
  may_scan h := h
  cuts := True

instance : keeping.Lenient := ⟨fun h => .quiet (Exchange.effect?_eq_none_of_applied? h.1 _)⟩

/-- The lock is held. -/
def Holding (l : Lock) (s : Option (Lock × Instant)) : Prop := ∃ t, s = some (l, t)

end Lock

open Lock (Holding keeping)

/-- A program that leaves the lock alone leaves it to its holder. -/
theorem Program.Follows.keeping {t : Program α} {post : α → Unit → Prop}
    (h : t.Follows Lock.sparing post ()) (s : Option (Lock × Instant)) :
    t.Follows Lock.keeping (fun _ s' => s' = s) s := by
  induction t with
  | done a => rfl
  | ask q next ih =>
    intro r hr
    obtain ⟨_, hstep, hnext⟩ := h r hr
    exact ⟨s, .quiet hstep, ih r hnext⟩
  | cut => trivial

theorem Failing.Spares.keeping {t : Failing ε α} (h : t.Spares) (s : Option (Lock × Instant)) :
    t.Follows Lock.keeping (fun _ s' => s' = s) (fun _ s' => s' = s) s := by
  refine Program.Follows.mono (Program.Follows.keeping h s) fun r _ hr => ?_
  cases r <;> exact hr

namespace Building

/-- Whatever comes of it, the step of the rebuild holds the lock before and after. -/
def Keeps (t : Building α) : Prop :=
  ∀ l s, Holding l s →
    t.Follows Lock.keeping (fun _ => Holding) (fun _ => Holding) l s

theorem Keeps.bind {t : Building β} {f : β → Building α} (h : t.Keeps) (hf : ∀ b, (f b).Keeps) :
    (t >>= f).Keeps :=
  fun l s hs => Follows.bind (h l s hs) fun b l' s' hs' => hf b l' s' hs'

theorem keeps_pure (a : α) : (pure a : Building α).Keeps := fun _ _ hs => hs

theorem keeps_of_spares {t : Failing IndexError α} (h : t.Spares) :
    (liftM t : Building α).Keeps := by
  intro l s hs
  refine Follows.lift ((h.keeping s).mono ?_ ?_)
  · rintro _ _ rfl
    exact hs
  · rintro _ _ rfl
    exact hs

end Building

namespace Rebuild

open Building (keeps_of_spares keeps_pure)

variable {db : Database} {l : Lock} {s : Option (Lock × Instant)} {rounds : Nat} {g : Generation}

theorem keeping_beat {seconds : Nat} (hs : Holding l s) :
    (Lock.beat seconds l).Follows keeping Holding (fun _ => Holding l) s := by
  obtain ⟨t, rfl⟩ := hs
  refine Failing.Follows.bind (m := fun t s => s = some (l, t))
    (follows_program (Program.Follows.question fun t' _ => ⟨_, .look, rfl⟩)) ?_
  rintro t _ rfl
  split
  · exact ⟨t, rfl⟩
  · refine Failing.Follows.bind (m := fun r s => match r with
      | .ok _ => Holding ⟨l.owner, t⟩ s
      | .error _ => Holding l s)
      (Failing.Follows.outcome (follows_write .renew ⟨t, rfl⟩ fun _ => ⟨t, rfl⟩)) ?_
    intro r s hr
    split
    · exact hr
    · exact hr
    · exact hr

theorem keeps_keepLock (db : Database) : db.keepLock.Keeps := by
  intro l s hs
  refine Building.Follows.bind (m := fun held l' s => held = l' ∧ Holding l' s)
    (Building.Follows.get ⟨rfl, hs⟩) ?_
  rintro _ l s ⟨rfl, hs⟩
  refine Building.Follows.bind (m := fun l' _ s => Holding l' s)
    (Building.Follows.lift (keeping_beat hs)) ?_
  exact fun l' _ s hs => Building.Follows.set hs

theorem keeps_writeAll (todo : List (Graph.Collection × String)) (report : Report) :
    (db.writeAll g todo report).Keeps := by
  induction todo generalizing report with
  | nil => exact keeps_pure report
  | cons x rest ih =>
    exact (keeps_of_spares spares_checkCancelled).bind fun _ => (keeps_keepLock db).bind fun _ =>
      (keeps_of_spares (Database.spares_writeFresh g x.1 x.2)).bind fun _ => ih _

theorem keeps_build (active : Option Generation) : (db.build rounds active g).Keeps := by
  refine (keeps_of_spares (follows_storage (Database.spares_retired? active))).bind fun retired =>
    (keeps_of_spares (follows_storage (Generation.spares_clearExcept rounds _))).bind fun _ =>
      (keeps_of_spares db.spares_documents).bind fun work =>
        (keeps_writeAll work _).bind fun report =>
          (keeps_of_spares spares_checkCancelled).bind fun _ =>
            (keeps_of_spares (follows_storage (Failing.spares_write
              (Batch.effect?_lock_of_starts fun op hop => ?_)))).bind fun _ => keeps_pure report
  obtain rfl := List.mem_singleton.mp hop
  exact Key.starts_of_generationPrefix (List.prefix_append _ _)

theorem keeping_release (l : Lock) (s : Option (Lock × Instant)) :
    l.release.Follows keeping (fun _ _ => True) (fun _ _ => True) s := by
  refine Failing.Follows.bind (m := fun _ _ => True) (Failing.Follows.outcome
    (follows_write (.giveBack (l.effect?_releasing _)) trivial fun _ => trivial)) ?_
  intro r s _
  split <;> trivial

theorem keeping_abandon (l : Lock) (s : Option (Lock × Instant)) :
    (Database.abandon rounds g l).Follows keeping (fun _ _ => True) s := by
  have hrelease : ∀ s, (discard l.release.run : Program Unit).Follows keeping (fun _ _ => True) s :=
    fun s => Program.Follows.bind (keeping_release l s) fun _ _ _ => trivial
  refine Program.Follows.bind (Program.Follows.keeping (Generation.spares_stored? .active) s) ?_
  intro r s _
  cases r with
  | error e => exact hrelease s
  | ok active =>
    show Program.Follows _ _ (if active.map (·.1) ≠ some g then _ else _) s
    split
    · refine Program.Follows.bind (m := fun _ _ => True) (Program.Follows.bind
        (Program.Follows.keeping (Generation.spares_clear rounds g) s) fun _ _ _ => trivial) ?_
      exact fun _ s _ => hrelease s
    · exact hrelease s

/-- **A rebuild keeps the lock that it has taken.** -/
theorem follows_keeping (db : Database) (rounds : Nat) (hs : Holding l s) :
    (db.rebuildLocked rounds l).Follows keeping (fun _ _ => True) (fun _ _ => True) s := by
  have habandon : ∀ (g : Generation) (l : Lock) (s : Option (Lock × Instant)) (e : IndexError),
      Failing.Follows keeping (fun _ _ => True) (fun _ _ => True)
        (ExceptT.lift (Database.abandon rounds g l) >>= fun _ => throw e :
          Failing IndexError Report) s :=
    fun g l s e => Failing.Follows.bind (m := fun _ _ => True)
      (Failing.Follows.lift (keeping_abandon l s)) fun _ _ _ => trivial
  refine Failing.Follows.bind (m := fun _ s => Holding l s) (Failing.Follows.outcome
    ((Database.spares_prepare.keeping s).mono ?_ ?_)) ?_
  · rintro _ _ rfl
    exact hs
  · rintro _ _ rfl
    exact hs
  intro r s hs
  split
  · exact Failing.Follows.bind (m := fun _ _ => True) (Failing.Follows.outcome
      ((keeping_release l s).mono (fun _ _ _ => trivial) fun _ _ _ => trivial)) fun _ _ _ => trivial
  · next active g =>
    refine Failing.Follows.bind (m := fun r s => Holding r.2 s) ?_ ?_
    · refine Failing.Follows.lift (Program.Follows.mono (keeps_build _ l s hs) fun r s hr => ?_)
      obtain ⟨built, l'⟩ := r
      cases built <;> exact hr
    rintro ⟨built, l⟩ s hs
    cases built with
    | error e => exact habandon g l s e
    | ok report =>
      refine Failing.Follows.bind (m := fun _ _ => True) (Failing.Follows.outcome
        (follows_write (.giveBack ?_) trivial fun _ => trivial)) ?_
      · simp
      intro r s _
      split
      · trivial
      · exact habandon g l s _

end Rebuild

end ContentIndex
