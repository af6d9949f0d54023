import ContentIndex.Proofs.Alone
import ContentIndex.Proofs.SwapSafety

/-!
# The first rebuild

Alone with documents, and with nothing stored yet, a rebuild comes to its end: the lock is free, no
number has been handed out, nothing is to be removed, and a document that cannot be indexed is left
out. All that is written on the way stays inside the new generation, so the guards of the swap hold.

## Main definitions

* `Store.SameOutside`: stores that differ in one generation only

## Main results

* `Database.exists_succeeds_rebuild`: **the first rebuild comes to its end, whatever the documents**
-/

namespace ContentIndex

open Source (Files)

/-- The stores hold the same outside the generation. -/
def Store.SameOutside (g : Generation) (s s' : Store) : Prop :=
  ∀ k, ¬ Key.generationPrefix g <+: k → s'.get? k = s.get? k

namespace Store.SameOutside

variable {g : Generation} {s s' s'' : Store}

theorem refl (s : Store) : SameOutside g s s := fun _ _ => rfl

theorem trans (h : SameOutside g s s') (h' : SameOutside g s' s'') : SameOutside g s s'' :=
  fun k hk => (h' k hk).trans (h k hk)

theorem lock (h : SameOutside g s s') : s'.get? Key.lock.encode = s.get? Key.lock.encode :=
  h _ fun hpre => Key.not_starts_lock (Key.starts_of_generationPrefix hpre)

theorem active (h : SameOutside g s s') : s'.get? Key.active.encode = s.get? Key.active.encode :=
  h _ fun hpre => Key.not_starts_active (Key.starts_of_generationPrefix hpre)

/-- Writes into the generation change nothing else. -/
theorem puts {es : List Entry} (h : ∀ e ∈ es, Key.generationPrefix g <+: e.1) :
    SameOutside g s ((Batch.ofOps (es.map fun e => .put e.1 e.2)).ops.foldl Store.apply s) := by
  intro k hk
  refine get?_foldl_apply_of_forall_ne fun op hop => ?_
  obtain ⟨e, he, rfl⟩ := List.mem_map.mp hop
  rintro rfl
  exact hk (h e he)

end Store.SameOutside

namespace Database

variable {db : Database} {fs : Files} {s : Store} {l : Lock} {rounds : Nat}

/-! ### Before the documents -/

/-- The lock is taken if it is free. -/
theorem succeeds_acquire {seconds : Nat} (hlock : s.get? Key.lock.encode = none) (l : Lock) :
    (Lock.acquire seconds).Succeeds fs s l (s.insert Key.lock.encode l.toBytes) := by
  refine Failing.Succeeds.bind (.storage .get) ?_
  rw [hlock]
  refine Failing.Succeeds.bind (.program (.done none s)) ?_
  refine Failing.Succeeds.bind (.program (.ask (.freshName l.owner) trivial (.done _ _))) ?_
  refine Failing.Succeeds.bind (.program (.ask (.now l.acquired) trivial (.done _ _))) ?_
  refine Failing.Succeeds.bind (.outcome (.write ?_)) .pure
  intro guard hguard
  obtain rfl := List.mem_singleton.mp hguard
  exact hlock

/-- Where nothing is to be removed, nothing is removed. -/
theorem succeeds_clearExcept {kept : List Generation}
    (hclear : ∀ range ∈ Generation.rangesExcept kept,
      s.scan range .forward Scan.defaultChunk = []) :
    (Generation.clearExcept (rounds + 1) kept).Succeeds fs s () s := by
  refine Failing.Succeeds.forM fun range hrange => ?_
  refine Failing.Succeeds.bind (a := 0) ?_ .pure
  refine Failing.Succeeds.bind (.ask (.scan range .forward _) trivial (.done _ _)) ?_
  rw [hclear range hrange]
  exact .pure

/-- Where no number is stored, the first one is handed out. -/
theorem succeeds_prepare_first (hactive : s.get? Key.active.encode = none)
    (hcounter : s.get? Key.counter.encode = none) :
    prepare.Succeeds fs s (none, 1)
      (s.insert Key.counter.encode (Generation.toBytes 1)) := by
  have hstored {key : Key} (h : s.get? key.encode = none) :
      (Generation.stored? key).Succeeds fs s none s := by
    refine Failing.Succeeds.bind .get ?_
    rw [h]
    exact .pure
  refine Failing.Succeeds.bind (hstored hactive) ?_
  refine Failing.Succeeds.bind (a := (1 : Generation)) ?_ .pure
  refine Failing.Succeeds.bind (.outcome (Failing.Succeeds.bind (hstored hcounter) ?_)) .pure
  refine Failing.Succeeds.bind (.write ?_) .pure
  intro guard hguard
  obtain rfl := List.mem_singleton.mp hguard
  exact hcounter

/-! ### The documents -/

variable (db fs)

/-- The documents are listed. -/
theorem exists_succeeds_documents (s : Store) :
    ∃ work, db.documents.Succeeds fs s work s := by
  have hlists : ∃ lists, Failing.Succeeds fs (db.graph.collections.mapM fun c => do
      return (← db.ownedPaths c).map (c, ·) : Failing IndexError _) s lists s := by
    induction db.graph.collections with
    | nil => exact ⟨[], .pure⟩
    | cons c cs ih =>
      obtain ⟨lists, hlists⟩ := ih
      rw [List.mapM_cons]
      have howned : (db.ownedPaths c).Succeeds fs s _ s :=
        .bind .checkCancelled (.bind (.program (.ask (.paths c.path _) rfl (.done _ _))) .pure)
      exact ⟨_, .bind (.bind howned .pure) (.bind hlists .pure)⟩
  obtain ⟨lists, hlists⟩ := hlists
  exact ⟨lists.flatten, .bind hlists .pure⟩

/-- A document is written into the new generation or left out. -/
theorem exists_succeeds_writeFresh (s : Store) (g : Generation) (c : Graph.Collection)
    (path : String) :
    ∃ x s', (db.writeFresh g c path).Succeeds fs s x s' ∧ s.SameOutside g s' := by
  have hcontent : Failing.Succeeds fs
      (liftM (Program.content path) : Failing IndexError (Except SourceError Bytes)) s
      (fs.get path) s :=
    .program (.ask (.content path _) rfl (.done _ _))
  cases hget : fs.get path with
  | error e =>
    rw [hget] at hcontent
    cases e <;> exact ⟨_, s, .bind hcontent .pure, .refl s⟩
  | ok content =>
    rw [hget] at hcontent
    cases hrecord : db.record c path content with
    | error reason =>
      refine ⟨(.skipped reason, []), s, .bind hcontent ?_, .refl s⟩
      simp only [hrecord]
      exact .pure
    | ok x =>
      refine ⟨(.indexed, x.2.map (.document path)), _, .bind hcontent ?_,
        .puts fun e he => Record.starts_of_mem_entries (r := x.1) (c := c) he⟩
      simp only [hrecord]
      exact .bind (.storage (.write nofun)) .pure

/-- The lock is kept by its owner. -/
theorem exists_succeeds_keepLock (g : Generation) (hlock : s.get? Key.lock.encode = some l.toBytes) :
    ∃ s', Building.Succeeds fs db.keepLock l s () s' ∧ s.SameOutside g s' := by
  -- no time passes, and then a lock that is acquired anew is the same
  have hbeat : ∃ s', (Lock.beat db.settings.lockSeconds l).Succeeds fs s l s' ∧
      s.SameOutside g s' := by
    have hnow {β : Type} {f : Instant → Failing IndexError β} {b : β} {s' : Store}
        (h : (f l.acquired).Succeeds fs s b s') : (liftM Program.now >>= f).Succeeds fs s b s' :=
      .bind (.program (.ask (.now l.acquired) trivial (.done _ _))) h
    by_cases hdue : l.isDue db.settings.lockSeconds l.acquired
    · refine ⟨s.insert Key.lock.encode l.toBytes, hnow ?_, fun k _ => ?_⟩
      · simp only [hdue, Bool.not_true, Bool.false_eq_true, if_false]
        refine .bind (.outcome (.write fun guard hguard => ?_)) .pure
        obtain rfl := List.mem_singleton.mp hguard
        exact hlock
      · rw [OrderedMap.get?_insert]
        split
        · next h => rw [h, hlock]
        · rfl
    · refine ⟨s, hnow ?_, .refl s⟩
      simp only [hdue, Bool.not_false, if_true]
      exact .pure
  obtain ⟨s', hbeat, hsame⟩ := hbeat
  exact ⟨s', Building.Succeeds.bind (.done _ _) (Building.Succeeds.bind (.lift hbeat) (.done _ _)),
    hsame⟩

/-- One document after another is written. -/
theorem exists_succeeds_writeAll (g : Generation) (work : List (Graph.Collection × String))
    (report : Report) (hlock : s.get? Key.lock.encode = some l.toBytes) :
    ∃ report' s', Building.Succeeds fs (db.writeAll g work report) l s report' s' ∧
      s.SameOutside g s' := by
  induction work generalizing s report with
  | nil => exact ⟨report, s, .pure, .refl s⟩
  | cons x rest ih =>
    obtain ⟨c, path⟩ := x
    obtain ⟨s₁, hkeep, hsame₁⟩ := exists_succeeds_keepLock db fs g hlock
    obtain ⟨⟨outcome, notices⟩, s₂, hwrite, hsame₂⟩ := exists_succeeds_writeFresh db fs s₁ g c path
    have hsame := hsame₁.trans hsame₂
    obtain ⟨report', s₃, hrest, hsame₃⟩ := ih (report.add path outcome notices)
      (hsame.lock.trans hlock)
    exact ⟨report', s₃, .bind (.lift .checkCancelled) (.bind hkeep (.bind (.lift hwrite) hrest)),
      hsame.trans hsame₃⟩

/-! ### The rebuild -/

variable (rounds)

/-- The new generation is written if no other is stored. -/
theorem exists_succeeds_build (g : Generation) (hlock : s.get? Key.lock.encode = some l.toBytes)
    (hnone : ∀ k, Key.generationsPrefix <+: k → s.get? k = none) :
    ∃ report s', Building.Succeeds fs (db.build (rounds + 1) none g) l s report s' ∧
      s.SameOutside g s' := by
  have hclear : ∀ range ∈ Generation.rangesExcept ([] ++ [] ++ [g]),
      s.scan range .forward Scan.defaultChunk = [] := by
    intro range hrange
    refine List.eq_nil_iff_forall_not_mem.mpr fun e he => ?_
    obtain ⟨hget, hin⟩ := Store.mem_scan he
    rw [hnone _ (Key.not_prefix_of_mem_rangesExcept hrange hin).1] at hget
    cases hget
  obtain ⟨work, hwork⟩ := exists_succeeds_documents db fs s
  obtain ⟨report, s', hwrite, hsame⟩ := exists_succeeds_writeAll db fs g work { generation := g } hlock
  have hinfo (b : Bytes) : s'.SameOutside g (s'.insert (Key.info g).encode b) := by
    intro k hk
    rw [OrderedMap.get?_insert, if_neg]
    rintro rfl
    exact hk Key.info_starts
  refine ⟨report, _, ?_, hsame.trans (hinfo
    (GenerationInfo.mk g db.graph.version db.graph.typeText none).toBytes)⟩
  refine Building.Succeeds.bind (.lift (.storage .pure)) ?_
  refine Building.Succeeds.bind (.lift (.storage (succeeds_clearExcept hclear))) ?_
  refine Building.Succeeds.bind (.lift hwork) ?_
  refine Building.Succeeds.bind hwrite ?_
  refine Building.Succeeds.bind (.lift .checkCancelled) ?_
  exact Building.Succeeds.bind (.lift (.storage (.write nofun))) .pure

/-- **The first rebuild comes to its end**, whatever the documents. -/
theorem exists_succeeds_rebuild :
    ∃ report s, (db.rebuild (rounds + 1)).Succeeds fs OrderedMap.empty report s := by
  obtain ⟨l⟩ : Nonempty Lock := ⟨default⟩
  let locked : Store := OrderedMap.empty.insert Key.lock.encode l.toBytes
  let counted : Store := locked.insert Key.counter.encode (Generation.toBytes 1)
  have hlocked {k : Bytes} (hk : k ≠ Key.lock.encode) : locked.get? k = none := by
    rw [OrderedMap.get?_insert, if_neg hk]
    rfl
  have hcounted {k : Bytes} (hk : k ≠ Key.lock.encode) (hk' : k ≠ Key.counter.encode) :
      counted.get? k = none := by
    rw [OrderedMap.get?_insert, if_neg hk', hlocked hk]
  have hlock : counted.get? Key.lock.encode = some l.toBytes := by
    rw [OrderedMap.get?_insert, if_neg lock_ne_counter, OrderedMap.get?_insert, if_pos rfl]
  have hnone (k : Bytes) (hk : Key.generationsPrefix <+: k) : counted.get? k = none := by
    refine hcounted ?_ ?_
    · rintro rfl
      exact Key.not_starts_lock hk
    · rintro rfl
      exact Key.not_starts_counter hk
  have hacquire : (Lock.acquire db.settings.lockSeconds).Succeeds fs OrderedMap.empty l locked :=
    succeeds_acquire rfl l
  have hprepare : prepare.Succeeds fs locked (none, 1) counted :=
    succeeds_prepare_first (hlocked lock_ne_active.symm) (hlocked lock_ne_counter.symm)
  obtain ⟨report, built, hbuild, hsame⟩ := exists_succeeds_build db fs rounds 1 hlock hnone
  have hguards : ∀ guard ∈ (swap none 1 l).guards, built.get? guard.key = guard.expected := by
    refine List.forall_mem_cons.mpr ⟨?_, List.forall_mem_singleton.mpr ?_⟩
    · exact hsame.active.trans (hcounted lock_ne_active.symm active_ne_counter)
    · exact hsame.lock.trans hlock
  refine ⟨report, (swap none 1 l).ops.foldl Store.apply built, ?_⟩
  refine Failing.Succeeds.bind hacquire ?_
  refine Failing.Succeeds.bind (.outcome hprepare) ?_
  refine Failing.Succeeds.bind (.program hbuild) ?_
  exact Failing.Succeeds.bind (.outcome (.write hguards)) .pure

end Database

end ContentIndex
