import ContentIndex.Proofs.Consistency
import ContentIndex.Proofs.Ranges

/-!
# Locks of processes that have ended

A rebuild that stops for good, or that fails to give its lock back, leaves the lock behind, and
another one takes it over in time. If the first does nothing any more by then, then it might as well
have given its lock back: the run is one without a takeover, but for the lock itself.

## Main definitions

* `HeldToEnd`: locks are taken over only from processes that have come to their end

## Main results

* `exists_retold_of_course`: **such runs are like runs where no lock is taken over**
-/

namespace ContentIndex

open Rebuild (Conditions Stage Work MetaCourse)

variable {ι : Type}

/-- Each process holds its lock to its end: a lock is stored in place of another one by the process
that has stored that one, or after all that this process does. -/
def HeldToEnd (trace : Trace ι) : Prop :=
  ∀ before i l b after, trace = before ++ (i, Lock.storing l (some b)) :: after →
    ∀ x ∈ before, x.2.effect? Key.lock.encode = some (some b) →
      x.1 = i ∨ ∀ y ∈ after, y.1 ≠ x.1

variable [DecidableEq ι] {runs : ι → Run} {c : Conditions} {trace rest : Trace ι} {s s' : Store}
  {stages : ι → Stage} {i j : ι} {e : Exchange} {stage : Stage} {b : Bytes} {l : Lock}

/-! ### Who holds a lock -/

/-- A lock that is stored is held. -/
theorem exists_holder_of_course (course : MetaCourse OrderedMap.empty trace s stages)
    (hb : s.get? Key.lock.encode = some b) :
    ∃ i l, (stages i).lock? = some l ∧ l.toBytes = b := by
  induction course with
  | start => cases hb
  | @next trace s s' stages j e stage course ha hstep ih =>
    -- a step that leaves the lock as it is leaves its holder in its place
    have hsame (he : e.effect? Key.lock.encode = none) (hlock : stage.lock? = (stages j).lock?) :
        ∃ i l, (Function.update stages j stage i).lock? = some l ∧ l.toBytes = b := by
      obtain ⟨i, l, hl, hlb⟩ := ih (ha.get?_eq_of_effect? he ▸ hb)
      refine ⟨i, l, ?_, hlb⟩
      by_cases hij : i = j
      · subst hij
        rw [Function.update_self, hlock, hl]
      · rw [Function.update_of_ne hij, hl]
    have hself (l : Lock) (hl : stage.lock? = some l)
        (he : e.effect? Key.lock.encode = some (some l.toBytes)) :
        ∃ i l, (Function.update stages j stage i).lock? = some l ∧ l.toBytes = b := by
      refine ⟨j, l, by rw [Function.update_self, hl], ?_⟩
      rw [ha.get?_eq, he] at hb
      exact Option.some.inj hb
    have hgone (he : e.effect? Key.lock.encode = some none) : False := by
      rw [ha.get?_eq, he] at hb
      cases hb
    generalize hj : stages j = old at hstep
    cases hstep with
    | inside he _ hlock _ _ _ => exact hsame (he.effect? Key.not_starts_lock) (hj ▸ hlock)
    | name => exact hsame rfl (hj ▸ rfl)
    | @acquire l => exact hself l rfl (by simp)
    | point => exact hsame rfl (hj ▸ rfl)
    | count => exact hsame (by simp) (by rw [hj, Rebuild.lock?_counted]; rfl)
    | @beat w t => exact hself ⟨w.lock.owner, t⟩ rfl (by simp)
    | swap => exact (hgone (by simp)).elim
    | release => exact (hgone (by simp)).elim

/-- Who holds a lock has stored it. -/
theorem exists_storing_of_lock? (course : MetaCourse OrderedMap.empty trace s stages)
    (hl : (stages i).lock? = some l) :
    ∃ x ∈ trace, x.1 = i ∧ x.2.effect? Key.lock.encode = some (some l.toBytes) := by
  induction course with
  | start => cases hl
  | @next trace s s' stages j e stage course ha hstep ih =>
    have hbefore (h : (stages i).lock? = some l) : ∃ x ∈ trace ++ [(j, e)], x.1 = i ∧
        x.2.effect? Key.lock.encode = some (some l.toBytes) := by
      obtain ⟨x, hx, hxi⟩ := ih h
      exact ⟨x, List.mem_append_left _ hx, hxi⟩
    by_cases hij : i = j
    · subst hij
      rw [Function.update_self] at hl
      have hnow (he : e.effect? Key.lock.encode = some (some l.toBytes)) :
          ∃ x ∈ trace ++ [(i, e)], x.1 = i ∧
            x.2.effect? Key.lock.encode = some (some l.toBytes) :=
        ⟨(i, e), List.mem_append_right _ (List.mem_singleton_self _), rfl, he⟩
      generalize hi : stages i = old at hstep hbefore
      cases hstep with
      | inside _ _ hlock _ _ _ => exact hbefore (hlock ▸ hl)
      | name => cases hl
      | acquire =>
        cases hl
        exact hnow (by simp)
      | point => exact hbefore hl
      | count =>
        rw [Rebuild.lock?_counted] at hl
        exact hbefore hl
      | beat =>
        cases hl
        exact hnow (by simp)
      | swap => cases hl
      | release => cases hl
    · rw [Function.update_of_ne hij] at hl
      exact hbefore hl

/-- Who holds a lock rebuilds. -/
theorem exists_rebuild_of_lock? (course : RunCourse runs c trace s stages)
    (hl : (stages i).lock? = some l) : ∃ db rounds, runs i = .rebuild db rounds := by
  cases hi : runs i with
  | rebuild db rounds => exact ⟨db, rounds, rfl⟩
  | update db paths =>
    suffices h : stages i = .idle by
      rw [h] at hl
      cases hl
    clear hl
    induction course with
    | start => rfl
    | @next trace s s' stages j e stage course ha hstep ih =>
      by_cases hij : i = j
      · subst hij
        rw [hi] at hstep
        rw [Function.update_self, (Update.Step.staysInside hstep).2, ih]
      · rw [Function.update_of_ne hij, ih]

omit [DecidableEq ι] in
/-- A process that stores a lock and does not hold one acquires it, over whatever is stored. -/
theorem Run.step_storing {r : Run} {old : Stage} {current : Option Bytes}
    (h : (r.protocol c).step old (l.storing current) stage) (hold : old.lock? = none)
    (current' : Option Bytes) : (r.protocol c).step old (l.storing current') stage := by
  cases r with
  | update db paths =>
    have := (Update.Step.staysInside h).1.effect? Key.not_starts_lock
    simp at this
  | rebuild db rounds =>
    have hmeta : MetaStep old (l.storing current) stage := Rebuild.Step.metaStep h
    generalize he : l.storing current = e at hmeta
    cases hmeta with
    | inside hinside =>
      have := hinside.effect? Key.not_starts_lock
      simp [← he] at this
    | @acquire l' current'' =>
      have hl : l.storing current' = l'.storing current' := by
        simp [Lock.storing] at he ⊢
        exact he.1
      rw [hl]
      exact .acquire
    | beat => cases hold
    | _ =>
      simp [Lock.storing, Lock.releasing, Generation.counting, Work.swapping, Database.swap] at he

/-! ### A lock that might as well have been given back -/

/-- A run that is like another one but for the lock, seen before the exchanges that are still to
come. -/
structure Retold (runs : ι → Run) (c : Conditions) (trace rest : Trace ι) (s : Store)
    (stages : ι → Stage) (trace' : Trace ι) (stages' : ι → Stage) : Prop where
  /-- It leads to the same store. -/
  course : RunCourse runs c trace' s stages'
  /-- No lock is taken over. -/
  alone : NoTakeover trace'
  /-- The same is written. -/
  written : ∀ key, key ≠ Key.lock.encode → written trace' key = written trace key
  /-- The same locks are stored. -/
  locks : ∀ i b, (∃ x ∈ trace', x.1 = i ∧ x.2.effect? Key.lock.encode = some (some b)) ↔
    ∃ x ∈ trace, x.1 = i ∧ x.2.effect? Key.lock.encode = some (some b)
  /-- Whoever goes on is at the same stage. -/
  same : ∀ i, stages' i = stages i ∨ ∀ x ∈ rest, x.1 ≠ i

namespace Retold

variable {trace' : Trace ι} {stages' : ι → Stage}

/-- The process whose turn it is is at the same stage. -/
theorem stage_eq (h : Retold runs c trace ((j, e) :: rest) s stages trace' stages') :
    stages' j = stages j := by
  rcases h.same j with heq | hne
  · exact heq
  · exact absurd rfl (hne (j, e) (List.mem_cons_self ..))

/-- The other processes that go on stay at the same stages. -/
theorem same_update (h : ∀ i, i ≠ j → stages' i = stages i ∨ ∀ x ∈ rest, x.1 ≠ i) (i : ι) :
    Function.update stages' j stage i = Function.update stages j stage i ∨
      ∀ x ∈ rest, x.1 ≠ i := by
  by_cases hij : i = j
  · subst hij
    left
    rw [Function.update_self, Function.update_self]
  · rw [Function.update_of_ne hij, Function.update_of_ne hij]
    exact h i hij

/-- An exchange that does not take a lock over from somebody else. -/
theorem concat (h : Retold runs c trace ((j, e) :: rest) s stages trace' stages')
    (ha : s.Answers e s') (hstep : ((runs j).protocol c).step (stages j) e stage)
    (hown : ∀ l b, e = Lock.storing l (some b) →
      ∃ x ∈ trace', x.1 = j ∧ x.2.effect? Key.lock.encode ≠ none) :
    Retold runs c (trace ++ [(j, e)]) rest s' (Function.update stages j stage)
      (trace' ++ [(j, e)]) (Function.update stages' j stage) := by
  refine ⟨h.course.next ha (h.stage_eq ▸ hstep), h.alone.concat hown, ?_, ?_,
    same_update fun i _ => ?_⟩
  · intro key hkey
    rw [written_concat, written_concat, h.written key hkey]
  · intro i b
    simp only [List.mem_append, or_and_right, exists_or, h.locks i b]
  · rcases h.same i with heq | hne
    · exact Or.inl heq
    · exact Or.inr fun x hx => hne x (List.mem_cons_of_mem _ hx)

/-- A lock that somebody has left behind is given back before it is taken. -/
theorem takeover (h : Retold runs c trace ((j, l.storing (some b)) :: rest) s stages trace' stages')
    (ha : s.Answers (l.storing (some b)) s')
    (hstep : ((runs j).protocol c).step (stages j) (l.storing (some b)) stage)
    {l' : Lock} (hij : i ≠ j) (hi : (stages' i).lock? = some l') (hb : l'.toBytes = b)
    (hended : ∀ y ∈ rest, y.1 ≠ i) :
    Retold runs c (trace ++ [(j, l.storing (some b))]) rest s' (Function.update stages j stage)
      (trace' ++ [(i, l'.releasing)] ++ [(j, l.storing none)])
      (Function.update (Function.update stages' i .ended) j stage) := by
  have hstored : s.get? Key.lock.encode = some l'.toBytes := by
    rw [Lock.stored_of_storing ha, hb]
  have hs' := ha.eq_of_write
  -- the lock is given back, and then stored where nothing is
  have hreleased : s.Answers l'.releasing (s.apply (.delete Key.lock.encode)) :=
    .write (Store.write_eq_ok_iff.mpr ⟨by simpa using hstored, rfl⟩)
  have hacquired : (s.apply (.delete Key.lock.encode)).Answers (l.storing none) s' := by
    refine .write (Store.write_eq_ok_iff.mpr ⟨?_, ?_⟩)
    · simp [WriteOp.value?, WriteOp.key]
    · refine hs'.trans (Store.eq_of_get? fun k => ?_)
      by_cases hk : k = Key.lock.encode <;> simp [WriteOp.value?, WriteOp.key, hk]
  obtain ⟨db, rounds, hrun⟩ := exists_rebuild_of_lock? h.course hi
  have hrelease : ((runs i).protocol c).step (stages' i) l'.releasing .ended := by
    rw [hrun]
    exact .release hi
  have hacquire : ((runs j).protocol c).step (Function.update stages' i .ended j)
      (l.storing none) stage := by
    rw [Function.update_of_ne hij.symm, h.stage_eq]
    refine Run.step_storing hstep ?_ none
    rw [← h.stage_eq, ← Option.not_isSome_iff_eq_none]
    intro hj
    refine hij ((Rebuild.exclusive_of_course h.course.metaCourse h.alone).alone i j ?_ hj)
    rw [hi]
    rfl
  refine ⟨(h.course.next hreleased hrelease).next hacquired hacquire, ?_, ?_, ?_,
    same_update fun k hkj => ?_⟩
  · refine (h.alone.concat ?_).concat ?_
    · simp [Lock.releasing, Lock.storing]
    · simp [Lock.storing]
  · intro key hkey
    have hkey' : Key.lock.encode ≠ key := hkey.symm
    rw [written_concat, written_concat, written_concat, h.written key hkey]
    simp [hkey']
  · intro k v
    simp only [List.mem_append, or_and_right, exists_or, h.locks k v]
    simp
  · by_cases hki : k = i
    · exact Or.inr (hki ▸ hended)
    · rw [Function.update_of_ne hki]
      rcases h.same k with heq | hne
      · exact Or.inl heq
      · exact Or.inr fun x hx => hne x (List.mem_cons_of_mem _ hx)

end Retold

/-- **Runs where locks are taken over only from processes that have come to their end are like runs
where no lock is taken over.** -/
theorem exists_retold_of_course (course : RunCourse runs c trace s stages)
    (hheld : HeldToEnd (trace ++ rest)) :
    ∃ trace' stages', Retold runs c trace rest s stages trace' stages' := by
  induction course generalizing rest with
  | start =>
    refine ⟨[], _, .start, ?_, fun _ _ => rfl, fun _ _ => Iff.rfl, fun _ => Or.inl rfl⟩
    simp [NoTakeover]
  | @next trace s s' stages j e stage course ha hstep ih =>
    rw [List.append_assoc] at hheld
    obtain ⟨trace', stages', h⟩ := ih hheld
    by_cases htaken : ∃ l b i l', e = Lock.storing l (some b) ∧ i ≠ j ∧
        (stages' i).lock? = some l' ∧ l'.toBytes = b
    · obtain ⟨l, b, i, l', rfl, hij, hi, hb⟩ := htaken
      refine ⟨_, _, h.takeover ha hstep hij hi hb ?_⟩
      obtain ⟨x, hx, hxi, hxb⟩ :=
        (h.locks i b).mp (hb ▸ exists_storing_of_lock? h.course.metaCourse hi)
      rcases hheld trace j l b rest rfl x hx hxb with hxj | hended
      · exact absurd (hxi.symm.trans hxj) hij
      · exact hxi ▸ hended
    · refine ⟨_, _, h.concat ha hstep fun l b he => ?_⟩
      subst he
      obtain ⟨i, l', hi, hb⟩ := exists_holder_of_course h.course.metaCourse
        (Lock.stored_of_storing ha)
      have hij : i = j := by
        by_contra hij
        exact htaken ⟨l, b, i, l', rfl, hij, hi, hb⟩
      obtain ⟨x, hx, hxi, hxb⟩ := exists_storing_of_lock? h.course.metaCourse hi
      exact ⟨x, hx, hxi.trans hij, by rw [hxb]; nofun⟩

end ContentIndex
