import ContentIndex.Proofs.SwapSafety

/-!
# One holder of the lock

As long as no lock is taken over, a rebuild that has taken the lock has it to itself until it gives
the lock back. Nobody else swaps meanwhile, so the active generation is the one that the rebuild has
found.

## Main definitions

* `NoTakeover`: no lock is taken over
* `Rebuild.Exclusive`: one process at most holds the lock, and knows the active generation

## Main results

* `Rebuild.exclusive_of_course`: **locks exclude each other unless they are taken over**
-/

namespace ContentIndex

open Rebuild (Stage Work MetaCourse)

variable {ι : Type}

/-- A process that stores a lock in place of another one has written the lock before: it acquires
its own lock anew. -/
def NoTakeover (trace : Trace ι) : Prop :=
  ∀ before i l b after, trace = before ++ (i, Lock.storing l (some b)) :: after →
    ∃ x ∈ before, x.1 = i ∧ x.2.effect? Key.lock.encode ≠ none

theorem NoTakeover.of_append {trace trace' : Trace ι} (h : NoTakeover (trace ++ trace')) :
    NoTakeover trace := by
  rintro before i l b after rfl
  exact h before i l b (after ++ trace') (by simp)

/-- Where each single write has no guard on the lock, or one that no lock is stored, no lock is stored
in place of another one. -/
theorem not_mem_storing {trace : Trace ι}
    (h : ∀ x ∈ trace, ∀ b ∈ x.2.applied?, b.ops.length = 1 →
      ⟨Key.lock.encode, none⟩ ∈ b.guards ∨ b.guards.all (·.key ≠ Key.lock.encode))
    (i : ι) (l : Lock) (b : Bytes) : (i, Lock.storing l (some b)) ∉ trace := by
  intro hx
  have := h _ hx _ rfl rfl
  simp [Guard.mk.injEq] at this

/-- An exchange that does not take a lock over from somebody else. -/
theorem NoTakeover.concat {trace : Trace ι} {j : ι} {e : Exchange} (h : NoTakeover trace)
    (hown : ∀ l b, e = Lock.storing l (some b) →
      ∃ x ∈ trace, x.1 = j ∧ x.2.effect? Key.lock.encode ≠ none) :
    NoTakeover (trace ++ [(j, e)]) := by
  intro before i l b after htrace
  rcases List.eq_nil_or_concat after with rfl | ⟨after, x, rfl⟩
  · obtain ⟨rfl, hx⟩ := List.append_inj' htrace rfl
    obtain ⟨rfl, rfl⟩ := Prod.mk.inj (List.cons.inj hx).1
    exact hown l b rfl
  · rw [List.concat_eq_append, ← List.cons_append, ← List.append_assoc] at htrace
    exact h before i l b after (List.append_inj' htrace rfl).1

namespace Rebuild

/-- One process at most holds the lock, which is stored then. The active generation that it has
found is still the active one. -/
structure Exclusive (s : Store) (stages : ι → Stage) : Prop where
  /-- A lock that is held is stored. -/
  stored : ∀ i l, (stages i).lock? = some l → s.get? Key.lock.encode = some l.toBytes
  /-- Nobody else holds it. -/
  alone : ∀ i j, (stages i).lock?.isSome → (stages j).lock?.isSome → i = j
  /-- What was found is active. -/
  found : ∀ i active, (stages i).active? = some active →
    s.get? Key.active.encode = active.map (·.2)

theorem Stage.isSome_lock?_of_active? {stage : Stage} {active : Option (Generation × Bytes)}
    (h : stage.active? = some active) : stage.lock?.isSome := by
  cases stage <;> first | rfl | cases h

variable [DecidableEq ι] {trace : Trace ι} {s s' : Store} {stages : ι → Stage} {i j : ι}
  {e : Exchange} {stage : Stage}

/-- A step that leaves the lock and the active generation as they are. -/
theorem Exclusive.concat (h : Exclusive s stages) (ha : s.Answers e s')
    (hlock : e.effect? Key.lock.encode = none) (hactive : e.effect? Key.active.encode = none)
    (hsame : stage.lock? = (stages j).lock?)
    (hfound : ∀ active, stage.active? = some active → (stages j).active? = some active ∨
      s.get? Key.active.encode = active.map (·.2)) :
    Exclusive s' (Function.update stages j stage) := by
  have hsame' (i : ι) : (Function.update stages j stage i).lock? = (stages i).lock? := by
    by_cases hij : i = j
    · subst hij
      rw [Function.update_self, hsame]
    · rw [Function.update_of_ne hij]
  constructor
  · intro i l hl
    rw [ha.get?_eq_of_effect? hlock]
    exact h.stored i l (hsame' i ▸ hl)
  · intro i k hi hk
    exact h.alone i k (hsame' i ▸ hi) (hsame' k ▸ hk)
  · intro i active hi
    rw [ha.get?_eq_of_effect? hactive]
    by_cases hij : i = j
    · subst hij
      rw [Function.update_self] at hi
      rcases hfound active hi with hi | hi
      · exact h.found i active hi
      · exact hi
    · rw [Function.update_of_ne hij] at hi
      exact h.found i active hi

/-- Only the process `j` can hold the lock, and it knows the active generation. -/
theorem exclusive_of_alone (hothers : ∀ i, i ≠ j → (stages i).lock? = none)
    (hstored : ∀ l, stage.lock? = some l → s'.get? Key.lock.encode = some l.toBytes)
    (hfound : ∀ active, stage.active? = some active →
      s'.get? Key.active.encode = active.map (·.2)) :
    Exclusive s' (Function.update stages j stage) := by
  have heq (i : ι) (hi : (Function.update stages j stage i).lock?.isSome) : i = j := by
    by_contra hij
    rw [Function.update_of_ne hij, hothers i hij] at hi
    cases hi
  constructor
  · intro i l hl
    obtain rfl := heq i (by rw [hl]; rfl)
    rw [Function.update_self] at hl
    exact hstored l hl
  · intro i k hi hk
    rw [heq i hi, heq k hk]
  · intro i active hi
    obtain rfl := heq i (Stage.isSome_lock?_of_active? hi)
    rw [Function.update_self] at hi
    exact hfound active hi

omit [DecidableEq ι] in
/-- If a process holds the lock, then nobody else does. -/
theorem Exclusive.others (h : Exclusive s stages) {l : Lock} (hj : (stages j).lock? = some l)
    (i : ι) (hij : i ≠ j) : (stages i).lock? = none := by
  rw [← Option.not_isSome_iff_eq_none]
  exact fun hi => hij (h.alone i j hi (hj ▸ rfl))

/-- **Locks exclude each other unless they are taken over.** -/
theorem exclusive_of_course (course : MetaCourse OrderedMap.empty trace s stages)
    (htakeover : NoTakeover trace) : Exclusive s stages := by
  induction course with
  | start => exact ⟨nofun, nofun, nofun⟩
  | @next trace s s' stages j e stage course ha hstep ih =>
    have h := ih htakeover.of_append
    have hunlocked := effect?_lock_of_course course (i := j)
    generalize hj : stages j = old at hstep hunlocked
    cases hstep with
    | inside he _ hlock _ _ hactive =>
      refine h.concat ha (he.effect? Key.not_starts_lock) (he.effect? Key.not_starts_active)
        (hj ▸ hlock) fun active hi => Or.inl ?_
      rcases hactive with hactive | hactive
      · rw [hj, ← hactive, hi]
      · rw [hactive] at hi
        cases hi
    | name => exact h.concat ha rfl rfl (hj ▸ rfl) nofun
    | @acquire l current =>
      -- the lock was free, for a process that stores a lock over another one has had it before
      have hfree : s.get? Key.lock.encode = none := by
        rw [Lock.stored_of_storing ha]
        cases current with
        | none => rfl
        | some b =>
          obtain ⟨x, hx, hxj, hne⟩ := htakeover trace j l b [] rfl
          exact absurd (hunlocked rfl x hx hxj) hne
      refine exclusive_of_alone (fun i _ => ?_) (fun l' hl' => ?_) nofun
      · cases hi : (stages i).lock? with
        | none => rfl
        | some l' =>
          rw [h.stored i l' hi] at hfree
          cases hfree
      · cases hl'
        rw [ha.get?_eq, Lock.effect?_storing, if_pos rfl]
        rfl
    | @point l active =>
      refine h.concat ha rfl rfl (hj ▸ rfl) fun active' hi => Or.inr ?_
      cases hi
      exact ha.reply_eq_get?.symm
    | @count l active counter g =>
      refine h.concat ha (by simp) (by simp) (by rw [hj, lock?_counted]; rfl) fun active' hi => ?_
      rw [Stage.active?_counted] at hi
      exact Or.inl (hj ▸ hi)
    | @beat w t =>
      refine exclusive_of_alone (h.others (l := w.lock) (hj ▸ rfl)) (fun l hl => ?_)
        fun active hi => ?_
      · cases hl
        rw [ha.get?_eq, Lock.effect?_storing, if_pos rfl]
        rfl
      · rw [ha.get?_eq_of_effect? (by simp)]
        exact h.found j active (hj ▸ hi)
    | @swap w => exact exclusive_of_alone (h.others (l := w.lock) (hj ▸ rfl)) nofun nofun
    | @release _ l hl => exact exclusive_of_alone (h.others (l := l) (hj ▸ hl)) nofun nofun

end Rebuild

end ContentIndex
