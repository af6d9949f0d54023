import ContentIndex.Proofs.Runs
import ContentIndex.Proofs.Schedule
import ContentIndex.Proofs.StoredValues

/-!
# Safe swaps

Locks expire and are taken over at any moment, so a rebuild may find that it has lost its lock, or
never find it. It cannot do harm with it outside of the generations: numbers are never handed out
twice, and a rebuild swaps only if nobody else has had the lock or has swapped since it took it.

## Main definitions

* `OwnersDistinct`: no two processes get the same name
* `Rebuild.Acquired`: what has happened since a rebuild took its lock
* `Rebuild.Numbering`: the numbers that were handed out and those that became active

## Main results

* `Rebuild.acquired_of_course`, `Rebuild.numbering_of_course`: both hold in every run
* `Rebuild.swap_safety`: **numbers and swaps are in order**
-/

namespace ContentIndex

open Rebuild (Conditions Stage Work)

variable {ι : Type}

/-- The name that is given by the exchange, if one is. -/
def Exchange.name? : Exchange → Option String
  | ⟨.freshName, o⟩ => some o
  | _ => none

/-- No two processes get the same name. -/
def OwnersDistinct (trace : Trace ι) : Prop :=
  ∀ x ∈ trace, ∀ y ∈ trace, x.2.name?.isSome → x.2.name? = y.2.name? → x.1 = y.1

instance [DecidableEq ι] (trace : Trace ι) : Decidable (OwnersDistinct trace) :=
  inferInstanceAs (Decidable (∀ x ∈ trace, ∀ y ∈ trace,
    x.2.name?.isSome → x.2.name? = y.2.name? → x.1 = y.1))

theorem OwnersDistinct.of_append {trace trace' : Trace ι} (h : OwnersDistinct (trace ++ trace')) :
    OwnersDistinct trace :=
  fun x hx y hy => h x (List.mem_append_left _ hx) y (List.mem_append_left _ hy)

/-! ### Effects outside of the generations -/

section Effects

variable {l : Lock} {w : Work} {g : Generation} {b : Option Bytes} {s s' : Store}

@[simp] theorem active_ne_lock : Key.active.encode ≠ Key.lock.encode := by decide

@[simp] theorem lock_ne_active : Key.lock.encode ≠ Key.active.encode := by decide

@[simp] theorem active_ne_counter : Key.active.encode ≠ Key.counter.encode := by decide

@[simp] theorem counter_ne_active : Key.counter.encode ≠ Key.active.encode := by decide

@[simp] theorem lock_ne_counter : Key.lock.encode ≠ Key.counter.encode := by decide

@[simp] theorem counter_ne_lock : Key.counter.encode ≠ Key.lock.encode := by decide

@[simp] theorem Lock.effect?_storing (key : Bytes) : (l.storing b).effect? key =
    if Key.lock.encode = key then some (some l.toBytes) else none := by
  by_cases h : Key.lock.encode = key <;>
    simp [storing, Batch.effect?, WriteOp.key, WriteOp.value?, h]

@[simp] theorem Generation.effect?_counting (key : Bytes) : (g.counting b).effect? key =
    if Key.counter.encode = key then some (some g.toBytes) else none := by
  by_cases h : Key.counter.encode = key <;>
    simp [counting, Batch.effect?, WriteOp.key, WriteOp.value?, h]

@[simp] theorem Lock.effect?_releasing (key : Bytes) : l.releasing.effect? key =
    if Key.lock.encode = key then some none else none := by
  by_cases h : Key.lock.encode = key <;>
    simp [releasing, Batch.effect?, WriteOp.key, WriteOp.value?, h]

@[simp] theorem Database.effect?_swap (active : Option (Generation × Bytes)) (key : Bytes) :
    (swap active g l).effect? key =
      if Key.lock.encode = key then some none
      else if Key.active.encode = key then some (some g.toBytes) else none := by
  by_cases h : Key.lock.encode = key
  · simp [swap, Batch.effect?, WriteOp.key, WriteOp.value?, h]
  · by_cases h' : Key.active.encode = key <;>
      simp [swap, Batch.effect?, WriteOp.key, WriteOp.value?, h, h']

@[simp] theorem Rebuild.Work.effect?_swapping (key : Bytes) : w.swapping.effect? key =
    if Key.lock.encode = key then some none
    else if Key.active.encode = key then some (some w.number.toBytes) else none :=
  Database.effect?_swap w.active key

theorem Lock.stored_of_storing (h : s.Answers (l.storing b) s') : s.get? Key.lock.encode = b :=
  h.guard_eq (List.mem_singleton_self _)

theorem Generation.stored_of_counting (h : s.Answers (g.counting b) s') :
    s.get? Key.counter.encode = b :=
  h.guard_eq (List.mem_singleton_self _)

theorem Rebuild.Work.stored_of_swapping (h : s.Answers w.swapping s') :
    s.get? Key.active.encode = w.active.map (·.2) ∧
      s.get? Key.lock.encode = some w.lock.toBytes :=
  ⟨h.guard_eq (g := ⟨Key.active.encode, w.active.map (·.2)⟩) (by simp [Database.swap]),
    h.guard_eq (g := ⟨Key.lock.encode, some w.lock.toBytes⟩) (by simp [Database.swap])⟩

end Effects

namespace Rebuild

@[simp] theorem Stage.owner?_counted (l : Lock) (active : Option (Generation × Bytes))
    (g : Generation) : (counted l active g).owner? = some l.owner := by
  cases active <;> rfl

@[simp] theorem Stage.active?_counted (l : Lock) (active : Option (Generation × Bytes))
    (g : Generation) : (counted l active g).active? = some active := by
  cases active <;> rfl

@[simp] theorem Stage.hasLocked_counted (l : Lock) (active : Option (Generation × Bytes))
    (g : Generation) : (counted l active g).hasLocked = true := by
  cases active <;> rfl

theorem Stage.owner?_of_lock? {stage : Stage} {l : Lock} (h : stage.lock? = some l) :
    stage.owner? = some l.owner := by
  cases stage <;> simp_all [owner?, lock?]

/-- Who writes the active generation swaps. -/
theorem swap_of_effect?_active {stage stage' : Stage} {e : Exchange} (h : MetaStep stage e stage')
    (he : e.effect? Key.active.encode ≠ none) :
    ∃ w : Work, stage = .complete w ∧ e = w.swapping ∧ stage' = .swapped w := by
  cases h with
  | @swap w => exact ⟨w, rfl, rfl, rfl⟩
  | inside he' => exact absurd (he'.effect? Key.not_starts_active) he
  | name => exact absurd rfl he
  | point => exact absurd rfl he
  | _ => simp at he

variable [DecidableEq ι] {trace : Trace ι} {s : Store} {stages : ι → Stage}

/-- The courses of runs, as they show outside of the generations. -/
abbrev MetaCourse (store : Store) : Trace ι → Store → (ι → Stage) → Prop :=
  Course (fun _ => MetaStep) (fun _ => .idle) store

/-! ### Names -/

/-- A process owns the name that it was given. -/
theorem name_of_course {store : Store} (course : MetaCourse store trace s stages) {i : ι}
    {o : String} (h : (stages i).owner? = some o) : (i, ⟨.freshName, o⟩) ∈ trace := by
  induction course with
  | start => cases h
  | @next trace s s' stages j e stage course ha hstep ih =>
    by_cases hij : i = j
    · subst hij
      rw [Function.update_self] at h
      suffices (stages i).owner? = some o ∨ e = ⟨.freshName, o⟩ by
        rcases this with h | rfl
        · exact List.mem_append_left _ (ih h)
        · exact List.mem_append_right _ (List.mem_singleton_self _)
      generalize stages i = old at hstep
      cases hstep with
      | inside _ howner => exact Or.inl (howner ▸ h)
      | name =>
        cases h
        exact Or.inr rfl
      | acquire => exact Or.inl h
      | point => exact Or.inl h
      | @count l active _ g _ _ =>
        rw [Stage.owner?_counted] at h
        exact Or.inl h
      | beat => exact Or.inl h
      | swap => cases h
      | release => cases h
    · rw [Function.update_of_ne hij] at h
      exact List.mem_append_left _ (ih h)

/-! ### The lock -/

/-- What has happened since a process took its lock: it took it once, and as long as the lock is its
own, nobody else has written the lock or the active generation. -/
def Acquired (trace : Trace ι) (s : Store) (i : ι) (stage : Stage) (l : Lock) : Prop :=
  ∃ before since first current, trace = before ++ (i, Lock.storing first current) :: since ∧
    first.owner = l.owner ∧ (∀ x ∈ before, x.1 = i → x.2.effect? Key.lock.encode = none) ∧
    (∀ g, stage.number? = some g →
      ∃ x ∈ since, x.1 = i ∧ x.2.effect? Key.counter.encode = some (some g.toBytes)) ∧
    (s.get? Key.lock.encode = some l.toBytes → ∀ x ∈ since, x.1 ≠ i →
      x.2.effect? Key.lock.encode = none ∧ x.2.effect? Key.active.encode = none)

/-- A process that has not taken the lock has not written it. -/
theorem effect?_lock_of_course {store : Store} (course : MetaCourse store trace s stages) {i : ι}
    (h : (stages i).hasLocked = false) :
    ∀ x ∈ trace, x.1 = i → x.2.effect? Key.lock.encode = none := by
  induction course with
  | start => nofun
  | @next trace s s' stages j e stage course ha hstep ih =>
    intro x hx hxi
    by_cases hij : i = j
    · subst hij
      rw [Function.update_self] at h
      suffices (stages i).hasLocked = false ∧ e.effect? Key.lock.encode = none by
        rcases List.mem_append.mp hx with hx | hx
        · exact ih this.1 x hx hxi
        · obtain rfl := List.mem_singleton.mp hx
          exact this.2
      generalize stages i = old at hstep
      cases hstep with
      | inside he _ _ hlocked => exact ⟨hlocked ▸ h, he.effect? Key.not_starts_lock⟩
      | name => exact ⟨rfl, rfl⟩
      | count =>
        rw [Stage.hasLocked_counted] at h
        cases h
      | _ => cases h
    · rw [Function.update_of_ne hij] at h
      rcases List.mem_append.mp hx with hx | hx
      · exact ih h x hx hxi
      · obtain rfl := List.mem_singleton.mp hx
        exact absurd hxi.symm hij

omit [DecidableEq ι] in
/-- What has happened since the lock was taken, with one exchange more. -/
theorem Acquired.concat {i j : ι} {stage stage' : Stage} {l l' : Lock} {s' : Store} {e : Exchange}
    (h : Acquired trace s i stage l) (howner : l'.owner = l.owner)
    (hnumber : ∀ g, stage'.number? = some g → stage.number? = some g ∨
      j = i ∧ e.effect? Key.counter.encode = some (some g.toBytes))
    (hkeep : s'.get? Key.lock.encode = some l'.toBytes →
      s.get? Key.lock.encode = some l.toBytes ∧
        (j ≠ i → e.effect? Key.lock.encode = none ∧ e.effect? Key.active.encode = none)) :
    Acquired (trace ++ [(j, e)]) s' i stage' l' := by
  obtain ⟨before, since, first, current, rfl, hfirst, hbefore, hcounted, hsince⟩ := h
  refine ⟨before, since ++ [(j, e)], first, current, by simp, hfirst.trans howner.symm, hbefore,
    fun g hg => ?_, fun hl x hx hxi => ?_⟩
  · rcases hnumber g hg with hg | ⟨rfl, hg⟩
    · obtain ⟨x, hx, hxg⟩ := hcounted g hg
      exact ⟨x, List.mem_append_left _ hx, hxg⟩
    · exact ⟨(j, e), by simp, rfl, hg⟩
  · obtain ⟨hl, he⟩ := hkeep hl
    rcases List.mem_append.mp hx with hx | hx
    · exact hsince hl x hx hxi
    · obtain rfl := List.mem_singleton.mp hx
      exact he hxi

/-- Only a process with the same lock leaves that lock stored, and it writes nothing else then. -/
theorem keeps_lock {store : Store} (course : MetaCourse store trace s stages)
    (hd : OwnersDistinct trace) {i j : ι} (hij : i ≠ j) {l : Lock}
    (h : (stages i).lock? = some l) {e : Exchange} {s' : Store} (ha : s.Answers e s')
    {stage : Stage} (hstep : MetaStep (stages j) e stage)
    (hl : s'.get? Key.lock.encode = some l.toBytes) :
    s.get? Key.lock.encode = some l.toBytes ∧ e.effect? Key.lock.encode = none ∧
      e.effect? Key.active.encode = none := by
  have hsame (he : e.effect? Key.lock.encode = none) :
      s.get? Key.lock.encode = some l.toBytes := by
    rw [← hl, ha.get?_eq_of_effect? he]
  have howner (m : Lock) (hm : (stages j).owner? = some m.owner)
      (he : e.effect? Key.lock.encode = some (some m.toBytes)) : False := by
    rw [ha.get?_eq, he, Option.getD_some, Option.some_inj] at hl
    refine hij (hd _ (name_of_course course (Stage.owner?_of_lock? h)) _
      (name_of_course course hm) rfl ?_)
    rw [Lock.owner_eq_of_toBytes hl]
  have hgone (he : e.effect? Key.lock.encode = some none) : False := by
    rw [ha.get?_eq, he] at hl
    cases hl
  generalize stages j = old at hstep howner
  cases hstep with
  | inside he =>
    have := he.effect? Key.not_starts_lock
    exact ⟨hsame this, this, he.effect? Key.not_starts_active⟩
  | name => exact ⟨hsame rfl, rfl, rfl⟩
  | point => exact ⟨hsame rfl, rfl, rfl⟩
  | count => exact ⟨hsame (by simp), by simp, by simp⟩
  | @acquire m current => exact absurd (howner m rfl (by simp)) not_false
  | @beat w t => exact absurd (howner ⟨w.lock.owner, t⟩ rfl (by simp)) not_false
  | swap => exact absurd (hgone (by simp)) not_false
  | release => exact absurd (hgone (by simp)) not_false

theorem acquired_of_course {store : Store} (course : MetaCourse store trace s stages)
    (hd : OwnersDistinct trace) {i : ι} {l : Lock} (h : (stages i).lock? = some l) :
    Acquired trace s i (stages i) l := by
  induction course generalizing l with
  | start => cases h
  | @next trace s s' stages j e stage course ha hstep ih =>
    replace hd := hd.of_append
    by_cases hij : i = j
    · subst hij
      rw [Function.update_self] at h ⊢
      have hunlocked := effect?_lock_of_course course (i := i)
      generalize stages i = old at hstep ih hunlocked
      have hstays (he : e.effect? Key.lock.encode = none) :
          s'.get? Key.lock.encode = s.get? Key.lock.encode := ha.get?_eq_of_effect? he
      cases hstep with
      | inside he _ hlock _ hnumber _ =>
        refine (ih hd (hlock ▸ h)).concat rfl (fun g hg => Or.inl (hnumber ▸ hg)) fun hl => ?_
        exact ⟨hstays (he.effect? Key.not_starts_lock) ▸ hl, absurd rfl⟩
      | name => cases h
      | @acquire first current =>
        obtain rfl := Option.some.inj h
        exact ⟨trace, [], first, current, rfl, rfl, hunlocked rfl, nofun, nofun⟩
      | point =>
        refine (ih hd h).concat rfl (fun g hg => by cases hg) fun hl => ?_
        exact ⟨hstays rfl ▸ hl, absurd rfl⟩
      | @count m active counter g _ _ =>
        rw [lock?_counted] at h
        cases h
        refine (ih hd rfl).concat rfl (fun g' hg => ?_) fun hl => ?_
        · rw [number?_counted] at hg
          cases hg
          exact Or.inr ⟨rfl, by simp⟩
        · exact ⟨hstays (by simp) ▸ hl, absurd rfl⟩
      | @beat w t =>
        cases h
        refine (ih hd rfl).concat rfl (fun g hg => Or.inl hg) fun _ => ?_
        exact ⟨Lock.stored_of_storing ha, absurd rfl⟩
      | swap => cases h
      | release => cases h
    · rw [Function.update_of_ne hij] at h ⊢
      refine (ih hd h).concat rfl (fun g hg => Or.inl hg) fun hl => ?_
      have := keeps_lock course hd hij h ha hstep hl
      exact ⟨this.1, fun _ => this.2⟩

/-! ### Numbers -/

/-- The first `n` numbers that are handed out. -/
def numbers (n : Nat) : List Generation := (List.range n).map fun k => UInt64.ofNat (k + 1)

theorem numbers_succ (n : Nat) : numbers (n + 1) = numbers n ++ [UInt64.ofNat (n + 1)] := by
  simp [numbers, List.range_succ]

@[simp] theorem length_numbers (n : Nat) : (numbers n).length = n := by
  simp [numbers]

theorem toNat_ofNat {n : Nat} (h : n < 2 ^ 64) : (UInt64.ofNat n).toNat = n := by
  rw [UInt64.toNat_ofNat', Nat.mod_eq_of_lt h]

theorem pairwise_numbers {n : Nat} (h : n < 2 ^ 64) : (numbers n).Pairwise (· < ·) := by
  induction n with
  | zero => exact List.Pairwise.nil
  | succ n ih =>
    rw [numbers_succ, List.pairwise_append]
    refine ⟨ih (by omega), List.pairwise_singleton _ _, fun a ha b hb => ?_⟩
    obtain ⟨k, hk, rfl⟩ := List.mem_map.mp ha
    rw [List.mem_range] at hk
    obtain rfl := List.mem_singleton.mp hb
    rw [UInt64.lt_iff_toNat_lt, toNat_ofNat (by omega), toNat_ofNat (by omega)]
    omega

/-- The counter after `n` numbers. -/
theorem getLast?_numbers (n : Nat) :
    (numbers n).getLast? = if n = 0 then none else some (UInt64.ofNat n) := by
  cases n with
  | zero => rfl
  | succ n => simp [numbers_succ]

/-- The number after `n` numbers, if the active generation is one of these. -/
theorem successor_eq {n : Nat} (hn : n + 1 < 2 ^ 64) {last active : Option Generation}
    (hlast : last = (numbers n).getLast?) (hactive : ∀ g ∈ active, g.toNat ≤ n) :
    Generation.successor last active = UInt64.ofNat (n + 1) := by
  subst hlast
  have hof : UInt64.ofNat n + 1 = UInt64.ofNat (n + 1) := (UInt64.ofNat_add n 1).symm
  have heq {g : Generation} (hg : g.toNat = n) : g = UInt64.ofNat n := by
    rw [← hg, UInt64.ofNat_toNat]
  rw [getLast?_numbers, Generation.successor]
  by_cases hzero : n = 0
  · rw [if_pos hzero]
    cases active with
    | none => simp [Generation.greatest?, hzero]
    | some g =>
      have hle := hactive g rfl
      rw [← hof, ← heq (g := g) (by omega)]
      rfl
  · rw [if_neg hzero]
    cases active with
    | none => exact hof
    | some g =>
      have hmax : max (UInt64.ofNat n) g = UInt64.ofNat n := by
        have hle : g ≤ UInt64.ofNat n := by
          rw [UInt64.le_iff_toNat_le, toNat_ofNat (by omega)]
          exact hactive g rfl
        show (if UInt64.ofNat n ≤ g then g else UInt64.ofNat n) = UInt64.ofNat n
        split
        · next hge => exact UInt64.le_antisymm hle hge
        · rfl
      show max (UInt64.ofNat n) g + 1 = _
      rw [hmax, hof]

/-- The stored values of numbers. -/
def stored (gs : List Generation) : List (Option Bytes) := gs.map fun g => some g.toBytes

/-- The numbers that were handed out are the first ones, and numbers that became active increase.
A process has a number above the active generation that it found, and nobody else has its number. -/
structure Numbering (trace : Trace ι) (stages : ι → Stage) (n : Nat) (swapped : List Generation) :
    Prop where
  /-- The counter. -/
  counter : written trace Key.counter.encode = stored (numbers n)
  /-- The active generations. -/
  active : written trace Key.active.encode = stored swapped
  /-- They increase. -/
  increases : swapped.Pairwise (· < ·)
  /-- They were handed out. -/
  counted : ∀ g ∈ swapped, g.toNat ≤ n
  /-- An active generation that was found was handed out. -/
  found : ∀ i p, (stages i).active? = some (some p) → p.2 = p.1.toBytes ∧ p.1.toNat ≤ n
  /-- A number of a process was handed out. -/
  number : ∀ i g, (stages i).number? = some g → g.toNat ≤ n
  /-- It is above the active generation that the process found. -/
  above : ∀ i p g, (stages i).active? = some (some p) → (stages i).number? = some g → p.1 < g
  /-- Nobody else has it. -/
  own : ∀ i j g, (stages i).number? = some g → (stages j).number? = some g → i = j

variable {n : Nat} {swapped : List Generation}

/-- A step that neither counts nor swaps keeps the numbers in order. -/
theorem Numbering.concat (h : Numbering trace stages n swapped) {j : ι} {e : Exchange}
    {stage : Stage} (hcounter : e.effect? Key.counter.encode = none)
    (hactive : e.effect? Key.active.encode = none)
    (hnumber : ∀ g, stage.number? = some g → (stages j).number? = some g)
    (hfound : ∀ p, stage.active? = some (some p) → (stages j).active? = some (some p) ∨
      p.2 = p.1.toBytes ∧ p.1.toNat ≤ n ∧ stage.number? = none) :
    Numbering (trace ++ [(j, e)]) (Function.update stages j stage) n swapped := by
  have hnumber' (i : ι) (g : Generation)
      (hi : (Function.update stages j stage i).number? = some g) :
      (stages i).number? = some g := by
    by_cases hij : i = j
    · subst hij
      rw [Function.update_self] at hi
      exact hnumber g hi
    · rwa [Function.update_of_ne hij] at hi
  have hfound' (i : ι) (p : Generation × Bytes)
      (hi : (Function.update stages j stage i).active? = some (some p)) :
      (stages i).active? = some (some p) ∨ p.2 = p.1.toBytes ∧ p.1.toNat ≤ n ∧
        (Function.update stages j stage i).number? = none := by
    by_cases hij : i = j
    · subst hij
      rw [Function.update_self] at hi ⊢
      exact hfound p hi
    · rw [Function.update_of_ne hij] at hi
      exact Or.inl hi
  constructor
  · rw [written_concat, hcounter, h.counter]
    simp
  · rw [written_concat, hactive, h.active]
    simp
  · exact h.increases
  · exact h.counted
  · intro i p hi
    rcases hfound' i p hi with hi | hi
    · exact h.found i p hi
    · exact ⟨hi.1, hi.2.1⟩
  · exact fun i g hi => h.number i g (hnumber' i g hi)
  · intro i p g hi hg
    rcases hfound' i p hi with hi | hi
    · exact h.above i p g hi (hnumber' i g hg)
    · rw [hi.2.2] at hg
      cases hg
  · exact fun i k g hi hk => h.own i k g (hnumber' i g hi) (hnumber' k g hk)

omit [DecidableEq ι] in
/-- Before the first step nothing was handed out. -/
theorem Numbering.start : Numbering ([] : Trace ι) (fun _ => .idle) 0 [] := by
  constructor
  · rfl
  · rfl
  · exact List.Pairwise.nil
  · exact fun _ hg => absurd hg List.not_mem_nil
  all_goals
    intros
    contradiction

/-- A stage that holds no number keeps the numbers in order. -/
theorem Numbering.concat_of_none (h : Numbering trace stages n swapped) {j : ι} {e : Exchange}
    {stage : Stage} (hcounter : e.effect? Key.counter.encode = none)
    (hactive : e.effect? Key.active.encode = none) (hnumber : stage.number? = none)
    (hfound : stage.active? = none) :
    Numbering (trace ++ [(j, e)]) (Function.update stages j stage) n swapped := by
  refine h.concat hcounter hactive (fun g hg => ?_) fun p hp => ?_
  · rw [hnumber] at hg
    cases hg
  · rw [hfound] at hp
    cases hp

/-- A number that is read where a number was written. -/
theorem reads_eq {p : Option (Generation × Bytes)} {g? : Option Generation}
    (h : Generation.Reads p) (hb : p.map (·.2) = g?.map Generation.toBytes) :
    p.map (·.1) = g? ∧ ∀ x ∈ p, x.2 = x.1.toBytes := by
  cases p with
  | none =>
    cases g? with
    | none => exact ⟨rfl, nofun⟩
    | some g => cases hb
  | some x =>
    cases g? with
    | none => cases hb
    | some g =>
      have hx : x.2 = g.toBytes := Option.some.inj hb
      have hg : x.1 = g := by
        have := h x rfl
        rw [hx, Generation.parse?_toBytes] at this
        exact (Option.some.inj this).symm
      refine ⟨congrArg some hg, ?_⟩
      rintro y ⟨⟩
      rw [hx, hg]

/-- A key has the number that was written last. -/
theorem get?_of_written {step : ι → Stage → Exchange → Stage → Prop} {first : ι → Stage}
    (course : Course step first OrderedMap.empty trace s stages) {key : Bytes}
    {gs : List Generation} (h : written trace key = stored gs) :
    s.get? key = gs.getLast?.map Generation.toBytes := by
  rw [course.get?_eq, h, stored, List.getLast?_map]
  cases gs.getLast? with
  | none => rfl
  | some g => rfl

variable {j : ι} {l : Lock} {s' : Store}

/-- A number that is read was handed out, if the active generations were. -/
theorem Numbering.point (h : Numbering trace stages n swapped)
    (course : MetaCourse OrderedMap.empty trace s stages) {p : Option (Generation × Bytes)}
    (hreads : Generation.Reads p)
    (ha : s.Answers ⟨.get Key.active.encode, .ok (p.map (·.2))⟩ s') :
    ∀ x ∈ p, x.2 = x.1.toBytes ∧ x.1.toNat ≤ n := by
  have hactive := get?_of_written course h.active
  obtain ⟨hlast, hbytes⟩ := reads_eq hreads (ha.reply_eq_get?.trans hactive)
  intro x hx
  refine ⟨hbytes x hx, h.counted x.1 (List.mem_of_getLast? ?_)⟩
  rw [← hlast, hx]
  rfl

/-- The number that is handed out is the one after all others. -/
theorem Numbering.eq_ofNat (h : Numbering trace stages n swapped)
    (course : MetaCourse OrderedMap.empty trace s stages) (hn : n + 1 < 2 ^ 64)
    {active counter : Option (Generation × Bytes)} {g : Generation}
    (hj : stages j = .pointed l active) (hreads : Generation.Reads counter)
    (hg : g = Generation.successor (counter.map (·.1)) (active.map (·.1)))
    (ha : s.Answers (g.counting (counter.map (·.2))) s') : g = UInt64.ofNat (n + 1) := by
  have hlast : counter.map (·.1) = (numbers n).getLast? :=
    (reads_eq hreads ((Generation.stored_of_counting ha).symm.trans
      (get?_of_written course h.counter))).1
  rw [hg]
  refine successor_eq hn hlast fun g' hg' => ?_
  obtain ⟨x, rfl, rfl⟩ := Option.map_eq_some_iff.mp hg'
  exact (h.found j x (hj ▸ rfl)).2

theorem Numbering.count (h : Numbering trace stages n swapped)
    (course : MetaCourse OrderedMap.empty trace s stages) (hn : n + 1 < 2 ^ 64)
    {active counter : Option (Generation × Bytes)} {g : Generation}
    (hj : stages j = .pointed l active) (hreads : Generation.Reads counter)
    (hg : g = Generation.successor (counter.map (·.1)) (active.map (·.1)))
    (ha : s.Answers (g.counting (counter.map (·.2))) s') :
    Numbering (trace ++ [(j, g.counting (counter.map (·.2)))])
      (Function.update stages j (.counted l active g)) (n + 1) swapped := by
  have hfound : ∀ x ∈ active, x.2 = x.1.toBytes ∧ x.1.toNat ≤ n := by
    rintro x rfl
    exact h.found j x (hj ▸ rfl)
  have hsucc : g = UInt64.ofNat (n + 1) := h.eq_ofNat course hn hj hreads hg ha
  have hnat : g.toNat = n + 1 := by
    rw [hsucc, toNat_ofNat hn]
  have hfresh (i : ι) (hi : (stages i).number? = some g) : False := by
    have := h.number i g hi
    omega
  have hnumber {i : ι} {g' : Generation}
      (hi : (Function.update stages j (Stage.counted l active g) i).number? = some g') :
      i = j ∧ g' = g ∨ (stages i).number? = some g' := by
    by_cases hij : i = j
    · subst hij
      rw [Function.update_self, number?_counted] at hi
      exact Or.inl ⟨rfl, (Option.some.inj hi).symm⟩
    · rw [Function.update_of_ne hij] at hi
      exact Or.inr hi
  have hactive {i : ι} {p : Generation × Bytes}
      (hi : (Function.update stages j (Stage.counted l active g) i).active? = some (some p)) :
      (stages i).active? = some (some p) ∧ (i = j → p ∈ active) := by
    by_cases hij : i = j
    · subst hij
      rw [Function.update_self, Stage.active?_counted] at hi
      exact ⟨by rw [hj, ← hi]; rfl, fun _ => Option.some.inj hi⟩
    · rw [Function.update_of_ne hij] at hi
      exact ⟨hi, fun h => absurd h hij⟩
  constructor
  · rw [written_concat, h.counter, numbers_succ, ← hsucc]
    simp [stored]
  · rw [written_concat, h.active]
    simp
  · exact h.increases
  · exact fun g' hg' => Nat.le_succ_of_le (h.counted g' hg')
  · intro i p hi
    have := h.found i p (hactive hi).1
    exact ⟨this.1, Nat.le_succ_of_le this.2⟩
  · intro i g' hi
    rcases hnumber hi with ⟨-, rfl⟩ | hi
    · exact hnat.le
    · exact Nat.le_succ_of_le (h.number i g' hi)
  · intro i p g' hi hi'
    rcases hnumber hi' with ⟨rfl, rfl⟩ | hi'
    · have := (hfound p ((hactive hi).2 rfl)).2
      rw [UInt64.lt_iff_toNat_lt]
      omega
    · exact h.above i p g' (hactive hi).1 hi'
  · intro i k g' hi hk
    rcases hnumber hi with ⟨rfl, rfl⟩ | hi'
    · rcases hnumber hk with ⟨rfl, -⟩ | hk'
      · rfl
      · exact absurd (hfresh k hk') not_false
    · rcases hnumber hk with ⟨rfl, rfl⟩ | hk'
      · exact absurd (hfresh i hi') not_false
      · exact h.own i k g' hi' hk'

theorem Numbering.swap (h : Numbering trace stages n swapped)
    (course : MetaCourse OrderedMap.empty trace s stages) {w : Work}
    (hj : stages j = .complete w) (ha : s.Answers w.swapping s') :
    Numbering (trace ++ [(j, w.swapping)]) (Function.update stages j (.swapped w)) n
      (swapped ++ [w.number]) := by
  have hnumber (i : ι) : (Function.update stages j (Stage.swapped w) i).number? =
      (stages i).number? := by
    by_cases hij : i = j
    · subst hij
      rw [Function.update_self, hj]
      rfl
    · rw [Function.update_of_ne hij]
  have hactive {i : ι} {p : Generation × Bytes}
      (hi : (Function.update stages j (Stage.swapped w) i).active? = some (some p)) :
      (stages i).active? = some (some p) := by
    by_cases hij : i = j
    · subst hij
      rw [Function.update_self] at hi
      cases hi
    · rwa [Function.update_of_ne hij] at hi
  have hnum : (stages j).number? = some w.number := hj ▸ rfl
  -- the guard compares with the generation that was found, which is the last of the active ones
  have habove : ∀ g ∈ swapped, g < w.number := by
    have hlast : w.active.map (·.2) = swapped.getLast?.map Generation.toBytes :=
      (Work.stored_of_swapping ha).1.symm.trans (get?_of_written course h.active)
    intro g hg
    cases hl : swapped.getLast? with
    | none =>
      rw [List.getLast?_eq_none_iff.mp hl] at hg
      cases hg
    | some last =>
      rw [hl] at hlast
      obtain ⟨p, hp, hbytes⟩ := Option.map_eq_some_iff.mp hlast
      have hactive : (stages j).active? = some (some p) := by
        rw [hj, ← hp]
        rfl
      have hplast : p.1 = last :=
        Generation.toBytes_injective ((h.found j p hactive).1.symm.trans hbytes)
      have hlt : last < w.number := hplast ▸ h.above j p _ hactive hnum
      obtain ⟨init, rfl⟩ := List.getLast?_eq_some_iff.mp hl
      rcases List.mem_append.mp hg with hg | hg
      · exact UInt64.lt_trans ((List.pairwise_append.mp h.increases).2.2 g hg last (by simp)) hlt
      · exact List.mem_singleton.mp hg ▸ hlt
  constructor
  · rw [written_concat, h.counter]
    simp
  · rw [written_concat, h.active]
    simp [stored]
  · rw [List.pairwise_append]
    refine ⟨h.increases, List.pairwise_singleton _ _, fun g hg g' hg' => ?_⟩
    rw [List.mem_singleton.mp hg']
    exact habove g hg
  · intro g hg
    rcases List.mem_append.mp hg with hg | hg
    · exact h.counted g hg
    · rw [List.mem_singleton.mp hg]
      exact h.number j _ hnum
  · exact fun i p hi => h.found i p (hactive hi)
  · intro i g hi
    exact h.number i g (hnumber i ▸ hi)
  · intro i p g hi hi'
    exact h.above i p g (hactive hi) (hnumber i ▸ hi')
  · intro i k g hi hk
    exact h.own i k g (hnumber i ▸ hi) (hnumber k ▸ hk)

omit [DecidableEq ι] in
theorem Numbering.length_eq (h : Numbering trace stages n swapped) :
    (written trace Key.counter.encode).length = n := by
  rw [h.counter, stored, List.length_map, length_numbers]

/-- Numbers are in order in every run from an empty store on, until they are used up. -/
theorem numbering_of_course (course : MetaCourse OrderedMap.empty trace s stages)
    (hn : (written trace Key.counter.encode).length < 2 ^ 64 - 1) :
    ∃ n swapped, Numbering trace stages n swapped := by
  induction course with
  | start => exact ⟨0, [], Numbering.start⟩
  | @next trace s s' stages j e stage course ha hstep ih =>
    rw [written_append, List.length_append] at hn
    obtain ⟨n, swapped, h⟩ := ih (by omega)
    generalize hj : stages j = old at hstep
    cases hstep with
    | inside he _ _ _ hnumber hactive =>
      refine ⟨n, swapped, h.concat (he.effect? Key.not_starts_counter)
        (he.effect? Key.not_starts_active) (fun g hg => ?_) fun p hp => Or.inl ?_⟩
      · rw [hj, ← hnumber, hg]
      · rcases hactive with hactive | hactive
        · rw [hj, ← hactive, hp]
        · rw [hactive] at hp
          cases hp
    | name => exact ⟨n, swapped, h.concat_of_none rfl rfl rfl rfl⟩
    | acquire => exact ⟨n, swapped, h.concat_of_none (by simp) (by simp) rfl rfl⟩
    | point hreads =>
      refine ⟨n, swapped, h.concat rfl rfl (fun g hg => by cases hg) fun p hp => Or.inr ?_⟩
      have := h.point course hreads ha p (Option.some.inj hp)
      exact ⟨this.1, this.2, rfl⟩
    | @count l active counter g hreads hg =>
      have hlen :
          0 < (written [(j, g.counting (counter.map (·.2)))] Key.counter.encode).length := by
        simp [written]
      rw [h.length_eq] at hn
      exact ⟨n + 1, swapped, h.count course (by omega) hj hreads hg ha⟩
    | beat =>
      exact ⟨n, swapped, h.concat (by simp) (by simp) (fun g hg => hj ▸ hg)
        fun p hp => Or.inl (hj ▸ hp)⟩
    | swap => exact ⟨n, _, h.swap course hj ha⟩
    | release => exact ⟨n, swapped, h.concat_of_none (by simp) (by simp) rfl rfl⟩

/-! ### Runs of programs -/

/-- Without conditions everything is allowed that storage answers. -/
theorem allow_none {db : Database} {e : Exchange} {s s' : Store} (h : s.Answers e s') :
    Conditions.none.Allow db e :=
  .of_answers h (fun _ _ _ => False.elim) fun _ _ _ _ _ _ _ _ _ => trivial

/-- The course of an interleaving of rebuilds. -/
theorem exists_course {dbs : ι → Database} {rounds : ι → Nat} {store : Store} {trace : Trace ι}
    {w : World ι (Except IndexError Report)}
    (run : Interleaving (fun i => ((dbs i).rebuild (rounds i)).run) store trace w) :
    ∃ stages, Course (fun i => Step (dbs i) .none) (fun _ => .idle) store trace w.store stages := by
  obtain ⟨stages, course, -⟩ := run.exists_course
    (P := fun i => protocol (dbs i) .none) (fun i => follows (dbs i) .none (rounds i) False.elim)
    fun x hx _ => by
      obtain ⟨s, s', h⟩ := run.exists_answers hx
      exact allow_none h
  exact ⟨stages, course⟩

/-- What was left under a key are numbers that increase. -/
def Increases (trace : Trace ι) (key : Bytes) : Prop :=
  ∃ gs, written trace key = stored gs ∧ gs.Pairwise (· < ·)

/-- Who writes the active generation swaps. It has taken the lock before, once, and the number that
it swaps in is one that it has counted since; and nobody else has written the lock or the active
generation since. -/
def SwapsAlone (trace : Trace ι) : Prop :=
  ∀ before i e after, trace = before ++ (i, e) :: after → e.effect? Key.active.encode ≠ none →
    ∃ active g lock, e = ⟨.write (Database.swap active g lock), .ok ()⟩ ∧
      ∃ earlier since taken current,
        before = earlier ++ (i, Lock.storing taken current) :: since ∧
        taken.owner = lock.owner ∧
        (∀ x ∈ earlier, x.1 = i → x.2.effect? Key.lock.encode = none) ∧
        (∃ x ∈ since, x.1 = i ∧ x.2.effect? Key.counter.encode = some (some g.toBytes)) ∧
        ∀ x ∈ since, x.1 ≠ i →
          x.2.effect? Key.lock.encode = none ∧ x.2.effect? Key.active.encode = none

theorem swapsAlone_of_course {store : Store} (course : MetaCourse store trace s stages)
    (hd : OwnersDistinct trace) : SwapsAlone trace := by
  intro before i e after htrace he
  obtain ⟨s₁, stages₁, s₂, stage, hbefore, ha, hstep⟩ := course.exists_of_append htrace
  rw [htrace] at hd
  have hacquired (l : Lock) := acquired_of_course hbefore hd.of_append (i := i) (l := l)
  generalize stages₁ i = old at hstep hacquired
  cases hstep with
  | @swap w =>
    obtain ⟨earlier, since, taken, current, hbefore, howner, hearlier, hcounted, hsince⟩ :=
      hacquired _ rfl
    exact ⟨w.active, w.number, w.lock, rfl, earlier, since, taken, current, hbefore, howner,
      hearlier, hcounted w.number rfl, hsince (Work.stored_of_swapping ha).2⟩
  | inside he' => exact absurd (he'.effect? Key.not_starts_active) he
  | name => exact absurd rfl he
  | point => exact absurd rfl he
  | _ => simp at he

omit [DecidableEq ι] in
theorem Numbering.increases_counter (h : Numbering trace stages n swapped) (hn : n < 2 ^ 64) :
    Increases trace Key.counter.encode :=
  ⟨_, h.counter, pairwise_numbers hn⟩

omit [DecidableEq ι] in
theorem Numbering.increases_active (h : Numbering trace stages n swapped) :
    Increases trace Key.active.encode :=
  ⟨_, h.active, h.increases⟩

/-- **Numbers and swaps are in order.** Whatever rebuilds run at the same time, in whatever turns,
the numbers that are handed out increase, and so do the ones that become active. A rebuild swaps
only if nobody else has had the lock or has swapped since it took its lock. -/
theorem swap_safety (dbs : ι → Database) (rounds : ι → Nat) {trace : Trace ι}
    {w : World ι (Except IndexError Report)}
    (run : Interleaving (fun i => ((dbs i).rebuild (rounds i)).run) OrderedMap.empty trace w)
    (howners : OwnersDistinct trace)
    (hcount : (written trace Key.counter.encode).length < 2 ^ 64 - 1) :
    Increases trace Key.counter.encode ∧ Increases trace Key.active.encode ∧ SwapsAlone trace := by
  obtain ⟨stages, course⟩ := exists_course run
  replace course := course.mono fun i a e b h => Step.metaStep h
  obtain ⟨n, swapped, h⟩ := numbering_of_course course hcount
  have hn : n < 2 ^ 64 := by
    have := h.length_eq
    omega
  exact ⟨h.increases_counter hn, h.increases_active, swapsAlone_of_course course howners⟩

/-! ### A takeover -/

/-- A database without collections, whose locks expire at once. -/
def hasty : Database := ⟨.ofCollections [], { lockSeconds := 0 }, "body"⟩

/-- A host with nothing stored. -/
def bareHost : Host := ⟨OrderedMap.empty, .files OrderedMap.empty, 0, 0, false⟩

/-- Two rebuilds. The first has counted when the second takes its lock over, and goes on when the
second has swapped. -/
def takeover : Play Bool (Except IndexError Report) :=
  bareHost.play (fun _ => (hasty.rebuild 2).run) <|
    .replicate 7 (.asks false) ++ .replicate 13 (.asks true) ++ .replicate 12 (.asks false)

/-- Both rebuilds count, and the second one swaps. -/
theorem takeover_written : OwnersDistinct takeover.trace ∧
    written takeover.trace Key.counter.encode = stored [1, 2] ∧
    written takeover.trace Key.active.encode = stored [2] := by
  decide +kernel

theorem takeover_count : (written takeover.trace Key.counter.encode).length < 2 ^ 64 - 1 := by
  rw [takeover_written.2.1]
  decide

theorem takeover_interleaving : Interleaving (fun _ : Bool => (hasty.rebuild 2).run)
    OrderedMap.empty takeover.trace takeover.world :=
  bareHost.interleaving_play _ _

/-- Numbers and swaps are in order in the takeover, where one rebuild swaps. -/
theorem swap_safety_takeover : written takeover.trace Key.active.encode = stored [2] ∧
    Increases takeover.trace Key.counter.encode ∧ Increases takeover.trace Key.active.encode ∧
      SwapsAlone takeover.trace :=
  ⟨takeover_written.2.2, swap_safety (fun _ => hasty) (fun _ => 2) takeover_interleaving
    takeover_written.1 takeover_count⟩

end Rebuild

end ContentIndex
