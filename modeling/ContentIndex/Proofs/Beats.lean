import ContentIndex.Proofs.Retention
import ContentIndex.Proofs.Tenure
import ContentIndex.Proofs.Timestamps

/-!
# Beats

A rebuild keeps its lock by beats: it looks at the clock, and if a third of the lifetime has passed
then it acquires its lock anew. So at a beat the lock is younger than a third of the lifetime, or
new, and it lives on for the rest of the lifetime after the beat. As long as no more time passes
since the last beat, the lock does not expire, and then nobody else can write it: to take it, one
has to find that it has expired, and all other writes of the lock replace a lock of their own.

## Main definitions

* `IsClock`: clocks that do not run backwards
* `BeatsAt`: the beats of a process
* `Rebuild.Beating`: a rebuild has taken the lock, and beats in time
* `Rebuild.Held`: what is stored and what the process has, as long as it holds the lock

## Main results

* `Lock.isExpired_eq_false_of_beat`: how long a lock lives after a beat
* `Rebuild.Beating.effect?_eq_none`: nobody else writes a lock that is held
* `Rebuild.Beating.exists_held`: **a rebuild that beats in time holds its lock**
-/

namespace ContentIndex

open Rebuild (MetaCourse Stage Unlocked Work)

variable {ι : Type}

/-! ### Clocks -/

/-- The time that is told by the exchange, if it is a look at the clock. -/
def Exchange.reading? : Exchange → Option Instant
  | ⟨.now, t⟩ => some t
  | _ => none

/-- A clock that never runs backwards: after so many exchanges it is so many nanoseconds after the
beginning of 1970. -/
structure IsClock (clock : Nat → Nat) (trace : Trace ι) : Prop where
  /-- It does not run backwards. -/
  monotone : Monotone clock
  /-- Who looks at it is told the time. -/
  reads : ∀ before i e after, trace = before ++ (i, e) :: after →
    ∀ t ∈ e.reading?, t = .ofNanoseconds (clock before.length)
  /-- Its years are those that instants have. -/
  year : ∀ n ≤ trace.length, Calendar.isYear (Instant.ofNanoseconds (clock n)).year

theorem Instant.ofNanoseconds_le_maxLifetime {n : Nat}
    (h : Calendar.isYear (ofNanoseconds n).year) :
    (n : Int) ≤ Lock.nanoseconds Lock.maxLifetime := by
  have hday := Calendar.dayNumber_dateOf (ofNanoseconds n).day
  have hmonth := Calendar.month_dateOf (ofNanoseconds n).day
  have hinMonth := Calendar.day_dateOf (ofNanoseconds n).day
  have hbound : (ofNanoseconds n).day ≤ 100000000 := by
    unfold year at h
    generalize Calendar.dateOf (ofNanoseconds n).day = date at *
    obtain ⟨y, m, d⟩ := date
    simp only [Calendar.isYear, Bool.and_eq_true, decide_eq_true_eq] at h
    rw [← hday]
    simp only at *
    unfold Calendar.dayNumber
    dsimp only
    split_ifs <;> omega
  have hmax : Lock.nanoseconds Lock.maxLifetime = 9223372036854775000000000 := by decide
  have hfirst : Calendar.dayNumber 1970 1 1 = 719468 := by decide
  rw [hmax]
  unfold ofNanoseconds at hbound
  simp only [hfirst] at hbound
  unfold billion daySeconds at hbound
  omega

namespace Lock

variable {l m : Lock} {seconds a a' b c : Nat} {t : Instant}

theorem isExpired_eq_false_iff : m.isExpired seconds t = false ↔
    t.since m.acquired ≤ nanoseconds (lifetime seconds) := by
  rw [isExpired, decide_eq_false_iff_not, not_lt]

/-- A lock that has expired stays so. -/
theorem isExpired_mono (hm : m.acquired = .ofNanoseconds a) (hbc : b ≤ c)
    (h : m.isExpired seconds (.ofNanoseconds b)) : m.isExpired seconds (.ofNanoseconds c) := by
  rw [isExpired, hm, Instant.since_ofNanoseconds, decide_eq_true_eq] at *
  omega

theorem nanoseconds_mono {n k : Nat} (h : n ≤ k) : nanoseconds n ≤ nanoseconds k :=
  Int.ofNat_le.mpr (Nat.mul_le_mul_right _ h)

/-- **A lock lives on for the rest of its lifetime after a beat**: here `l` was acquired or found to
be not due, and `m` was not acquired before `l`. -/
theorem isExpired_eq_false_of_beat (hm : m.acquired = .ofNanoseconds a)
    (hl : l.acquired = .ofNanoseconds a') (ha : a' ≤ a)
    (hyear : Calendar.isYear (Instant.ofNanoseconds c).year)
    (hbeat : l.acquired = t ∨ l.isDue seconds t = false)
    (ht : t = .ofNanoseconds b)
    (hc : (Instant.ofNanoseconds c).since t ≤ nanoseconds (seconds - seconds / 3)) :
    m.isExpired seconds (.ofNanoseconds c) = false := by
  have hlong := Instant.ofNanoseconds_le_maxLifetime hyear
  rw [isExpired_eq_false_iff, hm, Instant.since_ofNanoseconds]
  rw [ht, Instant.since_ofNanoseconds] at hc
  have hdue : (b : Int) - a' ≤ nanoseconds (seconds / 3) := by
    rcases hbeat with hbeat | hbeat
    · have := Instant.since_ofNanoseconds b a'
      rw [← ht, ← hl, hbeat, ht, Instant.since_ofNanoseconds] at this
      unfold nanoseconds
      omega
    · rw [isDue, decide_eq_false_iff_not, not_le, ht, hl, Instant.since_ofNanoseconds] at hbeat
      refine hbeat.le.trans (nanoseconds_mono (Nat.div_le_div_right ?_))
      exact Nat.min_le_left _ _
  rcases le_total seconds maxLifetime with hmax | hmax
  · rw [lifetime, min_eq_left hmax]
    unfold nanoseconds Instant.billion at *
    omega
  · rw [lifetime, min_eq_right hmax]
    omega

end Lock

/-! ### Beats -/

/-- The lock that is stored by the exchange, if one is. -/
def Exchange.lock? (e : Exchange) : Option Lock :=
  (e.effect? Key.lock.encode).bind (·.bind Lock.ofBytes?)

theorem Exchange.lock?_eq_none {e : Exchange} (h : e.effect? Key.lock.encode = none) :
    e.lock? = none := by
  rw [lock?, h, Option.bind_none]

/-- At the time the process has beaten: it has acquired its lock then, or it has looked at the clock
then and its lock was not due. -/
inductive BeatsAt (seconds : Nat) (i : ι) (trace : Trace ι) (t : Instant) : Prop
  /-- It has acquired its lock. -/
  | acquired {e : Exchange} {l : Lock} (h : (i, e) ∈ trace) (hl : e.lock? = some l)
    (ht : l.acquired = t)
  /-- Its lock was not due. -/
  | found {before after : Trace ι} {e : Exchange} {l : Lock}
    (heq : trace = before ++ (i, ⟨.now, t⟩) :: after) (h : (i, e) ∈ before)
    (hl : e.lock? = some l) (hdue : l.isDue seconds t = false)

namespace Rebuild

/-- A rebuild has taken the lock and has not given it back, in a run in which storage does not fail
and all have locks of one lifetime. At each moment since, its last beat is no longer ago than the
lifetime less a third of it. -/
structure Beating (runs : ι → Run) (seconds : Nat) (clock : Nat → Nat) (i : ι) (l : Lock)
    (current : Option Bytes) (before after trace : Trace ι) : Prop where
  /-- It has taken the lock. -/
  eq : trace = before ++ (i, l.storing current) :: after
  /-- It had not stored a lock before. -/
  first : Unlocked before i
  /-- It has not given the lock back. -/
  held : ∀ x ∈ after, x.1 = i → x.2.effect? Key.lock.encode ≠ some none
  /-- No two processes get the same name. -/
  owners : OwnersDistinct trace
  /-- Storage does not fail. -/
  works : ∀ x ∈ trace, x.2.isOutage = false
  /-- All have locks of one lifetime. -/
  lifetimes : ∀ j, (runs j).database.settings.lockSeconds = seconds
  /-- The clock does not run backwards. -/
  timed : IsClock clock trace
  /-- The last beat is not long ago. -/
  inTime : ∀ n, before.length < n → n ≤ trace.length → ∃ t, BeatsAt seconds i (trace.take n) t ∧
    (Instant.ofNanoseconds (clock n)).since t ≤ Lock.nanoseconds (seconds - seconds / 3)

/-- The process holds the lock `m`, which is stored. It has acquired it at the moment `k`, and has
looked at the clock last at the moment `k'`. -/
structure Held (clock : Nat → Nat) (i : ι) (owner : String) (trace : Trace ι)
    (w : World ι (Except IndexError Report)) (m : Lock) (k k' : Nat) : Prop where
  /-- The lock is stored. -/
  stored : w.store.get? Key.lock.encode = some m.toBytes
  /-- The name is that of the process. -/
  owned : m.owner = owner
  /-- The process was given the name. -/
  named : (i, ⟨.freshName, owner⟩) ∈ trace
  /-- The process has stored it. -/
  mem : ∃ e, (i, e) ∈ trace ∧ e.lock? = some m
  /-- It was acquired at the moment. -/
  acquired : m.acquired = .ofNanoseconds (clock k)
  /-- The clock was not looked at before that moment last. -/
  le : k ≤ k'
  /-- All has happened. -/
  lt : k' < trace.length
  /-- No lock was acquired later. -/
  latest : ∀ e l, (i, e) ∈ trace → e.lock? = some l →
    ∃ j ≤ k, l.acquired = .ofNanoseconds (clock j)
  /-- The process keeps the lock. -/
  follows : (w.left i).Follows Lock.keeping (fun _ _ => True)
    (some (m, .ofNanoseconds (clock k')))

variable {clock : Nat → Nat} {i j : ι} {owner : String} {trace : Trace ι} {m : Lock}

/-- Who writes the lock takes it or has it stored. -/
theorem cases_of_effect?_lock {s s' : Store} {e : Exchange} {stage stage' : Stage}
    (h : MetaStep stage e stage') (ha : s.Answers e s') (he : e.effect? Key.lock.encode ≠ none) :
    (∃ o, stage = .named o) ∨
      ∃ m, stage.lock? = some m ∧ s.get? Key.lock.encode = some m.toBytes := by
  cases h with
  | inside hinside => exact absurd (hinside.effect? Key.not_starts_lock) he
  | name => exact absurd rfl he
  | acquire => exact Or.inl ⟨_, rfl⟩
  | point => exact absurd rfl he
  | count => simp at he
  | @beat w t => exact Or.inr ⟨w.lock, rfl, Lock.stored_of_storing ha⟩
  | @swap w => exact Or.inr ⟨w.lock, rfl, (Work.stored_of_swapping ha).2⟩
  | @release _ l hl => exact Or.inr ⟨l, hl, ha.guard_eq (List.mem_singleton_self _)⟩

section Runs

variable [DecidableEq ι] {runs : ι → Run} {seconds : Nat} {l : Lock} {current : Option Bytes}
  {before after : Trace ι} {store : Store} {w : World ι (Except IndexError Report)} {k k' : Nat}

/-- The last step of a run, as it shows outside of the generations. -/
theorem exists_metaStep {e : Exchange}
    (run : Interleaving (fun j => (runs j).program) store (trace ++ [(j, e)]) w) :
    ∃ s stages stage, MetaCourse store trace s stages ∧ s.Answers e w.store ∧
      MetaStep (stages j) e stage ∧
      (e.effect? Key.lock.encode ≠ none → ∃ db rounds, runs j = .rebuild db rounds) := by
  obtain ⟨stages, course⟩ := Run.course_of_allow (c := .none) run (fun _ => False.elim)
    fun x hx => by
      obtain ⟨s, s', h⟩ := run.exists_answers hx
      exact allow_none h
  obtain ⟨s, stages', stage, course', ha, hstep⟩ := course.exists_of_concat
  refine ⟨s, stages', stage, course'.mono fun _ _ _ _ h => Run.metaStep h, ha,
    Run.metaStep hstep, fun he => ?_⟩
  cases hj : runs j with
  | rebuild db rounds => exact ⟨db, rounds, rfl⟩
  | update db paths =>
    rw [hj] at hstep
    exact absurd ((Update.Step.staysInside hstep).1.effect? Key.not_starts_lock) he

theorem lock?_storing (hm : m.acquired = .ofNanoseconds k)
    (hyear : Calendar.isYear (Instant.ofNanoseconds k).year) (current : Option Bytes) :
    (m.storing current).lock? = some m := by
  rw [Exchange.lock?, Lock.effect?_storing, if_pos rfl, Option.bind_some, Option.bind_some]
  exact Lock.ofBytes?_toBytes (hm ▸ Instant.valid_ofNanoseconds k) (hm ▸ hyear)

namespace Beating

variable (h : Beating runs seconds clock i l current before after trace) {past rest : Trace ι}

include h

omit [DecidableEq ι] in
/-- A lock that the process holds has not expired. -/
theorem isExpired_eq_false (hpast : trace = past ++ rest) (hlength : before.length < past.length)
    (hheld : Held clock i owner past w m k k') :
    m.isExpired seconds (.ofNanoseconds (clock past.length)) = false := by
  have hle : past.length ≤ trace.length := by
    rw [hpast]
    simp
  obtain ⟨t, hbeat, ht⟩ := h.inTime _ hlength hle
  rw [hpast, List.take_left' rfl] at hbeat
  have hyear := h.timed.year _ hle
  cases hbeat with
  | @acquired e l' he hl' hacquired =>
    obtain ⟨j, hj, hread⟩ := hheld.latest e l' he hl'
    exact Lock.isExpired_eq_false_of_beat hheld.acquired hread (h.timed.monotone hj) hyear
      (Or.inl hacquired) (hacquired ▸ hread) ht
  | @found pre post e l' heq he hl' hdue =>
    have hread := h.timed.reads pre i ⟨.now, t⟩ (post ++ rest) (by rw [hpast, heq]; simp) t rfl
    obtain ⟨j, hj, hread'⟩ := hheld.latest e l' (heq ▸ List.mem_append_left _ he) hl'
    exact Lock.isExpired_eq_false_of_beat hheld.acquired hread' (h.timed.monotone hj) hyear
      (Or.inr hdue) hread ht

omit [DecidableEq ι] in
/-- A lock that the process holds is read back. -/
theorem ofBytes?_toBytes (hpast : trace = past ++ rest) (hheld : Held clock i owner past w m k k') :
    Lock.ofBytes? m.toBytes = some m := by
  refine Lock.ofBytes?_toBytes (hheld.acquired ▸ Instant.valid_ofNanoseconds _) ?_
  rw [hheld.acquired]
  refine h.timed.year _ ?_
  have := hheld.le
  have := hheld.lt
  rw [hpast, List.length_append]
  omega

omit [DecidableEq ι] in
/-- The clock was looked at before now. -/
theorem exists_read (hpast : trace = past ++ rest) {t : Instant} (ht : (j, ⟨.now, t⟩) ∈ past) :
    ∃ n < past.length, t = .ofNanoseconds (clock n) := by
  obtain ⟨pre, post, rfl⟩ := List.append_of_mem ht
  exact ⟨pre.length, by simp, h.timed.reads pre j ⟨.now, t⟩ (post ++ rest) (by simp [hpast]) t rfl⟩

/-- **Nobody else writes a lock that the process holds.** -/
theorem effect?_eq_none {e : Exchange} {w' : World ι (Except IndexError Report)}
    (hpast : trace = past ++ (j, e) :: rest) (hlength : before.length < past.length) (hji : j ≠ i)
    (run : Interleaving (fun j => (runs j).program) store past w)
    (run' : Interleaving (fun j => (runs j).program) store (past ++ [(j, e)]) w')
    (hheld : Held clock i owner past w m k k') : e.effect? Key.lock.encode = none := by
  by_contra he
  obtain ⟨s, stages, stage, course, ha, hstep, hrebuild⟩ := exists_metaStep run'
  have hstored : s.get? Key.lock.encode = some m.toBytes := by
    rw [course.get?_eq, ← run.get?_eq, hheld.stored]
  rcases cases_of_effect?_lock hstep ha he with ⟨o, ho⟩ | ⟨m', hm', hstored'⟩
  · -- it takes the lock, which it has found to have expired
    obtain ⟨db, rounds, hj⟩ := hrebuild he
    have hseconds : db.settings.lockSeconds = seconds := by
      simpa [hj, Run.database] using h.lifetimes j
    obtain ⟨l', current', look, hlook, hhistory, rfl, -⟩ := taken_of_storing run'
      (congrArg Run.program hj) (effect?_lock_of_course course (by rw [ho]; rfl)) he
    have hcurrent : current' = some m.toBytes := (Lock.stored_of_storing ha).symm.trans hstored
    have hread := h.ofBytes?_toBytes hpast hheld
    rw [hcurrent] at hlook
    cases hlook with
    | none hnone => simp [hread] at hnone
    | @expired m' t hm' hexpired =>
      obtain rfl : m = m' := by simpa [hread] using hm'
      have hlooked : (j, ⟨.now, t⟩) ∈ past := by
        rw [← mem_history_iff, hhistory]
        simp
      obtain ⟨n, hn, rfl⟩ := h.exists_read hpast hlooked
      rw [hseconds] at hexpired
      have hlate := Lock.isExpired_mono hheld.acquired (h.timed.monotone hn.le) hexpired
      rw [h.isExpired_eq_false hpast hlength hheld] at hlate
      cases hlate
  · -- it would have the name of the process
    rw [hstored, Option.some_inj] at hstored'
    have howner : m'.owner = owner := (Lock.owner_eq_of_toBytes hstored').symm.trans hheld.owned
    have hname := name_of_course course (Stage.owner?_of_lock? hm')
    rw [howner] at hname
    exact hji (h.owners (j, ⟨.freshName, owner⟩) (hpast ▸ List.mem_append_left _ hname)
      (i, ⟨.freshName, owner⟩) (hpast ▸ List.mem_append_left _ hheld.named) rfl rfl)

end Beating

omit [DecidableEq ι] in
/-- Nothing changes for the process by an exchange that leaves the lock alone, but that the rest of
its program may be another and the clock may have been looked at. -/
theorem Held.concat {e : Exchange} {past : Trace ι} {w' : World ι (Except IndexError Report)}
    {n : Nat} (hheld : Held clock i owner past w m k k') (he : e.effect? Key.lock.encode = none)
    (ha : w.store.Answers e w'.store) (hle : k ≤ n) (hlt : n < (past ++ [(j, e)]).length)
    (hfollows : (w'.left i).Follows Lock.keeping (fun _ _ => True)
      (some (m, .ofNanoseconds (clock n)))) :
    Held clock i owner (past ++ [(j, e)]) w' m k n where
  stored := (ha.get?_eq_of_effect? he).trans hheld.stored
  owned := hheld.owned
  named := List.mem_append_left _ hheld.named
  mem := by
    obtain ⟨e', he', hm⟩ := hheld.mem
    exact ⟨e', List.mem_append_left _ he', hm⟩
  acquired := hheld.acquired
  le := hle
  lt := hlt
  latest := by
    intro e' l he' hl
    rcases List.mem_append.mp he' with he' | he'
    · exact hheld.latest e' l he' hl
    · obtain ⟨-, rfl⟩ := Prod.mk.inj (List.mem_singleton.mp he')
      rw [Exchange.lock?_eq_none he] at hl
      cases hl
  follows := hfollows

namespace Beating

variable (h : Beating runs seconds clock i l current before after trace) {past rest : Trace ι}

include h

omit [DecidableEq ι] in
/-- What the process itself does. -/
theorem exists_held_own {q : Question} {r : q.Reply} {next : q.Reply → Program (Except IndexError Report)}
    {w' : World ι (Except IndexError Report)} (hpast : trace = past ++ (i, ⟨q, r⟩) :: rest)
    (hafter : (i, ⟨q, r⟩) ∈ after) (hheld : Held clock i owner past w m k k')
    (hi : w.left i = .ask q next) (ha : w.store.Answers ⟨q, r⟩ w'.store)
    (hleft : w'.left i = next r) :
    ∃ m k k', Held clock i owner (past ++ [(i, ⟨q, r⟩)]) w' m k k' := by
  have hfollows := hheld.follows
  rw [hi] at hfollows
  obtain ⟨s', hstep, hnext⟩ := hfollows r ha.sound
  rw [← hleft] at hnext
  have hlt := hheld.lt
  have hback := h.held _ hafter rfl
  generalize he : (⟨q, r⟩ : Exchange) = e at hstep ha hpast hback
  cases hstep with
  | quiet hquiet => exact ⟨m, k, k', hheld.concat hquiet ha hheld.le (by simp; omega) hnext⟩
  | @look _ _ t =>
    obtain rfl := h.timed.reads past i ⟨.now, t⟩ rest hpast t rfl
    refine ⟨m, k, past.length, hheld.concat rfl ha ?_ (by simp) hnext⟩
    exact hheld.le.trans hlt.le
  | renew =>
    have hyear : Calendar.isYear (Instant.ofNanoseconds (clock k')).year := by
      refine h.timed.year _ ?_
      rw [hpast, List.length_append]
      omega
    refine ⟨⟨m.owner, .ofNanoseconds (clock k')⟩, k', k', ?_⟩
    refine ⟨?_, hheld.owned, List.mem_append_left _ hheld.named, ?_, rfl, le_rfl, by simp; omega,
      ?_, hnext⟩
    · rw [ha.get?_eq, Lock.effect?_storing, if_pos rfl, Option.getD_some]
    · exact ⟨_, List.mem_append_right _ (List.mem_singleton_self _), lock?_storing rfl hyear _⟩
    · intro e' l' he' hl'
      rcases List.mem_append.mp he' with he' | he'
      · obtain ⟨j, hj, hread⟩ := hheld.latest e' l' he' hl'
        exact ⟨j, hj.trans hheld.le, hread⟩
      · obtain ⟨-, rfl⟩ := Prod.mk.inj (List.mem_singleton.mp he')
        rw [lock?_storing rfl hyear, Option.some_inj] at hl'
        exact ⟨k', le_rfl, hl' ▸ rfl⟩
  | giveBack hgone => exact absurd hgone hback

/-- The process has taken the lock. -/
theorem exists_held_first
    (run : Interleaving (fun j => (runs j).program) store (before ++ [(i, l.storing current)]) w) :
    ∃ m k, Held clock i l.owner (before ++ [(i, l.storing current)]) w m k k := by
  have hpast : trace = before ++ (i, l.storing current) :: after := h.eq
  have heffect : (l.storing current).effect? Key.lock.encode ≠ none := by simp
  obtain ⟨s, stages, stage, -, ha, -, hrebuild⟩ := exists_metaStep run
  obtain ⟨db, rounds, hi⟩ := hrebuild heffect
  obtain ⟨m, current', look, -, hhistory, hm, hleft⟩ :=
    taken_of_storing run (congrArg Run.program hi) h.first heffect
  have hown {e : Exchange} (he : e ∈ [⟨.freshName, m.owner⟩, ⟨.now, m.acquired⟩]) :
      (i, e) ∈ before := by
    rw [← mem_history_iff, hhistory]
    exact List.mem_append_right _ he
  have howner : m.owner = l.owner := by
    refine Lock.owner_eq_of_toBytes ?_
    simpa using congrArg (·.effect? Key.lock.encode) hm.symm
  rw [hm] at hpast ha ⊢
  obtain ⟨k, hk, hread⟩ := h.exists_read hpast (t := m.acquired) (hown (by simp))
  have hlock : (m.storing current').lock? = some m := by
    refine lock?_storing hread (h.timed.year k ?_) _
    rw [hpast, List.length_append]
    omega
  refine ⟨m, k, ?_, howner, List.mem_append_left _ ?_, ?_, hread, le_rfl, by simp; omega, ?_, ?_⟩
  · rw [ha.get?_eq, Lock.effect?_storing, if_pos rfl, Option.getD_some]
  · exact howner ▸ hown (by simp)
  · exact ⟨_, List.mem_append_right _ (List.mem_singleton_self _), hlock⟩
  · intro e l' he hl'
    rcases List.mem_append.mp he with he | he
    · rw [Exchange.lock?_eq_none (h.first _ he rfl)] at hl'
      cases hl'
    · obtain ⟨-, rfl⟩ := Prod.mk.inj (List.mem_singleton.mp he)
      rw [hlock, Option.some_inj] at hl'
      exact ⟨k, le_rfl, hl' ▸ hread⟩
  · rw [hleft, ← hread]
    exact Program.Follows.mono (follows_keeping db rounds ⟨_, rfl⟩) fun _ _ _ => trivial

/-- **The process holds its lock at each moment since it has taken it.** -/
theorem exists_held {mid : Trace ι} (hafter : after = mid ++ rest)
    (run : Interleaving (fun j => (runs j).program) store
      (before ++ (i, l.storing current) :: mid) w) :
    ∃ m k k', Held clock i l.owner (before ++ (i, l.storing current) :: mid) w m k k' := by
  induction mid using List.reverseRecOn generalizing w rest with
  | nil =>
    obtain ⟨m, k, hheld⟩ := h.exists_held_first run
    exact ⟨m, k, k, hheld⟩
  | append_singleton mid x ih =>
    obtain ⟨j, q, r⟩ := x
    have hpast : trace = (before ++ (i, l.storing current) :: mid) ++ (j, ⟨q, r⟩) :: rest := by
      rw [h.eq, hafter]
      simp
    rw [← List.cons_append, ← List.append_assoc] at run ⊢
    obtain ⟨w', next, run', hj, ha, hleft⟩ := run.exists_of_concat
    have hmid : after = mid ++ (j, ⟨q, r⟩) :: rest := by
      rw [hafter]
      simp
    obtain ⟨m, k, k', hheld⟩ := ih hmid run'
    by_cases hji : j = i
    · subst hji
      exact h.exists_held_own hpast (by simp [hmid]) hheld hj ha
        (by rw [hleft, Function.update_self])
    · have he := h.effect?_eq_none hpast (by simp) hji run' run hheld
      refine ⟨m, k, k', hheld.concat he ha hheld.le ?_ ?_⟩
      · have := hheld.lt
        simp at this ⊢
        omega
      · rw [hleft, Function.update_of_ne (Ne.symm hji)]
        exact hheld.follows

end Beating

end Runs

end Rebuild

end ContentIndex
