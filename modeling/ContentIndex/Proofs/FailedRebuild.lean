import ContentIndex.Proofs.Ranges
import ContentIndex.Proofs.Upkeep

/-!
# Rebuilds that fail

A rebuild that finds a lock is turned away and writes nothing. One that fails later, because it is
told to stop or because the source fails, withdraws what it has written: nothing is left under its
number, the lock is given back, and the active generation and the one that it replaced are as they
were. What may be gone are generations that nobody reads.

## Main definitions

* `Sole.protocol`: the protocol of a program that is the only one to write, on sound storage
* `Store.readable`: the generations that queries may read
* `Rebuild.Withdrawn`: what a rebuild leaves that has failed

## Main results

* `Rebuild.follows_withdrawn`: a rebuild that holds the lock and fails is withdrawn
* `Rebuild.withdrawn_of_failed`: **a rebuild that fails leaves the index as it was**
-/

namespace ContentIndex

variable {α ε : Type}

/-! ### Programs that are turned away -/

/-- Another rebuild was there before. -/
def IndexError.isRejection : IndexError → Bool
  | .rebuildInProgress _ _ => true
  | _ => false

namespace Applying

/-- The protocol of a program that is at its second stage when it has applied a batch. -/
def protocol : Protocol Bool where
  may _ e := ∃ s s', Store.Answers s e s'
  step b e b' := b' = (b || e.applied?.isSome)
  may_scan := by
    rintro b range d limit es ⟨s, s', h⟩ e he
    exact h.mem_range he
  cuts := True

instance : protocol.Lenient := ⟨fun h => by simp [protocol, h.1]⟩

variable {b : Bool}

/-- Nothing is said of a program at all. -/
theorem follows_any (t : Program α) : t.Follows protocol (fun _ _ => True) b :=
  t.follows_any (fun _ _ _ => ⟨_, rfl⟩) trivial b

/-- What is left of a program follows the protocol, from the first stage on if it has applied
nothing. -/
theorem follows_of_interleaving {ι : Type} [DecidableEq ι] {programs : ι → Program α}
    {store : Store} {trace : Trace ι} {w : World ι α} {i : ι} {post : α → Bool → Prop}
    (run : Interleaving programs store trace w)
    (hfollows : (programs i).Follows protocol post false) :
    ∃ b, (w.left i).Follows protocol post b ∧
      (b = false → ∀ x ∈ trace, x.1 = i → x.2.applied? = none) := by
  induction run with
  | start => exact ⟨false, hfollows, fun _ => nofun⟩
  | @step trace w j q next r store' run hj ha ih =>
    obtain ⟨b, hleft, hb⟩ := ih
    by_cases hij : i = j
    · subst hij
      rw [hj] at hleft
      obtain ⟨_, rfl, hnext⟩ := hleft r ⟨_, _, ha⟩
      refine ⟨_, by simpa using hnext, fun hfalse x hx hxi => ?_⟩
      obtain ⟨hfalse, hnone⟩ := Bool.or_eq_false_iff.mp hfalse
      rcases List.mem_append.mp hx with hx | hx
      · exact hb hfalse x hx hxi
      · obtain rfl := List.mem_singleton.mp hx
        simpa using hnone
    · refine ⟨b, ?_, fun hfalse x hx hxi => ?_⟩
      · dsimp only
        rwa [Function.update_of_ne hij]
      · rcases List.mem_append.mp hx with hx | hx
        · exact hb hfalse x hx hxi
        · obtain rfl := List.mem_singleton.mp hx
          exact absurd hxi.symm hij

/-- The failure is not that the program was turned away. -/
abbrev Other (e : IndexError) (_ : Bool) : Prop := e.isRejection = false

/-- A failure of storage does not turn a program away. -/
theorem follows_storage_any (t : Storage α) :
    Failing.Follows protocol (fun _ _ => True) Other (liftM t : Failing IndexError α) b := by
  refine follows_storage (Program.Follows.mono (follows_any t.run) fun r _ _ => ?_)
  cases r with
  | ok a => trivial
  | error e => rfl

/-- Failures that do not stop the run do not turn a program away. -/
theorem follows_outcome_any {ε' : Type} {E : ε → Bool → Prop} (t : Failing ε' α) :
    (Failing.outcome t : Failing ε (Except ε' α)).Follows protocol (fun _ _ => True) E b :=
  Failing.Follows.lift (follows_any t.run)

theorem follows_program_any {E : IndexError → Bool → Prop} (t : Program α) :
    Failing.Follows protocol (fun _ _ => True) E (liftM t : Failing IndexError α) b :=
  follows_program (follows_any t)

/-! ### Rebuilds that are turned away -/

variable {db : Database}

/-- Who does not get the lock has applied nothing. -/
theorem follows_acquire {seconds : Nat} :
    (Lock.acquire seconds).Follows protocol (fun _ _ => True)
      (fun e b => e.isRejection → b = false) false := by
  refine Failing.Follows.bind (m := fun _ b => b = false)
    (follows_storage (follows_get (fun _ => rfl) fun _ _ => rfl)) ?_
  rintro current _ rfl
  refine Failing.Follows.bind (m := fun _ b => b = false) (follows_program follows_liveIn?) ?_
  rintro held _ rfl
  split
  · exact fun _ => rfl
  · refine Failing.Follows.bind (m := fun _ b => b = false)
      (follows_program (follows_question (fun _ => ⟨rfl, nofun⟩) fun _ _ => rfl)) ?_
    rintro owner _ rfl
    refine Failing.Follows.bind (m := fun _ b => b = false) (follows_program follows_now) ?_
    rintro t _ rfl
    refine Failing.Follows.bind (m := fun r b => r ≠ .ok () → b = false)
      (Failing.Follows.outcome (follows_write rfl (fun h => absurd rfl h) fun _ _ => rfl)) ?_
    intro r b hr
    split
    · trivial
    · -- somebody else has taken the lock in between
      obtain rfl := hr nofun
      refine Failing.Follows.bind (m := fun _ b => b = false) ?_ fun e b hb _ => hb
      refine Failing.Follows.bind (m := fun _ b => b = false)
        (follows_storage (follows_get (fun _ => rfl) fun _ _ => rfl)) ?_
      rintro stored _ rfl
      split
      · rfl
      · refine Failing.Follows.bind (follows_program follows_now) ?_
        rintro t _ rfl
        rfl
    · nofun

variable {l : Lock}

theorem follows_keepLock :
    db.keepLock.Follows protocol (fun _ _ _ => True) (fun e _ => Other e) l b := by
  refine Building.Follows.bind (m := fun _ _ _ => True) (Building.Follows.get trivial) ?_
  rintro held l b -
  refine Building.Follows.bind (m := fun _ _ _ => True) (Building.Follows.lift ?_)
    fun _ _ _ _ => trivial
  refine Failing.Follows.bind (m := fun _ _ => True) (follows_program_any _) fun t b _ => ?_
  split
  · trivial
  · refine Failing.Follows.bind (m := fun _ _ => True) (follows_outcome_any _) fun r b _ => ?_
    split
    · trivial
    · rfl
    · rfl

theorem follows_writeFresh {g : Generation} {c : Graph.Collection} {path : String} :
    (db.writeFresh g c path).Follows protocol (fun _ _ => True) Other b := by
  refine Failing.Follows.bind (m := fun _ _ => True) (follows_program_any _) fun r b _ => ?_
  split
  · trivial
  · trivial
  · split
    · trivial
    · exact Failing.Follows.bind (follows_storage_any _) fun _ _ _ => trivial

theorem follows_writeAll {g : Generation} {todo : List (Graph.Collection × String)}
    {report : Report} :
    (db.writeAll g todo report).Follows protocol (fun _ _ _ => True) (fun e _ => Other e)
      l b := by
  induction todo generalizing report l b with
  | nil => trivial
  | cons x rest ih =>
    refine Building.Follows.bind (m := fun _ _ _ => True)
      (Building.Follows.lift ((follows_checkCancelled (E := Other) rfl).mono
        (fun _ _ _ => trivial) fun _ _ h => h)) fun _ l b _ => ?_
    refine Building.Follows.bind follows_keepLock fun _ l b _ => ?_
    exact Building.Follows.bind (m := fun _ _ _ => True) (Building.Follows.lift follows_writeFresh)
      fun _ _ _ _ => ih

/-- A rebuild that has the lock is not turned away. -/
theorem follows_build {rounds : Nat} {active : Option Generation} {g : Generation} :
    (db.build rounds active g).Follows protocol (fun _ _ _ => True) (fun e _ => Other e)
      l b := by
  refine Building.Follows.bind (m := fun _ _ _ => True)
    (Building.Follows.lift (follows_storage_any _)) fun _ l b _ => ?_
  refine Building.Follows.bind (m := fun _ _ _ => True)
    (Building.Follows.lift (follows_storage_any _)) fun _ l b _ => ?_
  refine Building.Follows.bind (m := fun _ _ _ => True)
    (Building.Follows.lift ((Rebuild.follows_told (E := Other) rfl fun _ => rfl).mono
      (fun _ _ _ => trivial) fun _ _ h => h)) fun _ l b _ => ?_
  refine Building.Follows.bind follows_writeAll fun _ l b _ => ?_
  refine Building.Follows.bind (m := fun _ _ _ => True)
    (Building.Follows.lift ((follows_checkCancelled (E := Other) rfl).mono
      (fun _ _ _ => trivial) fun _ _ h => h)) fun _ l b _ => ?_
  exact Building.Follows.bind (m := fun _ _ _ => True)
    (Building.Follows.lift (follows_storage_any _)) fun _ _ _ _ => trivial

/-- A rebuild that is turned away has applied nothing. -/
theorem follows_rebuild {rounds : Nat} :
    (db.rebuild rounds).Follows protocol (fun _ _ => True) (fun e b => e.isRejection → b = false)
      false := by
  refine Failing.Follows.bind follows_acquire fun lock b _ => ?_
  refine Failing.Follows.mono (E := Other) ?_ (fun _ _ h => h) fun e b he h => ?_
  swap
  · rw [he] at h
    cases h
  refine Failing.Follows.bind (m := fun _ _ => True) (follows_outcome_any _) fun r b _ => ?_
  split
  · exact Failing.Follows.bind (m := fun _ _ => True) (follows_outcome_any _) fun _ _ _ => rfl
  · refine Failing.Follows.bind (m := fun r b => ∀ e, r.1 = .error e → Other e b)
      (Failing.Follows.lift (Program.Follows.mono follows_build ?_)) ?_
    · rintro ⟨r, l⟩ b hr e rfl
      exact hr
    rintro ⟨built, l⟩ b hbuilt
    cases built with
    | error e =>
      exact Failing.Follows.bind (m := fun _ _ => True) (Failing.Follows.lift (follows_any _))
        fun _ _ _ => hbuilt e rfl
    | ok report =>
      refine Failing.Follows.bind (m := fun _ _ => True) (follows_outcome_any _) fun r b _ => ?_
      cases r with
      | ok _ => trivial
      | error e =>
        refine Failing.Follows.bind (m := fun _ _ => True)
          (Failing.Follows.lift (follows_any _)) fun _ _ _ => ?_
        -- a swap that fails has lost the lock, or storage has failed
        show (Database.swapFailure l e).isRejection = false
        cases e with
        | conflict key =>
          rw [Database.swapFailure]
          split <;> rfl
        | backend m => rfl
        | corrupt key reason => rfl

end Applying

/-! ### Programs that write alone -/

/-- The backend has failed. -/
def Exchange.breaks : Exchange → Bool
  | ⟨.get _, .error (.backend _)⟩ | ⟨.scan _ _ _, .error (.backend _)⟩
  | ⟨.write _, .error (.backend _)⟩ => true
  | _ => false

namespace Sole

/-- The protocol of a program that is the only one to write, on a backend that does not fail. All
questions about other things than storage are answered in any way. -/
def protocol : Protocol Store where
  may s e := (∃ s', s.Answers e s') ∧ ¬ e.breaks
  step s e s' := s' = Alone.after s e
  may_scan := by
    rintro s range d limit es ⟨⟨s', h⟩, -⟩ e he
    exact h.mem_range he
  cuts := True

instance : protocol.Lenient := ⟨fun h => (Alone.after_eq_of_applied? h.1).symm⟩

/-- What is left of a program follows the protocol, if nobody else writes. -/
theorem follows_of_interleaving {ι : Type} [DecidableEq ι] {programs : ι → Program α}
    {store : Store} {trace : Trace ι} {w : World ι α} {i : ι} {post : α → Store → Prop}
    (run : Interleaving programs store trace w)
    (hothers : ∀ x ∈ trace, x.1 ≠ i → x.2.applied? = none)
    (hsound : ∀ x ∈ trace, x.1 = i → ¬ x.2.breaks)
    (hfollows : (programs i).Follows protocol post store) :
    (w.left i).Follows protocol post w.store := by
  induction run with
  | start => exact hfollows
  | @step trace w j q next r store' run hj ha ih =>
    have hleft := ih (fun x hx => hothers x (List.mem_append_left _ hx))
      fun x hx => hsound x (List.mem_append_left _ hx)
    by_cases hij : i = j
    · subst hij
      rw [hj] at hleft
      obtain ⟨s', rfl, hnext⟩ := hleft r ⟨⟨_, ha⟩, hsound (i, ⟨q, r⟩) (by simp) rfl⟩
      rw [← Alone.eq_after ha] at hnext
      simpa using hnext
    · have hquiet : Exchange.applied? ⟨q, r⟩ = none :=
        hothers (j, ⟨q, r⟩) (by simp) fun h => hij h.symm
      have hstore : store' = w.store := by
        rw [Alone.eq_after ha, Alone.after_eq_of_applied? hquiet]
      dsimp only
      rw [hstore, Function.update_of_ne hij]
      exact hleft

variable {s : Store} {E : StorageError → Store → Prop}

theorem follows_get {key : Bytes} {Q : Option Bytes → Store → Prop} (h : Q (s.get? key) s) :
    (Storage.get key).Follows protocol Q E s := by
  refine follows_question (fun _ => ⟨rfl, nofun⟩) ?_
  rintro r ⟨⟨s', hr⟩, hsound⟩
  cases hr with
  | get => exact h
  | getFails => exact absurd rfl hsound

theorem follows_scan {range : KeyRange} {d : Direction} {limit : Nat}
    {Q : List Entry → Store → Prop} (h : Q (s.scan range d limit) s) :
    (Storage.scan range d limit).Follows protocol Q E s := by
  refine follows_question (fun _ => ⟨rfl, nofun⟩) ?_
  rintro r ⟨⟨s', hr⟩, hsound⟩
  cases hr with
  | scan => exact h
  | scanFails => exact absurd rfl hsound

/-- A batch whose guards hold is applied. -/
theorem follows_write {b : Batch} {Q : Unit → Store → Prop}
    (hguards : ∀ g ∈ b.guards, s.get? g.key = g.expected)
    (hok : Q () (b.ops.foldl Store.apply s)) : (Storage.write b).Follows protocol Q E s := by
  refine Program.Follows.question ?_
  rintro r ⟨⟨s', hr⟩, hsound⟩
  refine ⟨_, rfl, ?_⟩
  cases hr with
  | write h => exact hok
  | writeConflicts h =>
    have hwrite := Store.write_eq_ok_iff.mpr ⟨hguards, rfl⟩
    rw [h] at hwrite
    cases hwrite
  | writeFails => exact absurd rfl hsound

/-- What is stored as a number is read. -/
theorem follows_number {key : Key} {g? : Option Generation}
    {Q : Option (Generation × Bytes) → Store → Prop}
    (hstored : s.get? key.encode = g?.map Generation.toBytes)
    (hok : Q (g?.map fun g => (g, g.toBytes)) s) :
    (Generation.stored? key).Follows protocol Q E s := by
  refine Failing.Follows.bind (m := fun v s' => v = g?.map Generation.toBytes ∧ s' = s)
    (follows_get ⟨hstored, rfl⟩) ?_
  rintro _ s ⟨rfl, rfl⟩
  cases g? with
  | none => exact hok
  | some g =>
    refine Failing.Follows.bind (m := fun g' s' => g' = g ∧ s' = s) (follows_ofStored ?_ ?_) ?_
    · intro g' hg'
      rw [Generation.parse?_toBytes] at hg'
      exact ⟨(Option.some.inj hg').symm, rfl⟩
    · rw [Generation.parse?_toBytes]
      nofun
    · rintro _ s ⟨rfl, rfl⟩
      exact hok

end Sole

/-! ### Numbers that are stored -/

/-- The number under a key. -/
def Store.number? (s : Store) (key : Key) : Option Generation :=
  (s.get? key.encode).bind Generation.parse?

/-- The generation that a generation has replaced, as its information tells. -/
def Store.replacedBy? (s : Store) (g : Generation) : Option Generation :=
  ((s.get? (Key.info g).encode).bind GenerationInfo.ofBytes?).bind (·.previous)

/-- The generations that queries may read: the active one and the one that it has replaced. -/
def Store.readable (s : Store) : List Generation :=
  (s.number? .active).toList ++ ((s.number? .active).bind s.replacedBy?).toList

/-- The number of the next rebuild. -/
def Store.nextNumber (s : Store) : Generation :=
  Generation.successor (s.number? .counter) (s.number? .active)

/-- The numbers that are stored are in order. -/
structure Store.Numbered (s : Store) : Prop where
  /-- The counter is a number, if there is one. -/
  counter : s.get? Key.counter.encode = (s.number? .counter).map Generation.toBytes
  /-- The active generation is a number, if there is one. -/
  active : s.get? Key.active.encode = (s.number? .active).map Generation.toBytes
  /-- The next number is above both. -/
  above : ∀ g, s.number? .counter = some g ∨ s.number? .active = some g → g < s.nextNumber
  /-- Nothing is stored under it. -/
  free : ∀ k, Key.generationPrefix s.nextNumber <+: k → s.get? k = none

theorem Store.number?_eq {s : Store} {key : Key} {g? : Option Generation}
    (h : s.get? key.encode = g?.map Generation.toBytes) : s.number? key = g? := by
  rw [number?, h]
  cases g? with
  | none => rfl
  | some g => exact Generation.parse?_toBytes g

/-- Whatever runs have left, the numbers are in order. -/
theorem Store.Reachable.numbered {s : Store} (h : s.Reachable) : s.Numbered := by
  have hfree := h.nextFree
  obtain ⟨ι, _, runs, trace, w, run, hcount, rfl⟩ := h
  obtain ⟨stages, course⟩ : ∃ stages, RunCourse runs .none trace w.store stages :=
    Run.exists_course run
  obtain ⟨n, swapped, hn⟩ := Rebuild.numbering_of_course course.metaCourse hcount
  have hlt : n + 1 < 2 ^ 64 := by
    have := hn.length_eq
    omega
  have hcounter := Rebuild.get?_of_written course hn.counter
  have hactive := Rebuild.get?_of_written course hn.active
  have hcounter' : w.store.number? .counter = _ := number?_eq hcounter
  have hactive' : w.store.number? .active = _ := number?_eq hactive
  have hle (g : Generation) (hg : w.store.number? .active = some g) : g.toNat ≤ n := by
    rw [hactive'] at hg
    exact hn.counted g (List.mem_of_getLast? hg)
  have hnext : w.store.nextNumber = UInt64.ofNat (n + 1) :=
    Rebuild.successor_eq hlt hcounter' hle
  rw [← hcounter'] at hcounter
  rw [← hactive'] at hactive
  refine ⟨hcounter, hactive, fun g hg => ?_, ?_⟩
  · rw [hnext, UInt64.lt_iff_toNat_lt, Rebuild.toNat_ofNat hlt]
    rcases hg with hg | hg
    · rw [hcounter'] at hg
      obtain ⟨k, hk, rfl⟩ := List.mem_map.mp (List.mem_of_getLast? hg)
      rw [List.mem_range] at hk
      rw [Rebuild.toNat_ofNat (by omega)]
      omega
    · exact Nat.lt_succ_of_le (hle g hg)
  · have hreads (g? : Option Generation) :
        Generation.Reads (g?.map fun g => (g, g.toBytes)) := by
      rintro p hp
      obtain ⟨g, -, rfl⟩ := Option.map_eq_some_iff.mp hp
      exact Generation.parse?_toBytes g
    have hfree := hfree _ _ (hreads _) (hreads _) (by simpa [Function.comp_def] using hcounter)
      (by simpa [Function.comp_def] using hactive)
    simpa [Store.nextNumber, Function.comp_def] using hfree

/-- The lock does not matter for the numbers. -/
theorem Store.Numbered.congr {s s' : Store} (h : s.Numbered)
    (hsame : ∀ k, k ≠ Key.lock.encode → s'.get? k = s.get? k) :
    s'.Numbered ∧ s'.number? .active = s.number? .active ∧ s'.nextNumber = s.nextNumber := by
  have hnumber (key : Key) (hkey : key.encode ≠ Key.lock.encode) :
      s'.number? key = s.number? key := by
    rw [number?, hsame _ hkey, number?]
  have hcounter := hnumber .counter counter_ne_lock
  have hactive := hnumber .active active_ne_lock
  have hnext : s'.nextNumber = s.nextNumber := by
    rw [nextNumber, hcounter, hactive, nextNumber]
  refine ⟨⟨?_, ?_, ?_, fun k hk => ?_⟩, hactive, hnext⟩
  · rw [hsame _ counter_ne_lock, hcounter, h.counter]
  · rw [hsame _ active_ne_lock, hactive, h.active]
  · rw [hcounter, hactive, hnext]
    exact h.above
  · rw [hnext] at hk
    rw [hsame k, h.free k hk]
    rintro rfl
    exact Key.not_starts_lock (Key.starts_of_generationPrefix hk)

/-! ### Rebuilds that are withdrawn -/

namespace Rebuild

/-- What a rebuild leaves that has failed, where it has found the first store. -/
structure Withdrawn (before after : Store) : Prop where
  /-- The active generation is the same. -/
  active : after.get? Key.active.encode = before.get? Key.active.encode
  /-- What queries may read is as it was. -/
  readable : ∀ g ∈ before.readable, ∀ k, Key.generationPrefix g <+: k →
    after.get? k = before.get? k
  /-- Nothing is left under the number of the rebuild. -/
  dropped : ∀ k, Key.generationPrefix before.nextNumber <+: k → after.get? k = none
  /-- The lock is given back. -/
  unlocked : after.get? Key.lock.encode = none
  /-- The number is counted. -/
  counted : after.get? Key.counter.encode = some before.nextNumber.toBytes
  /-- It is above all that were handed out. -/
  advanced : ∀ g, before.number? .counter = some g ∨ before.number? .active = some g →
    g < before.nextNumber
  /-- All else is as it was, but for entries of generations that may be gone. -/
  others : ∀ k, k ≠ Key.lock.encode → k ≠ Key.counter.encode →
    after.get? k = before.get? k ∨ after.get? k = none ∧ Key.generationsPrefix <+: k

/-- What a rebuild has done that holds the lock and has a number, and that has found the first
store. -/
structure Ongoing (before : Store) (l : Lock) (s : Store) : Prop where
  /-- It holds the lock. -/
  lock : s.get? Key.lock.encode = some l.toBytes
  /-- Its number is counted. -/
  counter : s.get? Key.counter.encode = some before.nextNumber.toBytes
  /-- All else is as it was, but for its own generation and for entries that nobody reads. -/
  others : ∀ k, k ≠ Key.lock.encode → k ≠ Key.counter.encode →
    ¬ Key.generationPrefix before.nextNumber <+: k →
    s.get? k = before.get? k ∨ s.get? k = none ∧ Key.generationsPrefix <+: k ∧
      ∀ g ∈ before.readable, ¬ Key.generationPrefix g <+: k

namespace Ongoing

variable {before s s' : Store} {l l' : Lock}

theorem ne_of_starts {k : Bytes} (hk : Key.generationsPrefix <+: k) :
    k ≠ Key.lock.encode ∧ k ≠ Key.counter.encode := by
  constructor
  · rintro rfl
    exact Key.not_starts_lock hk
  · rintro rfl
    exact Key.not_starts_counter hk

/-- What is written into the own generation changes nothing else. -/
theorem inside (h : Ongoing before l s) (hsame : ∀ k,
    ¬ Key.generationPrefix before.nextNumber <+: k → s'.get? k = s.get? k) :
    Ongoing before l s' := by
  have hmeta {k : Bytes} (hk : ¬ Key.generationsPrefix <+: k) : s'.get? k = s.get? k :=
    hsame k fun hpre => hk (Key.starts_of_generationPrefix hpre)
  refine ⟨(hmeta Key.not_starts_lock).trans h.lock, (hmeta Key.not_starts_counter).trans h.counter,
    fun k hl hc hg => ?_⟩
  rw [hsame k hg]
  exact h.others k hl hc hg

/-- What nobody reads may be removed. -/
theorem cleared (h : Ongoing before l s) (hcleared : ∀ k, s'.get? k = s.get? k ∨
    s'.get? k = none ∧ Key.generationsPrefix <+: k ∧
      ∀ g ∈ before.readable, ¬ Key.generationPrefix g <+: k) : Ongoing before l s' := by
  have hmeta {k : Bytes} (hk : ¬ Key.generationsPrefix <+: k) : s'.get? k = s.get? k := by
    rcases hcleared k with hsame | hgone
    · exact hsame
    · exact absurd hgone.2.1 hk
  refine ⟨(hmeta Key.not_starts_lock).trans h.lock, (hmeta Key.not_starts_counter).trans h.counter,
    fun k hl hc hg => ?_⟩
  rcases hcleared k with hsame | hgone
  · rw [hsame]
    exact h.others k hl hc hg
  · exact Or.inr hgone

/-- The lock is acquired anew. -/
theorem relocked (h : Ongoing before l s) (hlock : s'.get? Key.lock.encode = some l'.toBytes)
    (hsame : ∀ k, k ≠ Key.lock.encode → s'.get? k = s.get? k) : Ongoing before l' s' := by
  refine ⟨hlock, (hsame _ counter_ne_lock).trans h.counter, fun k hl hc hg => ?_⟩
  rw [hsame k hl]
  exact h.others k hl hc hg

/-- The active generation is the same. -/
theorem active (h : Ongoing before l s) :
    s.get? Key.active.encode = before.get? Key.active.encode := by
  rcases h.others _ active_ne_lock active_ne_counter
    (fun hpre => Key.not_starts_active (Key.starts_of_generationPrefix hpre)) with hsame | hgone
  · exact hsame
  · exact absurd hgone.2.1 Key.not_starts_active

/-- What the active generation has replaced is the same. -/
theorem replacedBy?_eq (h : Ongoing before l s) (hn : before.Numbered) {g : Generation}
    (hg : before.number? .active = some g) : s.replacedBy? g = before.replacedBy? g := by
  obtain ⟨hl, hc⟩ := ne_of_starts (Key.starts_of_generationPrefix (Key.info_starts (g := g)))
  have hown : ¬ Key.generationPrefix before.nextNumber <+: (Key.info g).encode := fun hpre =>
    UInt64.ne_of_lt (hn.above g (Or.inr hg))
      (Key.eq_of_generationPrefix Key.info_starts hpre)
  rcases h.others _ hl hc hown with hsame | hgone
  · rw [Store.replacedBy?, Store.replacedBy?, hsame]
  · refine absurd Key.info_starts (hgone.2.2 g ?_)
    simp [Store.readable, hg]

/-- Without its own generation and its lock a rebuild is withdrawn. -/
theorem withdrawn (h : Ongoing before l s) (hn : before.Numbered)
    (hdropped : ∀ k, Key.generationPrefix before.nextNumber <+: k → s'.get? k = none)
    (hunlocked : s'.get? Key.lock.encode = none)
    (hsame : ∀ k, k ≠ Key.lock.encode → ¬ Key.generationPrefix before.nextNumber <+: k →
      s'.get? k = s.get? k) : Withdrawn before s' := by
  have hmeta {k : Bytes} (hl : k ≠ Key.lock.encode) (hk : ¬ Key.generationsPrefix <+: k) :
      s'.get? k = s.get? k :=
    hsame k hl fun hpre => hk (Key.starts_of_generationPrefix hpre)
  refine ⟨?_, fun g hg k hk => ?_, hdropped, hunlocked, ?_, hn.above, fun k hl hc => ?_⟩
  · rw [hmeta active_ne_lock Key.not_starts_active, h.active]
  · by_cases hown : Key.generationPrefix before.nextNumber <+: k
    · rw [hdropped k hown, hn.free k hown]
    · obtain ⟨hl, hc⟩ := ne_of_starts (Key.starts_of_generationPrefix hk)
      rw [hsame k hl hown]
      rcases h.others k hl hc hown with hkept | hgone
      · exact hkept
      · exact absurd hk (hgone.2.2 g hg)
  · rw [hmeta counter_ne_lock Key.not_starts_counter, h.counter]
  · by_cases hown : Key.generationPrefix before.nextNumber <+: k
    · exact Or.inr ⟨hdropped k hown, Key.starts_of_generationPrefix hown⟩
    · rw [hsame k hl hown]
      rcases h.others k hl hc hown with hkept | hgone
      · exact Or.inl hkept
      · exact Or.inr ⟨hgone.1, hgone.2.1⟩

end Ongoing

/-! ### Steps of a rebuild that writes alone -/

variable {before s : Store} {db : Database} {l : Lock}

/-- Alone with the store, a rebuild gets the lock or is turned away. -/
theorem follows_acquire_alone {seconds : Nat} :
    (Lock.acquire seconds).Follows Sole.protocol
      (fun l s' => s'.get? Key.lock.encode = some l.toBytes ∧
        ∀ k, k ≠ Key.lock.encode → s'.get? k = s.get? k)
      (fun e _ => e.isRejection) s := by
  refine Failing.Follows.bind (m := fun v s' => v = s.get? Key.lock.encode ∧ s' = s)
    (follows_storage (Sole.follows_get ⟨rfl, rfl⟩)) ?_
  rintro _ s ⟨rfl, rfl⟩
  refine Failing.Follows.bind (m := fun _ s' => s' = s) (follows_program follows_liveIn?) ?_
  rintro held s rfl
  split
  · rfl
  · refine Failing.Follows.bind (m := fun _ s' => s' = s)
      (follows_program (follows_question (fun _ => ⟨rfl, fun _ _ h => by cases h⟩) fun _ _ => rfl)) ?_
    rintro owner s rfl
    refine Failing.Follows.bind (m := fun _ s' => s' = s) (follows_program follows_now) ?_
    rintro t s rfl
    refine Failing.Follows.bind (m := fun r s' => r = .ok () ∧
      s'.get? Key.lock.encode = some (Lock.mk owner t).toBytes ∧
        ∀ k, k ≠ Key.lock.encode → s'.get? k = s.get? k)
      (Failing.Follows.outcome (Sole.follows_write (by simp) ⟨rfl, ?_, fun k hk => ?_⟩)) ?_
    · simp [WriteOp.key, WriteOp.value?]
    · exact Store.get?_foldl_apply_of_forall_ne (by simpa [WriteOp.key] using hk.symm)
    rintro _ s' ⟨rfl, hs'⟩
    exact hs'

/-- Alone with a store whose numbers are in order, a rebuild gets the next number. -/
theorem follows_prepare_alone (hn : s.Numbered) {E : StorageError → Store → Prop} :
    Database.prepare.Follows Sole.protocol
      (fun x s' => x.1 = (s.number? .active).map (fun g => (g, g.toBytes)) ∧ x.2 = s.nextNumber ∧
        s'.get? Key.counter.encode = some s.nextNumber.toBytes ∧
        ∀ k, k ≠ Key.counter.encode → s'.get? k = s.get? k) E s := by
  refine Failing.Follows.bind
    (m := fun active s' => active = (s.number? .active).map (fun g => (g, g.toBytes)) ∧ s' = s)
    (Sole.follows_number hn.active ⟨rfl, rfl⟩) ?_
  rintro _ s ⟨rfl, rfl⟩
  refine Failing.Follows.bind (m := fun g s' => g = s.nextNumber ∧
      s'.get? Key.counter.encode = some s.nextNumber.toBytes ∧
      ∀ k, k ≠ Key.counter.encode → s'.get? k = s.get? k) ?_ fun g s' h => ⟨rfl, h⟩
  refine Failing.Follows.retrying ?_ _
  refine Failing.Follows.bind
    (m := fun counter s' => counter = (s.number? .counter).map (fun g => (g, g.toBytes)) ∧ s' = s)
    (Sole.follows_number hn.counter ⟨rfl, rfl⟩) ?_
  rintro _ s ⟨rfl, rfl⟩
  have hnext : Generation.successor
      (((s.number? .counter).map fun g => (g, g.toBytes)).map (·.1))
      (((s.number? .active).map fun g => (g, g.toBytes)).map (·.1)) = s.nextNumber := by
    simp [Store.nextNumber, Function.comp_def]
  rw [hnext]
  refine Failing.Follows.bind (Sole.follows_write (Q := fun _ s' =>
      s'.get? Key.counter.encode = some s.nextNumber.toBytes ∧
      ∀ k, k ≠ Key.counter.encode → s'.get? k = s.get? k) ?_ ⟨?_, fun k hk => ?_⟩)
    fun _ s' h => ⟨rfl, h⟩
  · simpa [Function.comp_def] using hn.counter
  · simp [WriteOp.key, WriteOp.value?]
  · exact Store.get?_foldl_apply_of_forall_ne (by simpa [WriteOp.key] using hk.symm)

/-- Clearing comes to its end when nothing is left in the range, and removes nothing else. -/
theorem follows_clear_alone {range : KeyRange} {E : StorageError → Store → Prop} (rounds : Nat) :
    (Storage.clear range rounds).Follows Sole.protocol
      (fun _ s' => ∀ k, s'.get? k = if range.contains k then none else s.get? k) E s := by
  induction rounds generalizing s with
  | zero => exact Failing.Follows.cut trivial
  | succ rounds ih =>
    refine Failing.Follows.bind
      (m := fun es s' => es = s.scan range .forward Scan.defaultChunk ∧ s' = s)
      (Sole.follows_scan ⟨rfl, rfl⟩) ?_
    rintro _ s ⟨rfl, rfl⟩
    split
    · next hempty =>
      intro k
      have hnil : s.within range .forward = [] := by
        rw [Store.scan_eq_take, List.isEmpty_iff, List.take_eq_nil_iff] at hempty
        exact hempty.resolve_left (by decide)
      split
      · next hk =>
        refine Option.eq_none_iff_forall_ne_some.mpr fun v hv => ?_
        have hmem : (k, v) ∈ s.within range .forward := Store.mem_within.mpr ⟨hv, hk⟩
        rw [hnil] at hmem
        cases hmem
      · rfl
    · -- what is found is in the range
      refine Failing.Follows.bind (Sole.follows_write (Q := fun _ s' => ∀ k,
        s'.get? k = s.get? k ∨ s'.get? k = none ∧ range.contains k) (by simp [Batch.ofOps])
        fun k => ?_) fun _ s' hs' => ?_
      · generalize hes : s.scan range .forward Scan.defaultChunk = es
        have hmap : (es.map fun e => WriteOp.delete e.1) = (es.map (·.1)).map .delete := by simp
        rw [Batch.ofOps, hmap, Store.get?_deletes]
        split
        · next hk =>
          obtain ⟨e, he, rfl⟩ := List.mem_map.mp hk
          exact Or.inr ⟨rfl, (Store.mem_scan (hes ▸ he)).2⟩
        · exact Or.inl rfl
      · refine Failing.Follows.bind ih fun _ s'' hs'' k => ?_
        rw [hs'' k]
        split
        · rfl
        · next hk =>
          rcases hs' k with hsame | hgone
          · exact hsame
          · exact absurd hgone.2 hk

/-- Generations that are kept are not touched. -/
theorem follows_clearExcept_alone {keep : List Generation} {E : StorageError → Store → Prop}
    (rounds : Nat) : (Generation.clearExcept rounds keep).Follows Sole.protocol
      (fun _ s' => ∀ k, s'.get? k = s.get? k ∨ s'.get? k = none ∧ Key.generationsPrefix <+: k ∧
        ∀ g ∈ keep, ¬ Key.generationPrefix g <+: k) E s := by
  refine Failing.Follows.forM (J := fun s' : Store => ∀ k, s'.get? k = s.get? k ∨
    s'.get? k = none ∧ Key.generationsPrefix <+: k ∧
      ∀ g ∈ keep, ¬ Key.generationPrefix g <+: k) ?_ fun _ => Or.inl rfl
  intro range hrange s' hs'
  refine Failing.Follows.discard ((follows_clear_alone rounds).mono (fun _ s'' hs'' k => ?_)
    fun _ _ h => h)
  rw [hs'' k]
  split
  · next hk => exact Or.inr ⟨rfl, Key.not_prefix_of_mem_rangesExcept hrange hk⟩
  · exact hs' k

/-- The list of what is to be done writes nothing, whether it fails or not. -/
theorem follows_documents_alone : db.documents.Follows Sole.protocol (fun _ s' => s' = s)
    (fun _ s' => s' = s) s :=
  (follows_told (E := fun _ s' => s' = s) rfl fun _ => rfl).mono (fun _ _ h => h.1) fun _ _ h => h

theorem follows_beat_alone {seconds : Nat} {E : IndexError → Store → Prop}
    (h : Ongoing before l s) : (Lock.beat seconds l).Follows Sole.protocol
      (fun l' s' => Ongoing before l' s') E s := by
  refine Failing.Follows.bind (m := fun _ s' => s' = s) (follows_program follows_now) ?_
  rintro t s rfl
  split
  · exact h
  · refine Failing.Follows.bind (m := fun r s' => r = .ok () ∧ Ongoing before ⟨l.owner, t⟩ s')
      (Failing.Follows.outcome (Sole.follows_write (by simpa using h.lock)
        ⟨rfl, h.relocked ?_ fun k hk => ?_⟩)) ?_
    · simp [WriteOp.key, WriteOp.value?]
    · exact Store.get?_foldl_apply_of_forall_ne (by simpa [WriteOp.key] using hk.symm)
    rintro _ s' ⟨rfl, hs'⟩
    exact hs'

/-- Alone, a rebuild keeps its lock. -/
theorem follows_keepLock_alone {E : IndexError → Lock → Store → Prop} (h : Ongoing before l s) :
    db.keepLock.Follows Sole.protocol (fun _ l' s' => Ongoing before l' s') E l s := by
  refine Building.Follows.bind (m := fun held l' s' => held = l ∧ l' = l ∧ s' = s)
    (Building.Follows.get ⟨rfl, rfl, rfl⟩) ?_
  rintro _ l s ⟨rfl, rfl, rfl⟩
  refine Building.Follows.bind (m := fun l' _ s' => Ongoing before l' s')
    (Building.Follows.lift (follows_beat_alone h)) ?_
  exact fun l' _ s' h' => Building.Follows.set h'

theorem follows_writeFresh_alone {c : Graph.Collection} {path : String}
    {E : IndexError → Store → Prop} (h : Ongoing before l s) :
    (db.writeFresh before.nextNumber c path).Follows Sole.protocol
      (fun _ s' => Ongoing before l s') E s := by
  refine Failing.Follows.bind (m := fun _ s' => s' = s)
    (follows_program (Program.Follows.question fun _ _ => ⟨s, rfl, rfl⟩)) ?_
  rintro r s rfl
  split
  · exact h
  · exact h
  · split
    · exact h
    · refine Failing.Follows.bind (m := fun _ s' => Ongoing before l s') (follows_storage
        (Sole.follows_write (by simp [Batch.ofOps]) (h.inside fun k hk => ?_))) fun _ _ h => h
      refine Store.get?_foldl_apply_of_forall_ne fun op hop => ?_
      obtain ⟨x, hx, rfl⟩ := List.mem_map.mp hop
      rintro rfl
      exact hk (Record.starts_of_mem_entries hx)

theorem follows_writeAll_alone {todo : List (Graph.Collection × String)} {report : Report}
    (h : Ongoing before l s) : (db.writeAll before.nextNumber todo report).Follows Sole.protocol
      (fun _ l' s' => Ongoing before l' s') (fun _ l' s' => Ongoing before l' s') l s := by
  induction todo generalizing report l s with
  | nil => exact h
  | cons x rest ih =>
    refine Building.Follows.bind (m := fun _ l' s' => Ongoing before l' s')
      (Building.Follows.lift ((follows_checkCancelled h).mono ?_ fun _ _ h => h)) ?_
    · rintro _ s rfl
      exact h
    intro _ l s h
    refine Building.Follows.bind (follows_keepLock_alone h) fun _ l s h => ?_
    refine Building.Follows.bind (m := fun _ l' s' => Ongoing before l' s')
      (Building.Follows.lift (follows_writeFresh_alone h)) fun _ l s h => ?_
    exact ih h

/-- The generation that the active one has replaced is found, or the rebuild fails. -/
theorem follows_retired?_alone (h : Ongoing before l s) (hn : before.Numbered) :
    (Database.retired? (before.number? .active)).Follows Sole.protocol
      (fun retired s' => s' = s ∧ retired = (before.number? .active).bind before.replacedBy?)
      (fun _ s' => s' = s) s := by
  generalize hactive : before.number? .active = active
  cases active with
  | none => exact ⟨rfl, rfl⟩
  | some g =>
    refine Failing.Follows.bind (m := fun (i : Option GenerationInfo) s' => s' = s ∧
      i.bind (·.previous) = before.replacedBy? g) ?_ fun i s' h => h
    rw [← h.replacedBy?_eq hn hactive]
    refine Failing.Follows.bind (m := fun v s' => v = s.get? (Key.info g).encode ∧ s' = s)
      (Sole.follows_get ⟨rfl, rfl⟩) ?_
    rintro v s ⟨hv, rfl⟩
    rw [Store.replacedBy?, ← hv]
    cases v with
    | none => exact ⟨rfl, rfl⟩
    | some b =>
      simp only [Option.bind_some]
      split
      · next i hi =>
        rw [hi]
        exact ⟨rfl, rfl⟩
      · rfl

/-- While it builds, and when that fails, a rebuild has touched nothing that is read. -/
theorem follows_build_alone {rounds : Nat} (h : Ongoing before l s) (hn : before.Numbered) :
    (db.build rounds (before.number? .active) before.nextNumber).Follows Sole.protocol
      (fun _ l' s' => Ongoing before l' s') (fun _ l' s' => Ongoing before l' s') l s := by
  refine Building.Follows.bind
    (m := fun retired l' s' => (l' = l ∧ s' = s) ∧
      retired = (before.number? .active).bind before.replacedBy?)
    (Building.Follows.lift (follows_storage ((follows_retired?_alone h hn).mono
      (fun _ _ h => ⟨⟨rfl, h.1⟩, h.2⟩) ?_))) ?_
  · rintro _ s rfl
    exact h
  rintro _ l s ⟨⟨rfl, rfl⟩, rfl⟩
  refine Building.Follows.bind (m := fun _ l' s' => Ongoing before l' s')
    (Building.Follows.lift (follows_storage ((follows_clearExcept_alone rounds).mono
      (fun _ s' hs' => h.cleared fun k => ?_) fun _ _ h => h))) fun _ l s h => ?_
  · rcases hs' k with hsame | hgone
    · exact Or.inl hsame
    · refine Or.inr ⟨hgone.1, hgone.2.1, fun g hg => hgone.2.2 g ?_⟩
      exact List.mem_append_left _ hg
  refine Building.Follows.bind (m := fun _ l' s' => Ongoing before l' s')
    (Building.Follows.lift (follows_documents_alone.mono ?_ ?_)) fun work l s h => ?_
  · rintro _ s rfl
    exact h
  · rintro _ s rfl
    exact h
  refine Building.Follows.bind (follows_writeAll_alone h) fun report l s h => ?_
  refine Building.Follows.bind (m := fun _ l' s' => Ongoing before l' s')
    (Building.Follows.lift ((follows_checkCancelled h).mono ?_ fun _ _ h => h))
    fun _ l s h => ?_
  · rintro _ s rfl
    exact h
  refine Building.Follows.bind (m := fun _ l' s' => Ongoing before l' s')
    (Building.Follows.lift (follows_storage (Sole.follows_write (by simp [Batch.ofOps])
      (h.inside fun k hk => ?_)))) fun _ _ _ h => h
  refine Store.get?_foldl_apply_of_forall_ne ?_
  simp only [Batch.ofOps, List.mem_singleton, forall_eq, WriteOp.key]
  rintro rfl
  exact hk Key.info_starts

theorem follows_release_alone (hl : s.get? Key.lock.encode = some l.toBytes)
    {E : StorageError → Store → Prop} : l.release.Follows Sole.protocol
      (fun _ s' => s'.get? Key.lock.encode = none ∧
        ∀ k, k ≠ Key.lock.encode → s'.get? k = s.get? k) E s := by
  refine Failing.Follows.bind (m := fun r s' => r = .ok () ∧ s'.get? Key.lock.encode = none ∧
      ∀ k, k ≠ Key.lock.encode → s'.get? k = s.get? k)
    (Failing.Follows.outcome (Sole.follows_write (by simpa using hl) ⟨rfl, ?_, fun k hk => ?_⟩)) ?_
  · simp [WriteOp.key, WriteOp.value?]
  · exact Store.get?_foldl_apply_of_forall_ne (by simpa [WriteOp.key] using hk.symm)
  rintro _ s' ⟨rfl, hs'⟩
  exact hs'

/-- A rebuild that gives up is withdrawn. -/
theorem follows_abandon_alone {rounds : Nat} (h : Ongoing before l s) (hn : before.Numbered) :
    (Database.abandon rounds before.nextNumber l).Follows Sole.protocol
      (fun _ s' => Withdrawn before s') s := by
  refine Program.Follows.bind (m := fun r s' => s' = s ∧
      r = .ok ((before.number? .active).map fun g => (g, g.toBytes))) ?_ ?_
  · refine Program.Follows.mono (Sole.follows_number (E := fun _ _ => False)
      (Q := fun active s' => s' = s ∧ active = (before.number? .active).map fun g => (g, g.toBytes))
      (h.active.trans hn.active) ⟨rfl, rfl⟩) ?_
    intro r s' hr
    cases r with
    | ok active => exact ⟨hr.1, congrArg _ hr.2⟩
    | error e => exact hr.elim
  rintro _ s ⟨rfl, rfl⟩
  have hne : ((before.number? .active).map fun g => (g, g.toBytes)).map (·.1) ≠
      some before.nextNumber := by
    intro heq
    rw [Option.map_map] at heq
    obtain ⟨g, hg, hnext⟩ := Option.map_eq_some_iff.mp heq
    exact UInt64.ne_of_lt (hn.above g (Or.inr hg)) hnext
  show Program.Follows _ _ (if _ ≠ some before.nextNumber then _ else _) s
  rw [if_pos hne]
  have hclear : (Generation.clear rounds before.nextNumber).Follows Sole.protocol
      (fun _ s' => ∀ k, s'.get? k =
        if (KeyRange.ofPrefix (Key.generationPrefix before.nextNumber)).contains k then none
        else s.get? k) (fun _ _ => False) s :=
    Failing.Follows.discard (follows_clear_alone rounds)
  refine Program.Follows.bind (m := fun _ s' => ∀ k, s'.get? k =
    if (KeyRange.ofPrefix (Key.generationPrefix before.nextNumber)).contains k then none
    else s.get? k) (Program.Follows.bind hclear ?_) ?_
  · intro r s' hr
    cases r with
    | ok _ => exact hr
    | error e => exact hr.elim
  intro _ s' hs'
  simp only [KeyRange.contains_ofPrefix_iff] at hs'
  have hlock : s'.get? Key.lock.encode = some l.toBytes := by
    rw [hs', if_neg fun hpre => Key.not_starts_lock (Key.starts_of_generationPrefix hpre), h.lock]
  refine Program.Follows.bind
    (follows_release_alone hlock (E := fun _ _ => False)) fun r s'' hr => ?_
  cases r with
  | error e => exact hr.elim
  | ok _ =>
    obtain ⟨hunlocked, hsame⟩ := hr
    refine h.withdrawn hn (fun k hk => ?_) hunlocked fun k hl hk => ?_
    · obtain ⟨hl, -⟩ := Ongoing.ne_of_starts (Key.starts_of_generationPrefix hk)
      rw [hsame k hl, hs', if_pos hk]
    · rw [hsame k hl, hs', if_neg hk]

/-- **A rebuild that holds the lock and fails is withdrawn.** -/
theorem follows_withdrawn {rounds : Nat} (hn : before.Numbered) :
    (db.rebuild rounds).Follows Sole.protocol (fun _ _ => True)
      (fun e s' => e.isRejection = false → Withdrawn before s') before := by
  refine Failing.Follows.bind (follows_acquire_alone.mono (fun _ _ h => h) ?_) ?_
  · intro e s he h
    rw [he] at h
    cases h
  rintro lock s ⟨hlock, hsame⟩
  obtain ⟨hn', hactive, hnext⟩ := hn.congr hsame
  refine Failing.Follows.bind (m := fun r s' =>
      r = .ok ((before.number? .active).map (fun g => (g, g.toBytes)), before.nextNumber) ∧
      Ongoing before lock s')
    (Failing.Follows.outcome ((follows_prepare_alone hn' (E := fun _ _ => False)).mono ?_ nofun)) ?_
  · rintro ⟨active, g⟩ s' ⟨rfl, rfl, hcounter, hsame'⟩
    refine ⟨by rw [hactive, hnext], ?_, by rw [hcounter, hnext], fun k hl hc _ => Or.inl ?_⟩
    · rw [hsame' _ lock_ne_counter, hlock]
    · rw [hsame' k hc, hsame k hl]
  rintro _ s ⟨rfl, h⟩
  have hactive : ((before.number? .active).map fun g => (g, g.toBytes)).map (·.1) =
      before.number? .active := by
    simp [Function.comp_def]
  simp only [hactive]
  refine Failing.Follows.bind (m := fun r s' => Ongoing before r.2 s')
    (Failing.Follows.lift (Program.Follows.mono (follows_build_alone h hn) ?_)) ?_
  · rintro ⟨r, l⟩ s' hr
    cases r with
    | ok report => exact hr
    | error e => exact hr
  rintro ⟨built, l⟩ s h
  cases built with
  | error e =>
    exact Failing.Follows.bind (Failing.Follows.lift (follows_abandon_alone h hn))
      fun _ _ hs' _ => hs'
  | ok report =>
    -- nobody else has written, so the swap is made
    refine Failing.Follows.bind (m := fun r _ => r = .ok ())
      (Failing.Follows.outcome (Sole.follows_write ?_ rfl)) ?_
    · simpa [Database.swap, Function.comp_def] using ⟨h.active.trans hn.active, h.lock⟩
    rintro _ s' rfl
    trivial

/-- **A rebuild that fails leaves the index as it was.** One that is turned away writes nothing,
whatever runs at the same time. One that has got the lock and fails later, on whatever store runs
have left, is withdrawn, if nobody else writes meanwhile and the backend does not fail. -/
theorem withdrawn_of_failed {ι : Type} [DecidableEq ι] (db : Database) (rounds : Nat)
    {programs : ι → Program (Except IndexError Report)} {store : Store} {trace : Trace ι}
    {w : World ι (Except IndexError Report)} {i : ι} {e : IndexError}
    (run : Interleaving programs store trace w) (hi : programs i = (db.rebuild rounds).run)
    (hfailed : w.left i = .done (.error e)) :
    (e.isRejection → ∀ x ∈ trace, x.1 = i → x.2.applied? = none) ∧
      (e.isRejection = false → store.Reachable →
        (∀ x ∈ trace, x.1 ≠ i → x.2.applied? = none) →
        (∀ x ∈ trace, x.1 = i → ¬ x.2.breaks) → Withdrawn store w.store) := by
  constructor
  · intro he
    have hfollows : (programs i).Follows Applying.protocol
        (Ends (fun _ _ => True) fun e b => e.isRejection → b = false) false := by
      rw [hi]
      exact Applying.follows_rebuild
    obtain ⟨b, hleft, hb⟩ := Applying.follows_of_interleaving run hfollows
    rw [hfailed] at hleft
    exact hb (hleft he)
  · intro he hreachable hothers hsound
    have hfollows : (programs i).Follows Sole.protocol
        (Ends (fun _ _ => True) fun e s' => e.isRejection = false → Withdrawn store s') store := by
      rw [hi]
      exact follows_withdrawn hreachable.numbered
    have hleft := Sole.follows_of_interleaving run hothers hsound hfollows
    rw [hfailed] at hleft
    exact hleft he

/-! ### A rebuild that is told to stop -/

/-- A rebuild has written a note when another one is turned away. -/
def unfinished : Play Bool (Except IndexError Report) :=
  Host.play ⟨OrderedMap.empty, note "true", 0, 0, false⟩ (fun _ => (notebook.rebuild 2).run) <|
    .replicate 15 (.asks false) ++ .replicate 2 (.asks true)

/-- The rebuild is told to stop. -/
def stopped : Play Bool (Except IndexError Report) :=
  unfinished.stop.go (.replicate 6 (.asks false))

theorem stopped_interleaving : Interleaving (fun _ : Bool => (notebook.rebuild 2).run)
    OrderedMap.empty stopped.trace stopped.world := by
  have run : Interleaving (fun _ : Bool => (notebook.rebuild 2).run) OrderedMap.empty
      unfinished.trace unfinished.world :=
    Host.interleaving_play ⟨OrderedMap.empty, note "true", 0, 0, false⟩
      (fun _ : Bool => (notebook.rebuild 2).run) _
  exact Play.interleaving_go (Play.interleaving_stop run) (.replicate 6 (.asks false))

theorem stopped_failed : (stopped.world.left false).failure? = some .cancelled ∧
    ((stopped.world.left true).failure?.any (·.isRejection)) ∧
    (∀ x ∈ stopped.trace, x.1 = true → x.2.applied? = none) ∧
    (∀ x ∈ stopped.trace, ¬ x.2.breaks) ∧
    (unfinished.host.store.get? (Key.document 1 "notes" "notes/a.json").encode).isSome := by
  decide +kernel

/-- The note is there for a while, and gone in the end. Nothing was written by the rebuild that was
turned away. -/
theorem withdrawn_of_failed_stopped :
    (unfinished.host.store.get? (Key.document 1 "notes" "notes/a.json").encode).isSome ∧
      Withdrawn OrderedMap.empty stopped.world.store ∧
      ∀ x ∈ stopped.trace, x.1 = true → x.2.applied? = none := by
  obtain ⟨hcancelled, hrejected, hothers, hsound, hwritten⟩ := stopped_failed
  obtain ⟨e, hrejected, he⟩ := (Option.any_eq_true _ _).mp hrejected
  rw [Program.failure?_eq_some_iff] at hcancelled hrejected
  have hstopped := withdrawn_of_failed (i := false) notebook 2 stopped_interleaving rfl hcancelled
  have hturned := withdrawn_of_failed (i := true) notebook 2 stopped_interleaving rfl hrejected
  refine ⟨hwritten, hstopped.2 rfl Store.reachable_empty (fun x hx hne => hothers x hx ?_)
    fun x hx _ => hsound x hx, hturned.1 he⟩
  simpa using hne

end Rebuild

end ContentIndex
