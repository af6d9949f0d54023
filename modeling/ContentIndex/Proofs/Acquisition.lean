import ContentIndex.Proofs.Continuations
import ContentIndex.Proofs.SwapSafety

/-!
# Taking the lock

Who takes the lock has looked at what was stored: it was no lock, or one that had expired when the
clock was looked at. It is replaced with the last question, guarded by what was looked at. Who does
not get the lock has written nothing, and names the owner of a lock that it has seen.

## Main definitions

* `Lock.Cleared`: how a process finds that there is no live lock
* `Lock.Taken`, `Lock.Refused`: what a process has had when it has got the lock, and when it has not
* `Database.rebuildLocked`: the rest of a rebuild that has got it
* `Rebuild.Unlocked`: processes that have not written the lock

## Main results

* `Lock.follows_acquire_history`: **how the lock is taken, and why it is not**
* `Rebuild.taken_of_storing`: the first lock that a rebuild stores is one that it has taken so
* `Rebuild.refused_of_unlocked`: a rebuild that has stored no lock is refused, or soon will be
-/

namespace ContentIndex

variable {ι α : Type}

/-- Storage has failed, and not because of a guard. -/
def Exchange.isOutage : Exchange → Bool
  | ⟨.get _, .error _⟩ | ⟨.scan _ _ _, .error _⟩ => true
  | ⟨.write _, .error e⟩ => !e.isConflict
  | _ => false

namespace Lock

/-- There was no live lock in the stored value: it was no lock, or one that had expired by a look at
the clock. -/
inductive Cleared (seconds : Nat) (current : Option Bytes) : List Exchange → Prop
  /-- There was no lock. -/
  | none (h : current.bind ofBytes? = .none) : Cleared seconds current []
  /-- It had expired. -/
  | expired {l : Lock} {t : Instant} (h : current.bind ofBytes? = some l)
    (ht : l.isExpired seconds t) : Cleared seconds current [⟨.now, t⟩]

/-- The process has taken the lock: it has looked at the stored value, which was none or had
expired, has got a name, has looked at the clock, and has replaced the value. -/
def Taken (seconds : Nat) (l : Lock) (h : List Exchange) : Prop :=
  ∃ current look, Cleared seconds current look ∧
    h = ⟨.get Key.lock.encode, .ok current⟩ :: look ++
      [⟨.freshName, l.owner⟩, ⟨.now, l.acquired⟩, l.storing current]

/-- The owner of the lock in a stored value, as it is named in a failure. -/
def ownerIn (stored : Option Bytes) : String :=
  ((stored.bind ofBytes?).map (·.owner)).getD unknownOwner

/-- The process has not got the lock: it has written nothing, and it has failed because of a lock
that it has seen, or with storage. -/
def Refused (e : IndexError) (h : List Exchange) : Prop :=
  WritesNothing h ∧ ((∃ t v, e = .rebuildInProgress (ownerIn v) t ∧
    (⟨.get Key.lock.encode, .ok v⟩ : Exchange) ∈ h) ∨ ∃ x ∈ h, x.isOutage)

theorem ownerIn_of_some {stored : Option Bytes} {l : Lock} (h : stored.bind ofBytes? = some l) :
    ownerIn stored = l.owner := by
  rw [ownerIn, h]
  rfl

theorem ownerIn_of_none {stored : Option Bytes} (h : stored.bind ofBytes? = none) :
    ownerIn stored = unknownOwner := by
  rw [ownerIn, h]
  rfl

/-- Before a lock is stored nothing is written. -/
theorem Cleared.writesNothing {seconds : Nat} {current : Option Bytes} {look : List Exchange}
    (h : Cleared seconds current look) (owner : String) (t : Instant) :
    WritesNothing (⟨.get Key.lock.encode, .ok current⟩ :: look ++
      [⟨.freshName, owner⟩, ⟨.now, t⟩]) := by
  intro e he
  simp only [List.cons_append, List.mem_cons, List.mem_append, List.not_mem_nil, or_false] at he
  rcases he with rfl | he | rfl | rfl
  · rfl
  · cases h with
    | none => cases he
    | expired =>
      cases List.mem_singleton.mp he
      rfl
  · rfl
  · rfl

theorem Taken.writesNothing {seconds : Nat} {l : Lock} {h : List Exchange}
    (htaken : Taken seconds l h) : WritesNothing h.dropLast := by
  obtain ⟨current, look, hlook, rfl⟩ := htaken
  have hdrop : (⟨.get Key.lock.encode, .ok current⟩ :: look ++
      [⟨.freshName, l.owner⟩, ⟨.now, l.acquired⟩, l.storing current] : List Exchange).dropLast =
      ⟨.get Key.lock.encode, .ok current⟩ :: look ++
        [⟨.freshName, l.owner⟩, ⟨.now, l.acquired⟩] := by
    rw [List.dropLast_append_of_ne_nil (by simp)]
    rfl
  rw [hdrop]
  exact hlook.writesNothing _ _

/-! ### The program -/

section Histories

variable {h : List Exchange} {seconds : Nat} {current : Option Bytes}

theorem follows_liveIn?_history : (liveIn? seconds current).Follows History.protocol
    (fun held? h' => match held? with
      | .none => ∃ look, Cleared seconds current look ∧ h' = h ++ look
      | some held => current.bind ofBytes? = some held ∧ ∃ t, h' = h ++ [⟨.now, t⟩]) h := by
  unfold liveIn?
  split
  · next hnone => exact ⟨[], .none hnone, (List.append_nil h).symm⟩
  · next lock hlock =>
    refine Program.Follows.bind (m := fun t h' => h' = h ++ [⟨.now, t⟩])
      (History.follows_question fun _ => rfl) ?_
    rintro t _ rfl
    show Program.Follows _ _ (.done (if lock.isExpired seconds t then .none else some lock)) _
    split
    · next ht => exact ⟨_, .expired hlock ht, rfl⟩
    · exact ⟨hlock, t, rfl⟩

/-- Who was not fast enough names the owner of the lock that is there now. -/
theorem follows_lostRace_history (hh : WritesNothing h) : lostRace.Follows History.protocol
    (fun e h' => Refused e h') (fun e h' => Refused e h') h := by
  refine Failing.Follows.bind
    (m := fun v h' => h' = h ++ [⟨.get Key.lock.encode, .ok v⟩])
    (follows_storage (History.follows_get (fun _ => rfl) fun e => ⟨hh.concat rfl, Or.inr ?_⟩)) ?_
  · exact ⟨_, List.mem_append_right _ (List.mem_singleton_self _), rfl⟩
  rintro v _ rfl
  have hseen : (⟨.get Key.lock.encode, .ok v⟩ : Exchange) ∈
      h ++ [⟨.get Key.lock.encode, .ok v⟩] :=
    List.mem_append_right _ (List.mem_singleton_self _)
  split
  · next winner hwinner =>
    refine ⟨hh.concat rfl, Or.inl ⟨winner.acquired, v, ?_, hseen⟩⟩
    rw [ownerIn_of_some hwinner]
    rfl
  · next hnone =>
    refine Failing.Follows.bind
      (m := fun t h' => h' = h ++ [⟨.get Key.lock.encode, .ok v⟩] ++ [⟨.now, t⟩])
      (follows_program (History.follows_question fun _ => rfl)) ?_
    rintro t _ rfl
    refine ⟨(hh.concat rfl).concat rfl, Or.inl ⟨t, v, ?_, List.mem_append_left _ hseen⟩⟩
    rw [ownerIn_of_none hnone]

/-- **How the lock is taken, and why it is not.** -/
theorem follows_acquire_history : (acquire seconds).Follows History.protocol
    (fun l h => Taken seconds l h) (fun e h => Refused e h) [] := by
  refine Failing.Follows.bind
    (m := fun current h => h = [⟨.get Key.lock.encode, .ok current⟩])
    (follows_storage (History.follows_get (fun _ => rfl) fun e => ⟨?_, Or.inr ?_⟩)) ?_
  · exact WritesNothing.nil.concat rfl
  · exact ⟨_, List.mem_singleton_self _, rfl⟩
  rintro current _ rfl
  refine Failing.Follows.bind (follows_program follows_liveIn?_history) ?_
  intro held? h hh
  cases held? with
  | some held =>
    obtain ⟨hheld, t, rfl⟩ := hh
    refine ⟨WritesNothing.concat (WritesNothing.nil.concat rfl) rfl,
      Or.inl ⟨held.acquired, current, ?_, ?_⟩⟩
    · rw [ownerIn_of_some hheld]
      rfl
    · exact List.mem_append_left _ (List.mem_singleton_self _)
  | none =>
    obtain ⟨look, hlook, rfl⟩ := hh
    refine Failing.Follows.bind
      (m := fun o h => h = ⟨.get Key.lock.encode, .ok current⟩ :: look ++ [⟨.freshName, o⟩])
      (follows_program (History.follows_question fun _ => rfl)) ?_
    rintro owner _ rfl
    refine Failing.Follows.bind
      (m := fun t h => h = ⟨.get Key.lock.encode, .ok current⟩ :: look ++
        [⟨.freshName, owner⟩, ⟨.now, t⟩])
      (follows_program (History.follows_question fun _ => by simp)) ?_
    rintro t _ rfl
    refine Failing.Follows.bind (m := fun r h => match r with
      | .ok _ => Taken seconds ⟨owner, t⟩ h
      | .error e => WritesNothing h ∧ (e.isConflict = false → ∃ x ∈ h, x.isOutage))
      (Failing.Follows.outcome (History.follows_write ?_ fun e => ?_)) ?_
    · exact ⟨current, look, hlook, by simp [storing]⟩
    · refine ⟨(hlook.writesNothing owner t).concat rfl, fun he =>
        ⟨_, List.mem_append_right _ (List.mem_singleton_self _), ?_⟩⟩
      simp [Exchange.isOutage, he]
    · intro r h hr
      split
      · exact hr
      · exact Failing.Follows.bind (follows_lostRace_history hr.1) fun e h he => he
      · next e hne =>
        refine ⟨hr.1, Or.inr (hr.2 ?_)⟩
        cases e with
        | conflict key => exact absurd rfl (hne key)
        | _ => rfl

theorem endsWithin_liveIn? : (liveIn? seconds current).EndsWithin 1 := by
  unfold liveIn?
  split
  · trivial
  · exact fun _ => trivial

theorem endsWithin_lostRace : lostRace.EndsWithin 2 := by
  refine Failing.EndsWithin.bind (n := 1) (m := 1) (Failing.endsWithin_storage fun _ => trivial)
    fun v => ?_
  split
  · trivial
  · exact Failing.EndsWithin.bind (n := 1) (m := 0)
      (Failing.endsWithin_program fun _ => trivial) fun _ => trivial

/-- Taking the lock is a matter of seven questions at most. -/
theorem endsWithin_acquire : (acquire seconds).EndsWithin 7 := by
  refine Failing.EndsWithin.bind (n := 1) (m := 6) (Failing.endsWithin_storage fun _ => trivial)
    fun current => ?_
  refine Failing.EndsWithin.bind (n := 1) (m := 5)
    (Failing.endsWithin_program endsWithin_liveIn?) fun held? => ?_
  cases held? with
  | some held => trivial
  | none =>
    refine Failing.EndsWithin.bind (n := 1) (m := 4)
      (Failing.endsWithin_program fun _ => trivial) fun owner => ?_
    refine Failing.EndsWithin.bind (n := 1) (m := 3)
      (Failing.endsWithin_program fun _ => trivial) fun t => ?_
    refine Failing.EndsWithin.bind (n := 1) (m := 2)
      (Failing.EndsWithin.outcome (n := 1) fun _ => trivial) fun r => ?_
    split
    · trivial
    · exact Failing.EndsWithin.bind (n := 2) (m := 0) endsWithin_lostRace fun _ => trivial
    · trivial

end Histories

end Lock

/-! ### In a run -/

/-- A rebuild that holds the lock. -/
def Database.rebuildLocked (db : Database) (rounds : Nat) (lock : Lock) :
    Failing IndexError Report := do
  match ← prepare.outcome with
  | .error e =>
    let _ ← lock.release.outcome
    throw (.storage e)
  | .ok (active, g) =>
    let (built, lock) ← ExceptT.lift ((db.build rounds (active.map (·.1)) g).run.run lock)
    match built with
    | .error e =>
      ExceptT.lift (abandon rounds g lock)
      throw e
    | .ok report =>
      match ← (Storage.write (swap active g lock)).outcome with
      | .ok () => return report
      | .error e =>
        ExceptT.lift (abandon rounds g lock)
        throw (swapFailure lock e)

/-- A rebuild takes the lock first. -/
theorem Database.rebuild_eq (db : Database) (rounds : Nat) : (db.rebuild rounds).run =
    (Lock.acquire db.settings.lockSeconds).run.bind fun
      | .ok lock => (db.rebuildLocked rounds lock).run
      | .error e => .done (.error e) := by
  show Program.bind _ _ = Program.bind _ _
  congr 1
  funext r
  cases r <;> rfl

namespace Rebuild

variable [DecidableEq ι] {db : Database} {rounds : Nat} {u : Program (Except IndexError Report)}
  {h : List Exchange}

/-- **A rebuild has taken the lock, is refused, or will know soon.** -/
theorem cases_of_reaches (hu : (db.rebuild rounds).run.Reaches h u)
    (hmay : ∀ e ∈ h, ∃ st st', Store.Answers st e st') :
    (WritesNothing h ∧ h.length < 7 ∧ ∀ r, u ≠ .done r) ∨
    (∃ e, u = .done (.error e) ∧ Lock.Refused e h) ∨
    ∃ l taken since, h = taken ++ since ∧ Lock.Taken db.settings.lockSeconds l taken ∧
      (db.rebuildLocked rounds l).run.Reaches since u := by
  rw [Database.rebuild_eq] at hu
  rcases hu.cases_bind with ⟨u', hu', rfl, hne⟩ | ⟨r, taken, since, rfl, htaken, hrest⟩
  · refine Or.inl ⟨?_, ?_, ?_⟩
    · refine hu'.writesNothing Lock.follows_acquire_history Lock.endsWithin_acquire ?_ hne hmay
      intro r h hr
      cases r with
      | ok l => exact hr.writesNothing
      | error e => exact fun x hx => hr.1 x (List.dropLast_subset _ hx)
    · obtain ⟨k, hk, hends⟩ := hu'.endsWithin Lock.endsWithin_acquire
      have hpos : k ≠ 0 := by
        rintro rfl
        cases u' with
        | done a => exact hne a rfl
        | _ => exact hends
      omega
    · cases u' with
      | done a => exact absurd rfl (hne a)
      | _ => nofun
  · have hpost := htaken.follows Lock.follows_acquire_history fun e he =>
      hmay e (List.mem_append_left _ he)
    rw [History.foldl_note, List.nil_append] at hpost
    cases r with
    | ok l => exact Or.inr (Or.inr ⟨l, taken, since, rfl, hpost, hrest⟩)
    | error e =>
      obtain ⟨rfl, rfl⟩ := hrest.of_done
      exact Or.inr (Or.inl ⟨e, rfl, by rwa [List.append_nil]⟩)

/-- No exchange of a process has written the lock. -/
def Unlocked (trace : Trace ι) (i : ι) : Prop :=
  ∀ x ∈ trace, x.1 = i → x.2.effect? Key.lock.encode = none

instance (trace : Trace ι) (i : ι) : Decidable (Unlocked trace i) :=
  inferInstanceAs (Decidable (∀ x ∈ trace, x.1 = i → x.2.effect? Key.lock.encode = none))

section Runs

variable {programs : ι → Program (Except IndexError Report)} {store : Store} {trace : Trace ι}
  {w : World ι (Except IndexError Report)} {j : ι} {e : Exchange}

/-- **The first lock that a rebuild stores is one that it has taken**, in place of what it has
looked at. -/
theorem taken_of_storing (run : Interleaving programs store (trace ++ [(j, e)]) w)
    (hj : programs j = (db.rebuild rounds).run) (hfree : Unlocked trace j)
    (he : e.effect? Key.lock.encode ≠ none) :
    ∃ l current look, Lock.Cleared db.settings.lockSeconds current look ∧
      history j trace = ⟨.get Key.lock.encode, .ok current⟩ :: look ++
        [⟨.freshName, l.owner⟩, ⟨.now, l.acquired⟩] ∧
      e = l.storing current ∧ w.left j = (db.rebuildLocked rounds l).run := by
  have hreaches := run.reaches j
  rw [hj, history_append, history_cons_self, history_nil] at hreaches
  have hwrites : ¬ WritesNothing (history j trace ++ [e]) := fun h => he
    (Exchange.effect?_eq_none_of_applied?
      (h e (List.mem_append_right _ (List.mem_singleton_self _))) _)
  rcases cases_of_reaches hreaches fun x hx => run.exists_answers_of_history (i := j)
    (by simpa using hx) with ⟨h, -⟩ | ⟨_, -, h⟩ | ⟨l, taken, since, heq, htaken, hrest⟩
  · exact absurd h hwrites
  · exact absurd h.1 hwrites
  obtain ⟨current, look, hlook, rfl⟩ := htaken
  rcases List.eq_nil_or_concat since with rfl | ⟨since, x, rfl⟩
  · have hsplit : history j trace ++ [e] = (⟨.get Key.lock.encode, .ok current⟩ :: look ++
        [⟨.freshName, l.owner⟩, ⟨.now, l.acquired⟩]) ++ [l.storing current] := by
      rw [heq]
      simp
    obtain ⟨hbefore, hlast⟩ := List.append_inj' hsplit rfl
    refine ⟨l, current, look, hlook, hbefore, (List.cons.inj hlast).1, ?_⟩
    generalize (db.rebuildLocked rounds l).run = t at hrest
    generalize hnil : ([] : List Exchange) = es at hrest
    cases hrest with
    | refl => rfl
    | ask => cases hnil
  · -- it would have stored its lock before
    rw [List.concat_eq_append, ← List.append_assoc] at heq
    have hmem : l.storing current ∈ history j trace := by
      rw [(List.append_inj' heq rfl).1]
      simp
    have := hfree _ (mem_history_iff.mp hmem) rfl
    simp at this

/-- **A rebuild that has stored no lock is refused, or will be soon.** -/
theorem refused_of_unlocked (run : Interleaving programs store trace w)
    (hj : programs j = (db.rebuild rounds).run) (hfree : Unlocked trace j)
    (hworks : ∀ x ∈ trace, x.2.isOutage = false) :
    (∃ t v, w.left j = .done (.error (.rebuildInProgress (Lock.ownerIn v) t)) ∧
      (j, ⟨.get Key.lock.encode, .ok v⟩) ∈ trace) ∨
    ((history j trace).length < 7 ∧ ∀ r, w.left j ≠ .done r) := by
  have hreaches := run.reaches j
  rw [hj] at hreaches
  rcases cases_of_reaches hreaches fun x hx => run.exists_answers_of_history hx with
    ⟨-, hlength, hne⟩ | ⟨e, hdone, -, hrefused⟩ | ⟨l, taken, since, heq, htaken, -⟩
  · exact Or.inr ⟨hlength, hne⟩
  · rcases hrefused with ⟨t, v, rfl, hseen⟩ | ⟨x, hx, houtage⟩
    · exact Or.inl ⟨t, v, hdone, mem_history_iff.mp hseen⟩
    · rw [hworks _ (mem_history_iff.mp hx)] at houtage
      cases houtage
  · obtain ⟨current, look, -, rfl⟩ := htaken
    have hmem : l.storing current ∈ history j trace := by
      rw [heq]
      simp
    have := hfree _ (mem_history_iff.mp hmem) rfl
    simp at this

end Runs

end Rebuild

end ContentIndex
