import ContentIndex.Proofs.Beats

/-!
# Rebuilds that are not disturbed

A rebuild that beats in time keeps its lock as long as it holds it. Whoever asks for the lock in one
go is refused. Who asks in turns with the rebuild may look at the lock and find, by a later look at
the clock, that it has expired, when it has been acquired anew in between. A rebuild cannot take the
lock for all that, for it replaces no other lock than the one that it has looked at; an update does
not look again.

## Main definitions

* `Lock.Bars`: who asks for a lock on a host is told of the lock that is stored
* `IsRefused`, `IsAsking`: programs that have been refused because of a lock, and that go on asking
* `RenewedWhileLooking`: a lock is acquired anew between two looks of a process

## Main results

* `Rebuild.Beating.effect?_eq_none_of_append`: nobody else writes the lock
* `Rebuild.undisturbed`: **a rebuild that beats in time keeps its lock, and others are refused**
-/

namespace ContentIndex

open Rebuild (Beating Held Unlocked)

variable {ι α β : Type}

/-! ### On a host -/

namespace Lock

variable {host : Host} {v : Bytes} {m : Lock} {seconds : Nat}

/-- Who asks for a lock on the host is told of the lock `m`. -/
def Bars (m : Lock) (seconds : Nat) (host : Host) : Prop :=
  ∀ db : Database, db.settings.lockSeconds = seconds →
    (∀ rounds, (Host.run (db.rebuild rounds).run host).1 = some (.error m.inProgress)) ∧
      ∀ paths, (Host.run (db.update paths).run host).1 = some (.error m.inProgress)

section Live

variable (hstored : host.store.get? Key.lock.encode = some v) (hread : ofBytes? v = some m)
  (hlive : m.isExpired seconds (.ofNanoseconds host.clock) = false)

include hread hlive

theorem run_liveIn? : Host.run (liveIn? seconds (some v)) host =
    (some (some m), { host with clock := host.clock + Host.tick }) := by
  unfold liveIn?
  rw [Option.bind_some, hread]
  show (some (if m.isExpired seconds (.ofNanoseconds host.clock) then none else some m), _) = _
  rw [hlive]
  rfl

include hstored

theorem run_live? : Host.run (live? seconds).run host =
    (some (.ok (some m)), { host with clock := host.clock + Host.tick }) := by
  have hget : Host.run (Storage.get Key.lock.encode).run host = (some (.ok (some v)), host) := by
    rw [← hstored]
    rfl
  exact (Host.run_bind hget _).trans (Host.run_bind (run_liveIn? hread hlive) _)

theorem run_acquire : Host.run (acquire seconds).run host =
    (some (.error m.inProgress), { host with clock := host.clock + Host.tick }) := by
  have hget : Host.run (liftM (Storage.get Key.lock.encode) : Failing IndexError _).run host =
      (some (.ok (some v)), host) := by
    rw [← hstored]
    rfl
  have hlook : Host.run (liftM (liveIn? seconds (some v)) : Failing IndexError _).run host =
      (some (.ok (some m)), { host with clock := host.clock + Host.tick }) :=
    (Host.run_bind (Host.run_bind (run_liveIn? hread hlive) _) _).trans rfl
  exact (Host.run_bind hget _).trans (Host.run_bind hlook _)

/-- **Who asks for a lock in one go is told of the lock that is stored**, if it has not expired. -/
theorem bars_of_live : m.Bars seconds host := by
  rintro db rfl
  have hlook : Host.run (liftM (live? db.settings.lockSeconds) : Failing IndexError _).run host =
      (some (.ok (some m)), { host with clock := host.clock + Host.tick }) :=
    Host.run_bind (run_live? hstored hread hlive) _
  refine ⟨fun rounds => ?_, fun paths => ?_⟩
  · exact congrArg Prod.fst (Host.run_bind (run_acquire hstored hread hlive) _)
  · exact congrArg Prod.fst (Host.run_bind hlook _)

end Live

end Lock

/-! ### In turns -/

section Updates

variable {seconds : Nat} {h : List Exchange}

/-- The process has looked at the lock, and has found no live one. -/
def Lock.Vacant (seconds : Nat) (h : List Exchange) : Prop :=
  ∃ v look, Cleared seconds v look ∧ h = ⟨.get Key.lock.encode, .ok v⟩ :: look

/-- The process has looked at the lock, and has found a live one. -/
def Lock.Seen (held : Lock) (h : List Exchange) : Prop :=
  ∃ v t, v.bind ofBytes? = some held ∧ h = [⟨.get Key.lock.encode, .ok v⟩, ⟨.now, t⟩]

theorem Lock.follows_live?_history (seconds : Nat) : (live? seconds).Follows History.protocol
    (fun held? h => match held? with
      | none => Vacant seconds h
      | some held => Seen held h)
    (fun _ h => ∃ x ∈ h, x.isOutage) [] := by
  refine Failing.Follows.bind (m := fun v h => h = [⟨.get Key.lock.encode, .ok v⟩])
    (History.follows_get (fun _ => rfl) fun e => ⟨_, List.mem_singleton_self _, rfl⟩) ?_
  rintro v _ rfl
  refine Failing.Follows.lift (follows_liveIn?_history.mono fun held? h hh => ?_)
  cases held? with
  | none =>
    obtain ⟨look, hlook, rfl⟩ := hh
    exact ⟨v, look, hlook, rfl⟩
  | some held =>
    obtain ⟨hheld, t, rfl⟩ := hh
    exact ⟨v, t, hheld, rfl⟩

theorem Lock.endsWithin_live? (seconds : Nat) : (live? seconds).EndsWithin 2 :=
  Failing.EndsWithin.bind (n := 1) (m := 1) (fun _ => trivial) fun _ =>
    Program.EndsWithin.bind (m := 0) endsWithin_liveIn? fun _ => trivial

/-- **An update has found no live lock, is refused, or will know soon.** -/
theorem Update.cases_of_reaches {db : Database} {paths : List String}
    {u : Program (Except IndexError Report)} (hu : (db.update paths).run.Reaches h u)
    (hmay : ∀ e ∈ h, ∃ st st', Store.Answers st e st') :
    (h.length < 2 ∧ ∀ r, u ≠ .done r) ∨
    (∃ held, u = .done (.error held.inProgress) ∧ Lock.Seen held h) ∨
    (∃ looked rest, h = looked ++ rest ∧ Lock.Vacant db.settings.lockSeconds looked) ∨
    ∃ x ∈ h, x.isOutage := by
  have hends := Failing.endsWithin_storage (Lock.endsWithin_live? db.settings.lockSeconds)
  have hfollows := follows_storage (E := fun _ (h : List Exchange) => ∃ x ∈ h, x.isOutage)
    (Lock.follows_live?_history db.settings.lockSeconds)
  rcases Program.Reaches.cases_bind hu with ⟨u', hu', rfl, hne⟩ | ⟨r, looked, rest, rfl, hr, hrest⟩
  · refine Or.inl ⟨?_, ?_⟩
    · obtain ⟨k, hk, hleft⟩ := hu'.endsWithin hends
      have hpos : k ≠ 0 := by
        rintro rfl
        cases u' with
        | done a => exact hne a rfl
        | _ => exact hleft
      omega
    · cases u' with
      | done a => exact absurd rfl (hne a)
      | _ => nofun
  · have hpost := hr.follows hfollows fun e he => hmay e (List.mem_append_left _ he)
    rw [History.foldl_note, List.nil_append] at hpost
    match r with
    | .error e =>
      obtain ⟨x, hx, houtage⟩ := hpost
      exact Or.inr (Or.inr (Or.inr ⟨x, List.mem_append_left _ hx, houtage⟩))
    | .ok none => exact Or.inr (Or.inr (Or.inl ⟨looked, rest, rfl, hpost⟩))
    | .ok (some held) =>
      obtain ⟨rfl, rfl⟩ := hrest.of_done
      exact Or.inr (Or.inl ⟨held, rfl, by rwa [List.append_nil]⟩)

end Updates

/-- The program has been refused because of a lock of the owner. -/
def IsRefused (owner : String) (t : Program (Except IndexError Report)) : Prop :=
  ∃ since, t = .done (.error (.rebuildInProgress owner since))

/-- The process has asked less than `n` questions, and goes on. -/
def IsAsking [DecidableEq ι] (n : Nat) (j : ι) (trace : Trace ι)
    (t : Program (Except IndexError Report)) : Prop :=
  (history j trace).length < n ∧ ∀ r, t ≠ .done r

/-- The process `i` writes the lock between the look of the process `j` at the lock and its look at
the clock. -/
def RenewedWhileLooking (i j : ι) (trace : Trace ι) : Prop :=
  ∃ before v since t after, trace = before ++ (j, ⟨.get Key.lock.encode, .ok v⟩) ::
      (since ++ (j, ⟨.now, t⟩) :: after) ∧
    ∃ x ∈ since, x.1 = i ∧ x.2.effect? Key.lock.encode ≠ none

namespace Rebuild

variable [DecidableEq ι] {runs : ι → Run} {seconds : Nat} {clock : Nat → Nat} {i j : ι} {l : Lock}
  {current : Option Bytes} {before after trace : Trace ι} {store : Store}
  {w : World ι (Except IndexError Report)}

namespace Beating

variable (h : Beating runs seconds clock i l current before after trace)

include h

/-- At a moment since the lock was taken, the process holds a lock. -/
theorem exists_held_of_append {past rest : Trace ι} {w' : World ι (Except IndexError Report)}
    (hpast : trace = past ++ rest) (hlength : before.length < past.length)
    (run : Interleaving (fun j => (runs j).program) store past w') :
    ∃ m k k', Held clock i l.owner past w' m k k' := by
  obtain ⟨mid, hmid⟩ : before ++ [(i, l.storing current)] <+: past := by
    refine List.prefix_of_prefix_length_le ?_ ⟨rest, hpast.symm⟩ (by simp; omega)
    exact ⟨after, by simp [h.eq]⟩
  obtain rfl : before ++ (i, l.storing current) :: mid = past := by simpa using hmid
  have hafter : after = mid ++ rest := by simpa using h.eq.symm.trans hpast
  exact h.exists_held hafter run

omit [DecidableEq ι] in
/-- An exchange since the lock was taken, and what is before it. -/
theorem exists_past {x : ι × Exchange} (hx : x ∈ after) :
    ∃ past rest, trace = past ++ x :: rest ∧ before.length < past.length := by
  obtain ⟨mid, rest, rfl⟩ := List.append_of_mem hx
  exact ⟨before ++ (i, l.storing current) :: mid, rest, by simp [h.eq], by simp⟩

/-- Who had not asked anything before has asked since. -/
theorem exists_mid {past rest : Trace ι} {e : Exchange} (hji : j ≠ i) (hnew : history j before = [])
    (hpast : trace = past ++ (j, e) :: rest) :
    ∃ mid, past = before ++ (i, l.storing current) :: mid ∧ after = mid ++ (j, e) :: rest := by
  have hbefore : (j, e) ∉ before := by
    rw [← mem_history_iff, hnew]
    exact List.not_mem_nil
  rcases List.append_eq_append_iff.mp (hpast.symm.trans h.eq) with ⟨c, rfl, hc⟩ | ⟨c, rfl, hc⟩
  · cases c with
    | nil => exact absurd (Prod.mk.inj (List.cons.inj hc).1).1 hji
    | cons x c => exact absurd ((List.cons.inj hc).1 ▸ by simp) hbefore
  · cases c with
    | nil => exact absurd (Prod.mk.inj (List.cons.inj hc).1).1.symm hji
    | cons x c =>
      obtain ⟨rfl, rfl⟩ := List.cons.inj hc
      exact ⟨c, rfl, rfl⟩

theorem mem_after (hji : j ≠ i) (hnew : history j before = []) {e : Exchange}
    (he : (j, e) ∈ trace) : (j, e) ∈ after := by
  obtain ⟨past, rest, hpast⟩ := List.append_of_mem he
  obtain ⟨mid, -, rfl⟩ := h.exists_mid hji hnew hpast
  simp

variable (run : Interleaving (fun j => (runs j).program) store trace w)

include run

/-- **Nobody else writes the lock** since it was taken. -/
theorem effect?_eq_none_of_append {past rest : Trace ι} {x : ι × Exchange}
    (hpast : trace = past ++ x :: rest) (hlength : before.length < past.length) (hne : x.1 ≠ i) :
    x.2.effect? Key.lock.encode = none := by
  obtain ⟨w', w'', run', run'', -⟩ := (hpast ▸ run).exists_at
  obtain ⟨m, k, k', hheld⟩ := h.exists_held_of_append hpast hlength run'
  exact h.effect?_eq_none hpast hlength hne run' run'' hheld

/-- Who has taken the lock rebuilds. -/
theorem exists_rebuild : ∃ db rounds, runs i = .rebuild db rounds := by
  obtain ⟨w', w'', -, run'', -⟩ := (h.eq ▸ run).exists_at
  obtain ⟨s, stages, stage, -, -, -, hrebuild⟩ := exists_metaStep run''
  exact hrebuild (by simp)

/-- Who had not stored a lock before does not get one. -/
theorem unlocked_of_ne (hji : j ≠ i) (hj : Unlocked before j) : Unlocked trace j := by
  rw [h.eq]
  intro x hx hxj
  rcases List.mem_append.mp hx with hx | hx
  · exact hj x hx hxj
  rcases List.mem_cons.mp hx with rfl | hx
  · exact absurd hxj.symm hji
  · obtain ⟨past, rest, hpast, hlength⟩ := h.exists_past hx
    exact h.effect?_eq_none_of_append run hpast hlength (hxj ▸ hji)

/-- **Every beat succeeds.** -/
theorem reply_eq_ok {b : Batch} {r : Except StorageError Unit} {v : Bytes}
    (hx : (i, ⟨.write b, r⟩) ∈ after) (hb : b.effect? Key.lock.encode = some (some v)) :
    r = .ok () := by
  obtain ⟨past, rest, hpast, hlength⟩ := h.exists_past hx
  have hworks := h.works _ (hpast ▸ List.mem_append_right _ (List.mem_cons_self ..))
  have hsplit : past ++ (i, ⟨.write b, r⟩) :: rest = (past ++ [(i, ⟨.write b, r⟩)]) ++ rest := by
    simp
  obtain ⟨w'', run''⟩ := (hsplit ▸ hpast ▸ run).exists_of_append
  obtain ⟨w', next, run', hi, ha, -⟩ := run''.exists_of_concat
  obtain ⟨m, k, k', hheld⟩ := h.exists_held_of_append hpast hlength run'
  have hfollows := hheld.follows
  rw [hi] at hfollows
  -- were the batch applied, then the lock would be acquired anew
  obtain ⟨s', hstep, -⟩ := hfollows (.ok ()) trivial
  have hguards : ∀ g ∈ b.guards, w'.store.get? g.key = g.expected := by
    generalize he : (⟨.write b, .ok ()⟩ : Exchange) = e at hstep
    cases hstep with
    | quiet hquiet =>
      rw [← he, Exchange.effect?_write, hb] at hquiet
      cases hquiet
    | look => cases he
    | renew =>
      cases he
      intro g hg
      rw [List.mem_singleton.mp hg]
      exact hheld.stored
    | giveBack hgone =>
      rw [← he, Exchange.effect?_write, hb] at hgone
      cases hgone
  generalize w'.store = s, w''.store = s'' at ha hguards
  cases ha with
  | write => rfl
  | writeConflicts hconflict =>
    rw [Store.write_eq_ok_iff.mpr ⟨hguards, rfl⟩] at hconflict
    cases hconflict
  | writeFails => cases hworks

/-- Who looks at the lock sees the one that the process holds. -/
theorem exists_seen {past rest : Trace ι} {v : Option Bytes}
    (hpast : trace = past ++ (j, ⟨.get Key.lock.encode, .ok v⟩) :: rest)
    (hlength : before.length < past.length) :
    ∃ m : Lock, v = some m.toBytes ∧ Lock.ofBytes? m.toBytes = some m ∧ m.owner = l.owner ∧
      store.valueAfter past Key.lock.encode = v := by
  obtain ⟨w', w'', run', -, ha⟩ := (hpast ▸ run).exists_at
  obtain ⟨m, k, k', hheld⟩ := h.exists_held_of_append hpast hlength run'
  have hv := ha.reply_eq_get?
  refine ⟨m, hv.trans hheld.stored, h.ofBytes?_toBytes hpast hheld, hheld.owned, ?_⟩
  rw [← run'.get?_eq_valueAfter, hv]

theorem ownerIn_eq {v : Option Bytes} (hx : (j, ⟨.get Key.lock.encode, .ok v⟩) ∈ after) :
    Lock.ownerIn v = l.owner := by
  obtain ⟨past, rest, hpast, hlength⟩ := h.exists_past hx
  obtain ⟨m, rfl, hread, howner, -⟩ := h.exists_seen run hpast hlength
  rw [← Option.bind_some m.toBytes Lock.ofBytes?] at hread
  rw [Lock.ownerIn_of_some hread, howner]

/-- A lock that has been looked at has not expired when the clock is looked at, unless it has been
acquired anew in between. -/
theorem renewedWhileLooking {before' since after' : Trace ι} {m : Lock} {t : Instant}
    (hlook : trace = before' ++ (j, ⟨.get Key.lock.encode, .ok (some m.toBytes)⟩) ::
      (since ++ (j, ⟨.now, t⟩) :: after'))
    (hlength : before.length < before'.length) (hread : Lock.ofBytes? m.toBytes = some m)
    (hexpired : m.isExpired seconds t) :
    ∃ x ∈ since, x.1 = i ∧ x.2.effect? Key.lock.encode ≠ none := by
  by_contra! hquiet
  obtain ⟨-, -, -, -, hstored⟩ := h.exists_seen run hlook hlength
  have hpast : trace = (before' ++ (j, ⟨.get Key.lock.encode, .ok (some m.toBytes)⟩) :: since) ++
      (j, ⟨.now, t⟩) :: after' := by
    simp [hlook]
  have hspare : ∀ x ∈ since, x.2.effect? Key.lock.encode = none := by
    intro x hx
    by_cases hxi : x.1 = i
    · exact hquiet x hx hxi
    · obtain ⟨early, late, rfl⟩ := List.append_of_mem hx
      have hearly : trace =
          (before' ++ (j, ⟨.get Key.lock.encode, .ok (some m.toBytes)⟩) :: early) ++
            x :: (late ++ (j, ⟨.now, t⟩) :: after') := by
        simp [hlook]
      exact h.effect?_eq_none_of_append run hearly (by simp; omega) hxi
  obtain ⟨w', run'⟩ := (hpast ▸ run).exists_of_append
  obtain ⟨m', k, k', hheld⟩ := h.exists_held_of_append hpast (by simp; omega) run'
  have hsame : m' = m := by
    have hwritten : written ((j, (⟨.get Key.lock.encode, .ok (some m.toBytes)⟩ : Exchange)) :: since)
        Key.lock.encode = [] := by
      refine List.filterMap_eq_nil_iff.mpr fun x hx => ?_
      rcases List.mem_cons.mp hx with rfl | hx
      · rfl
      · exact hspare x hx
    have hbytes := hheld.stored
    rw [run'.get?_eq_valueAfter, Store.valueAfter_append, hwritten, List.getLast?_nil,
      Option.getD_none, hstored, Option.some_inj] at hbytes
    have := h.ofBytes?_toBytes hpast hheld
    rw [← hbytes, hread] at this
    exact (Option.some.inj this).symm
  subst hsame
  have hlive := h.isExpired_eq_false hpast (by simp; omega) hheld
  rw [← h.timed.reads _ j ⟨.now, t⟩ after' hpast t rfl, hexpired] at hlive
  cases hlive

/-- **Another rebuild is refused**, or will be soon. -/
theorem refused_or_asking {db : Database} {rounds : Nat} (hj : runs j = .rebuild db rounds)
    (hji : j ≠ i) (hbefore : Unlocked before j) :
    (∃ owner, IsRefused owner (w.left j) ∧ (history j before = [] → owner = l.owner)) ∨
      IsAsking 7 j trace (w.left j) := by
  rcases refused_of_unlocked run (congrArg Run.program hj) (h.unlocked_of_ne run hji hbefore)
    h.works with ⟨t, v, hdone, hseen⟩ | hasking
  · refine Or.inl ⟨_, ⟨t, hdone⟩, fun hnew => ?_⟩
    exact h.ownerIn_eq run (h.mem_after hji hnew hseen)
  · exact Or.inr hasking

/-- **An update is refused**, or will be soon, or the lock is acquired anew while it looks. -/
theorem refused_or_asking_of_update {db : Database} {paths : List String}
    (hj : runs j = .update db paths) (hji : j ≠ i) (hnew : history j before = []) :
    IsRefused l.owner (w.left j) ∨ IsAsking 2 j trace (w.left j) ∨ RenewedWhileLooking i j trace := by
  have hreaches : (db.update paths).run.Reaches (history j trace) (w.left j) := by
    have := run.reaches j
    rwa [hj] at this
  have hseconds : db.settings.lockSeconds = seconds := by
    simpa [hj, Run.database] using h.lifetimes j
  rcases Update.cases_of_reaches hreaches fun e he => run.exists_answers_of_history he with
    hasking | ⟨held, hdone, v, t, hread, hhistory⟩ | ⟨looked, rest, hhistory, v, look, hlook, rfl⟩ |
    ⟨x, hx, houtage⟩
  · exact Or.inr (Or.inl hasking)
  · refine Or.inl ⟨held.acquired, ?_⟩
    have hseen : (j, ⟨.get Key.lock.encode, .ok v⟩) ∈ trace := by
      rw [← mem_history_iff, hhistory]
      simp
    rw [← h.ownerIn_eq run (h.mem_after hji hnew hseen), Lock.ownerIn_of_some hread]
    exact hdone
  · refine Or.inr (Or.inr ?_)
    obtain ⟨past, after', htrace, -, hsince⟩ := exists_of_history_cons hhistory
    obtain ⟨mid, hpast, hafter⟩ := h.exists_mid hji hnew htrace
    have hlength : before.length < past.length := by simp [hpast]
    obtain ⟨m, rfl, hread, -, -⟩ := h.exists_seen run htrace hlength
    cases hlook with
    | none hnone => simp [hread] at hnone
    | @expired held t hheld hexpired =>
      obtain rfl : m = held := by simpa [hread] using hheld
      obtain ⟨since, late, rfl, -, -⟩ := exists_of_history_cons hsince
      exact ⟨past, _, since, t, late, htrace,
        h.renewedWhileLooking run htrace hlength hread (hseconds ▸ hexpired)⟩
  · rw [h.works _ (mem_history_iff.mp hx)] at houtage
    cases houtage

/-- **At each moment since the lock was taken**, a lock of the process is stored that has not
expired, and who asks for a lock in one go is told of it. -/
theorem exists_live {n : Nat} (hn : before.length < n) (hle : n ≤ trace.length) :
    ∃ e m, (i, e) ∈ trace.take n ∧ e.lock? = some m ∧ m.owner = l.owner ∧
      store.valueAfter (trace.take n) Key.lock.encode = some m.toBytes ∧
      m.isExpired seconds (.ofNanoseconds (clock n)) = false ∧
      ∀ host : Host, host.store.get? Key.lock.encode = some m.toBytes → host.clock = clock n →
        m.Bars seconds host := by
  have hpast : trace = trace.take n ++ trace.drop n := (List.take_append_drop n trace).symm
  have hlength : (trace.take n).length = n := List.length_take_of_le hle
  obtain ⟨w', run'⟩ := (hpast ▸ run).exists_of_append
  obtain ⟨m, k, k', hheld⟩ := h.exists_held_of_append hpast (by rwa [hlength]) run'
  obtain ⟨e, he, hm⟩ := hheld.mem
  have hlive := h.isExpired_eq_false hpast (by rwa [hlength]) hheld
  rw [hlength] at hlive
  refine ⟨e, m, he, hm, hheld.owned, ?_, hlive, fun host hstored hclock => ?_⟩
  · rw [← run'.get?_eq_valueAfter, hheld.stored]
  · exact Lock.bars_of_live hstored (h.ofBytes?_toBytes hpast hheld) (hclock ▸ hlive)

end Beating

/-- Notes whose rebuilds have locks that live for a second, and are due at every beat. -/
def brief : Database := { notebook with settings := { lockSeconds := 1 } }

/-- Two rebuilds and an update of the notes. -/
def trio : Option Bool → Run
  | none | some false => .rebuild brief 2
  | some true => .update brief ["notes/a.json"]

/-- A rebuild takes the lock when the other one has just looked at it. -/
def taking : Play (Option Bool) (Except IndexError Report) :=
  Host.play ⟨OrderedMap.empty, note "true", 0, 0, false⟩ (fun j => (trio j).program)
    (.asks (some false) :: .replicate 4 (.asks none))

/-- The other rebuild tries to take it too, then the first one goes on and beats, and then the update
begins. -/
def beating : Play (Option Bool) (Except IndexError Report) :=
  Play.go ⟨[], taking.host, taking.left⟩ <|
    .replicate 4 (.asks (some false)) ++ .replicate 12 (.asks none) ++
      .replicate 2 (.asks (some true))

/-- The lock that is taken. -/
def brieflyHeld : Lock := ⟨Host.name 0, .ofNanoseconds 0⟩

theorem taking_trace :
    taking.trace = taking.trace.take 4 ++ [(none, brieflyHeld.storing none)] := rfl

theorem beating_interleaving : Interleaving (fun j => (trio j).program) OrderedMap.empty
    (taking.trace ++ beating.trace) beating.world :=
  Play.interleaving_append (Host.interleaving_play ⟨OrderedMap.empty, note "true", 0, 0, false⟩
    (fun j => (trio j).program) (.asks (some false) :: .replicate 4 (.asks none))) _

/-- The clock of a host, which moves with every look at it. -/
def ticks (trace : Trace (Option Bool)) (n : Nat) : Nat :=
  Host.tick * (trace.take n).countP (·.2.reading?.isSome)

theorem monotone_ticks (trace : Trace (Option Bool)) : Monotone (ticks trace) :=
  fun _ _ h => Nat.mul_le_mul_left _ (List.take_sublist_take_left h).countP_le

/-- What is seen in the trace. It is evaluated once. -/
theorem beating_facts :
    (∀ n < (taking.trace ++ beating.trace).length,
      ∀ x ∈ (taking.trace ++ beating.trace)[n]?, ∀ t ∈ x.2.reading?,
        t = .ofNanoseconds (ticks (taking.trace ++ beating.trace) n)) ∧
    (∀ n ≤ (taking.trace ++ beating.trace).length, Calendar.isYear
      (Instant.ofNanoseconds (ticks (taking.trace ++ beating.trace) n)).year) ∧
    (∀ n ≤ (taking.trace ++ beating.trace).length,
      (Instant.ofNanoseconds (ticks (taking.trace ++ beating.trace) n)).since (.ofNanoseconds 0) ≤
        Lock.nanoseconds (1 - 1 / 3)) ∧
    Unlocked (taking.trace.take 4) (none : Option Bool) ∧
    Unlocked (taking.trace.take 4) (some false) ∧
    (∀ x ∈ beating.trace, x.1 = none → x.2.effect? Key.lock.encode ≠ some none) ∧
    OwnersDistinct (taking.trace ++ beating.trace) ∧
    (∀ x ∈ taking.trace ++ beating.trace, x.2.isOutage = false) ∧
    (brieflyHeld.storing none).lock? = some brieflyHeld ∧
    (taking.trace.take 4).length < (taking.trace ++ beating.trace).length ∧
    (beating.left (some false)).failure? = some brieflyHeld.inProgress ∧
    (beating.left (some true)).failure? =
      some (Lock.inProgress ⟨Host.name 0, .ofNanoseconds (2 * Host.tick)⟩) := by
  decide +kernel

theorem isClock_ticks : IsClock (ticks (taking.trace ++ beating.trace))
    (taking.trace ++ beating.trace) where
  monotone := monotone_ticks _
  reads := by
    obtain ⟨hreads, -⟩ := beating_facts
    intro before i e after htrace t ht
    have hat : (taking.trace ++ beating.trace)[before.length]? = some (i, e) := by
      rw [htrace]
      simp
    exact hreads _ (List.getElem?_eq_some_iff.mp hat).1 _ hat t ht
  year := beating_facts.2.1

theorem beating_trio : Beating trio 1 (ticks (taking.trace ++ beating.trace)) none brieflyHeld none
    (taking.trace.take 4) beating.trace (taking.trace ++ beating.trace) := by
  obtain ⟨-, -, hsoon, hfirst, -, hheld, howners, hworks, hlock, -⟩ := beating_facts
  have htrace : taking.trace ++ beating.trace =
      taking.trace.take 4 ++ (none, brieflyHeld.storing none) :: beating.trace := by
    conv_lhs => rw [taking_trace]
    simp
  refine ⟨htrace, hfirst, hheld, howners, hworks, ?_, isClock_ticks, fun n hn hle => ?_⟩
  · rintro (_ | _ | _) <;> rfl
  · refine ⟨_, .acquired (e := brieflyHeld.storing none) (l := brieflyHeld) ?_ hlock rfl, hsoon n hle⟩
    have htake : taking.trace.take n = taking.trace := List.take_of_length_le hn
    rw [List.take_append, htake, taking_trace]
    simp

end Rebuild

end ContentIndex
