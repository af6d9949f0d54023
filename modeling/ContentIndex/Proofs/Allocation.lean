import ContentIndex.Proofs.Continuations
import ContentIndex.Proofs.Schedule
import ContentIndex.Proofs.SwapSafety

/-!
# New generation numbers

A new number is the one above the counter and above the active generation. It is handed out once the
counter has been moved on to it, guarded by the value that was read; where others were faster, it is
tried again, a few times. So whatever others write, an allocation comes to its end after a few
questions, and only its last one may change the store. The numbers have 64 bits: above the last one
there is none, and the counter starts again.

## Main definitions

* `Generation.Exhausted`: there is no number above the counter and the active generation
* `Generation.HandsOut`: what an allocation that succeeds has done

## Main results

* `Generation.lt_successor_iff`: the next number is greater if there is one
* `Generation.allocates_iff_not_exhausted`: **an allocation ends, and hands out a greater number
  unless there is none**
-/

namespace ContentIndex

variable {ι α : Type}

/-! ### The questions of an allocation -/

namespace Generation

variable {active : Option Generation} {g : Generation}

theorem endsWithin_stored? (key : Key) : (stored? key).EndsWithin 1 := by
  refine Failing.EndsWithin.bind (m := 0) (Program.endsWithin_question _) fun v => ?_
  cases v with
  | none => trivial
  | some b =>
    show Failing.EndsWithin 0 (liftM (ofStored key b : Except StorageError Generation) >>=
      fun g => (pure (some (g, b)) : Storage _))
    cases ofStored key b <;> trivial

theorem endsWithin_allocateOnce : (allocateOnce active).EndsWithin 2 := by
  refine Failing.EndsWithin.bind (m := 1) (endsWithin_stored? _) fun counter => ?_
  exact Failing.EndsWithin.bind (m := 0) (Program.endsWithin_question _) fun _ => trivial

/-- An allocation asks at most ten questions. -/
theorem endsWithin_allocate : (allocate active).EndsWithin 10 :=
  endsWithin_allocateOnce.retrying allocateRetries

/-! ### What an allocation writes -/

/-- The counter was read, and at last it was moved on from what was read. -/
def Counted (active : Option Generation) (g : Generation) (h : List Exchange) : Prop :=
  ∃ h₁ counter, h = h₁ ++ [g.counting (counter.map (·.2))] ∧ WritesNothing h₁ ∧
    Reads counter ∧ g = successor (counter.map (·.1)) active

theorem follows_stored?_history {key : Key} {h : List Exchange} (hh : WritesNothing h) :
    (stored? key).Follows History.protocol (fun p h' => Reads p ∧ WritesNothing h')
      (fun _ h' => WritesNothing h') h := by
  refine Failing.Follows.bind (m := fun _ h' => WritesNothing h')
    (History.follows_get (fun _ => hh.concat rfl) fun _ => hh.concat rfl) ?_
  intro v h' hh'
  cases v with
  | none => exact ⟨nofun, hh'⟩
  | some b =>
    refine Failing.Follows.bind (m := fun g h' => parse? b = some g ∧ WritesNothing h')
      (follows_ofStored (fun g hg => ⟨hg, hh'⟩) fun _ _ => hh') ?_
    rintro g h'' ⟨hg, hh''⟩
    refine ⟨?_, hh''⟩
    rintro _ ⟨⟩
    exact hg

/-- **Only the last exchange of an allocation may write**: it moves the counter on, and an
allocation that fails writes nothing. -/
theorem follows_allocate_history :
    (allocate active).Follows History.protocol (fun g h => Counted active g h)
      (fun _ h => WritesNothing h) [] := by
  refine Failing.Follows.retrying_of_keeps (J := WritesNothing) ?_ (List.forall_mem_nil _) _
  intro h hh
  refine Failing.Follows.bind ((follows_stored?_history hh).mono (fun _ _ hp => hp)
    fun _ _ he => ⟨he, fun _ => he⟩) ?_
  rintro counter h ⟨hcounter, hh⟩
  refine Failing.Follows.bind (m := fun _ h' => h' = h ++ [Generation.counting
      (successor (counter.map (·.1)) active) (counter.map (·.2))])
    (History.follows_write rfl fun _ => ⟨hh.concat rfl, fun _ => hh.concat rfl⟩) ?_
  rintro _ _ rfl
  exact ⟨h, counter, rfl, hh, hcounter, rfl⟩

/-! ### Numbers -/

/-- There is no number above the counter and above the active generation. -/
def Exhausted (last active : Option Generation) : Prop :=
  greatest? last active = some (UInt64.ofNat (2 ^ 64 - 1))

instance (last active : Option Generation) : Decidable (Exhausted last active) :=
  inferInstanceAs (Decidable (_ = _))

theorem lt_add_one_iff (g : Generation) : g < g + 1 ↔ g ≠ UInt64.ofNat (2 ^ 64 - 1) := by
  have hlt := g.toNat_lt
  have hadd : (g + 1).toNat = (g.toNat + 1) % 2 ^ 64 := UInt64.toNat_add g 1
  have heq : g = UInt64.ofNat (2 ^ 64 - 1) ↔ g.toNat = 2 ^ 64 - 1 :=
    ⟨fun h => h ▸ rfl, fun h => by rw [← h, UInt64.ofNat_toNat]⟩
  rw [UInt64.lt_iff_toNat_lt, hadd, ne_eq, heq]
  omega

/-- The greatest of two numbers is one of them, and none is above it. -/
theorem greatest?_eq_some {last active : Option Generation} {m : Generation}
    (h : greatest? last active = some m) :
    (m ∈ last ∨ m ∈ active) ∧ (∀ a ∈ last, a ≤ m) ∧ ∀ a ∈ active, a ≤ m := by
  cases last with
  | none =>
    obtain rfl : active = some m := by cases active <;> exact h
    exact ⟨Or.inr rfl, nofun, by rintro a ⟨⟩; exact UInt64.le_refl _⟩
  | some a =>
    cases active with
    | none =>
      obtain rfl := Option.some.inj h
      exact ⟨Or.inl rfl, by rintro a ⟨⟩; exact UInt64.le_refl _, nofun⟩
    | some b =>
      obtain rfl : (if a ≤ b then b else a) = m := Option.some.inj h
      split
      · next hle =>
        exact ⟨Or.inr rfl, by rintro _ ⟨⟩; exact hle, by rintro _ ⟨⟩; exact UInt64.le_refl _⟩
      · next hle =>
        refine ⟨Or.inl rfl, by rintro _ ⟨⟩; exact UInt64.le_refl _, ?_⟩
        rintro _ ⟨⟩
        exact (UInt64.le_total a b).resolve_left hle

/-- **The next number is above the counter and above the active generation, if there is one.** -/
theorem lt_successor_iff (last active : Option Generation) :
    ((∀ a ∈ last, a < successor last active) ∧ ∀ a ∈ active, a < successor last active) ↔
      ¬ Exhausted last active := by
  unfold Exhausted successor
  cases hgreatest : greatest? last active with
  | none =>
    cases last <;> cases active <;> simp [greatest?] at hgreatest ⊢
  | some m =>
    obtain ⟨hmem, hlast, hactive⟩ := greatest?_eq_some hgreatest
    rw [Option.some.injEq, ← ne_eq, ← lt_add_one_iff]
    constructor
    · rintro ⟨hl, ha⟩
      exact hmem.elim (hl m) (ha m)
    · exact fun h => ⟨fun a ha => UInt64.lt_of_le_of_lt (hlast a ha) h,
        fun a ha => UInt64.lt_of_le_of_lt (hactive a ha) h⟩

/-! ### Allocations in a run -/

section Runs

variable [DecidableEq ι] {i : ι} {store : Store} {trace : Trace ι}

/-- The allocation has moved the counter on from what was stored to the number, which is read back
from there, and has written nothing else. The number is above both others unless there is none. -/
structure HandsOut (active : Option Generation) (store : Store) (trace : Trace ι) (i : ι)
    (g : Generation) (counter : Option (Generation × Bytes)) (before after : Trace ι) : Prop where
  /-- The counter is moved on in one exchange. -/
  split : trace = before ++ (i, g.counting (counter.map (·.2))) :: after
  /-- Nothing is written before. -/
  quiet : WritesNothing (history i before)
  /-- Nothing is asked afterwards. -/
  last : history i after = []
  /-- What was read is what is replaced. -/
  replaced : store.valueAfter before Key.counter.encode = counter.map (·.2)
  /-- It was a number, if there was anything. -/
  reads : Reads counter
  /-- The number is the next one. -/
  number : g = successor (counter.map (·.1)) active
  /-- It is stored. -/
  stored : store.valueAfter (before ++ [(i, g.counting (counter.map (·.2)))]) Key.counter.encode =
    some g.toBytes
  /-- It is read back. -/
  readsBack : parse? g.toBytes = some g
  /-- No other key is touched. -/
  others : ∀ key, key ≠ Key.counter.encode →
    store.valueAfter (before ++ [(i, g.counting (counter.map (·.2)))]) key =
      store.valueAfter before key
  /-- It is above the counter and above the active generation, if there is such a number. -/
  above : ((∀ p ∈ counter, p.1 < g) ∧ ∀ a ∈ active, a < g) ↔
    ¬ Exhausted (counter.map (·.1)) active

theorem Counted.exists_handsOut {programs : ι → Program α} {w : World ι α} {active : Option Generation}
    {g : Generation} (run : Interleaving programs store trace w)
    (h : Counted active g (history i trace)) :
    ∃ counter before after, HandsOut active store trace i g counter before after := by
  obtain ⟨h₁, counter, hhistory, hwrites, hcounter, rfl⟩ := h
  obtain ⟨before, after, rfl, rfl, hafter⟩ := exists_of_history_concat hhistory
  obtain ⟨w₁, w₂, run₁, run₂, ha⟩ := run.exists_at
  refine ⟨counter, before, after, rfl, hwrites, hafter, ?_, hcounter, rfl, ?_, parse?_toBytes _, ?_, ?_⟩
  · rw [← run₁.get?_eq_valueAfter]
    exact stored_of_counting ha
  · rw [← run₂.get?_eq_valueAfter, ha.get?_eq, effect?_counting, if_pos rfl]
    rfl
  · intro key hkey
    exact Store.valueAfter_concat_of_effect? (by rw [effect?_counting, if_neg (Ne.symm hkey)])
  · rw [← lt_successor_iff]
    cases counter <;> simp

/-- What an allocation that has handed out a number has written last. -/
theorem Counted.writesNothing {active : Option Generation} {g : Generation} {h : List Exchange}
    (hcounted : Counted active g h) : WritesNothing h.dropLast := by
  obtain ⟨h₁, counter, rfl, hh, -⟩ := hcounted
  rwa [List.dropLast_concat]

/-- **An allocation ends, and hands out a greater number unless there is none.** Let any programs
share a store, where the backend may fail, and let one of them allocate a number. It comes to its
end after ten questions at most. Unless it has handed out a number it has written nothing, be it that
it has failed or that it still asks. If it hands out a number, then its last question has moved the
counter on from what was stored to the number, and the number is above the counter and above the
active generation, if and only if there is such a number: above the last one of 64 bits comes
zero. -/
theorem allocates_iff_not_exhausted {programs : ι → Program (Except StorageError Generation)}
    {w : World ι (Except StorageError Generation)} {active : Option Generation}
    (hi : programs i = (allocate active).run) (run : Interleaving programs store trace w) :
    (∃ n, (history i trace).length + n = 10 ∧ (w.left i).EndsWithin n) ∧
      ((∀ g, w.left i ≠ .done (.ok g)) → WritesNothing (history i trace)) ∧
      ∀ g, w.left i = .done (.ok g) →
        ∃ counter before after, HandsOut active store trace i g counter before after := by
  have hreaches := run.reaches i
  rw [hi] at hreaches
  have hfollows : (programs i).Follows History.protocol
      (Ends (Counted active) fun _ h => WritesNothing h) [] := by
    rw [hi]
    exact follows_allocate_history
  refine ⟨hreaches.endsWithin endsWithin_allocate, fun hnone => ?_, fun g hdone => ?_⟩
  · by_cases hdone : ∃ r, w.left i = .done r
    · obtain ⟨r, hr⟩ := hdone
      have hpost := History.of_done run hfollows hr
      cases r with
      | ok g => exact absurd hr (hnone g)
      | error e => exact hpost
    · refine hreaches.writesNothing follows_allocate_history endsWithin_allocate ?_
        (fun r hr => hdone ⟨r, hr⟩) fun e he => run.exists_answers_of_history he
      intro r h hpost
      cases r with
      | ok g => exact Counted.writesNothing hpost
      | error e => exact fun e' he' => hpost e' (List.dropLast_subset _ he')
  · exact (History.of_done run hfollows hdone).exists_handsOut run

end Runs

/-! ### A race, and a counter at its end -/

/-- A host with a counter. -/
def hostAt (counter : String) : Host :=
  ⟨Store.apply OrderedMap.empty (.put Key.counter.encode (Bytes.ofText counter)),
    .files OrderedMap.empty, 0, 0, false⟩

/-- Two allocations. The second one counts after the first one has read the counter. -/
def race : Play Bool (Except StorageError Generation) :=
  (hostAt " 41\n").play (fun _ => (allocate (some 3)).run) <|
    [false, true, true, false, false, false].map .asks

theorem race_left : (race.left false).success? = some 43 := by decide +kernel

/-- The first one asks four questions and hands out the next but one number. -/
theorem allocates_iff_not_exhausted_race :
    (race.left false).success? = some 43 ∧
      ∃ counter before after, HandsOut (some 3) (hostAt " 41\n").store race.trace false 43 counter
        before after :=
  ⟨race_left, (allocates_iff_not_exhausted (i := false) rfl
    ((hostAt " 41\n").interleaving_play _ _)).2.2 43 (Program.success?_eq_some_iff.mp race_left)⟩

/-- An allocation where the last number was handed out. -/
def spent : Play Unit (Except StorageError Generation) :=
  (hostAt "18446744073709551615").play (fun _ => (allocate none).run) [.asks (), .asks ()]

/-- **A counter at its end starts again**: the number that is handed out and stored is below the one
that it replaces. -/
theorem exists_exhausted : ∃ (store : Store) (trace : Trace Unit)
    (w : World Unit (Except StorageError Generation)),
    Interleaving (fun _ => (allocate none).run) store trace w ∧
      (store.get? Key.counter.encode).bind parse? = some (UInt64.ofNat (2 ^ 64 - 1)) ∧
      (w.left ()).success? = some 0 ∧ w.store.get? Key.counter.encode = some (Bytes.ofText "0") := by
  refine ⟨_, spent.trace, spent.world, Host.interleaving_play _ _ _, ?_, ?_, ?_⟩ <;>
    decide +kernel

end Generation

end ContentIndex
