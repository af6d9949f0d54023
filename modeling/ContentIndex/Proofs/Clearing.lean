import ContentIndex.Proofs.KeyLayout
import ContentIndex.Proofs.Reading

/-!
# What is left after generations are removed

The ranges that are cleared lie between the prefixes of the generations that are kept. They leave
those out, and there is no other key of a generation that they miss, whether it belongs to a number
or is malformed. A range is cleared in chunks; each chunk takes entries away, so a store of `n`
entries is done with after at most `n` chunks and a look at nothing.

## Main definitions

* `Store.without`: a store without the keys of a range
* `Host.withoutAll`: a host whose store has lost the keys of several ranges

## Main results

* `Store.within_deletes`: what is before a scan after its first entries have been deleted
* `Storage.run_clear`: clearing a range comes to its end and removes exactly its keys
* `Key.exists_mem_rangesExcept`: a key of no generation that is kept lies in a range that is cleared
* `Generation.run_clearExcept`: **exactly the generations that are not kept are removed**
-/

namespace ContentIndex

/-! ### Ranges -/

namespace Store

variable {s : Store} {r : KeyRange} {d : Direction}

/-- The store without the keys of a range. -/
def without (s : Store) (r : KeyRange) : Store :=
  ⟨s.entries.filter fun e => !r.contains e.1, s.sorted.sublist List.filter_sublist⟩

theorem get?_without_eq_some_iff {k v : Bytes} :
    (s.without r).get? k = some v ↔ s.get? k = some v ∧ ¬ r.contains k := by
  rw [get?_eq_some_iff_mem, get?_eq_some_iff_mem, without, List.mem_filter]
  simp

theorem size_without_le (s : Store) (r : KeyRange) : (s.without r).size ≤ s.size :=
  List.length_filter_le ..

/-- A store without keys of the range loses nothing. -/
theorem without_eq_self (h : s.within r d = []) : s.without r = s := by
  refine eq_of_get? fun k => Option.ext fun v => ?_
  rw [get?_without_eq_some_iff, and_iff_left_iff_imp]
  intro hget hin
  have hmem : (k, v) ∈ s.within r d := mem_within.mpr ⟨hget, hin⟩
  rw [h] at hmem
  cases hmem

/-- **After the first entries of a range have been deleted, the others are left.** -/
theorem within_deletes {front rest : List Entry} (h : s.within r d = front ++ rest) :
    ((front.map fun e => WriteOp.delete e.1).foldl apply s).within r d = rest := by
  have hsorted := pairwise_within s r d
  rw [h, List.pairwise_append] at hsorted
  obtain ⟨-, hrest, hapart⟩ := hsorted
  have hdeletes : (front.map fun e => WriteOp.delete e.1) = (front.map (·.1)).map .delete := by
    simp
  refine Direction.Before.eq_of_pairwise (pairwise_within _ r d) hrest fun e => ?_
  have hmem : e ∈ s.within r d ↔ e ∈ front ∨ e ∈ rest := by rw [h, List.mem_append]
  rw [mem_within] at hmem
  rw [mem_within, hdeletes, get?_deletes]
  split
  · next hdeleted =>
    -- an entry that is left has another key than those that were deleted
    simp only [reduceCtorEq, false_and, false_iff]
    intro he
    obtain ⟨x, hx, hkey⟩ := List.mem_map.mp hdeleted
    have hbefore := hapart x hx e he
    rw [hkey] at hbefore
    exact hbefore.irrefl
  · next hkept =>
    rw [hmem, or_iff_right]
    exact fun he => hkept (List.mem_map_of_mem he)

/-- What was deleted from a range does not matter for the store without it. -/
theorem without_deletes {front : List Entry} (h : ∀ e ∈ front, r.contains e.1) :
    ((front.map fun e => WriteOp.delete e.1).foldl apply s).without r = s.without r := by
  refine eq_of_get? fun k => Option.ext fun v => ?_
  rw [get?_without_eq_some_iff, get?_without_eq_some_iff]
  refine and_congr_left fun hout => ?_
  rw [get?_foldl_apply_of_forall_ne]
  intro op hop
  obtain ⟨e, he, rfl⟩ := List.mem_map.mp hop
  rintro rfl
  exact hout (h e he)

end Store

/-! ### Clearing on a host -/

/-- The host with another store. -/
def Host.withStore (h : Host) (s : Store) : Host := { h with store := s }

/-- **Clearing a range comes to its end and removes exactly its keys**, which it counts. -/
theorem Storage.run_clear (range : KeyRange) {rounds : Nat} {h : Host}
    (hrounds : (h.store.within range .forward).length < rounds) :
    Host.run (Storage.clear range rounds).run h =
      (some (.ok (h.store.within range .forward).length), h.withStore (h.store.without range)) := by
  induction rounds generalizing h with
  | zero => omega
  | succ rounds ih =>
    have hscan : Host.run (Storage.scan range .forward Scan.defaultChunk).run h =
        (some (.ok (h.store.scan range .forward Scan.defaultChunk)), h) := rfl
    rw [Store.scan_eq_take] at hscan
    refine (Host.run_bind hscan _).trans ?_
    generalize hall : h.store.within range .forward = all at hrounds ⊢
    cases all with
    | nil =>
      rw [Store.without_eq_self hall]
      rfl
    | cons e es =>
      -- the deletes of a chunk are unguarded, and what follows clears the entries behind it
      let front := (e :: es).take Scan.defaultChunk
      let deletes : List WriteOp := front.map fun e => .delete e.1
      have hwrite : Host.run (Storage.write (.ofOps deletes)).run h =
          (some (.ok ()), h.withStore (deletes.foldl Store.apply h.store)) := rfl
      have hfront : ∀ x ∈ front, range.contains x.1 := fun x hx =>
        (Store.mem_within.mp (hall ▸ List.mem_of_mem_take hx)).2
      have hleft : (deletes.foldl Store.apply h.store).within range .forward =
          (e :: es).drop Scan.defaultChunk :=
        Store.within_deletes (hall.trans (List.take_append_drop _ _).symm)
      have hchunk : Scan.defaultChunk = 256 := rfl
      have hcount : front.length + ((e :: es).drop Scan.defaultChunk).length = (e :: es).length := by
        rw [← List.length_append, List.take_append_drop]
      have hrest : Host.run (Storage.clear range rounds).run
            (h.withStore (deletes.foldl Store.apply h.store)) =
          (some (.ok ((e :: es).drop Scan.defaultChunk).length),
            h.withStore (h.store.without range)) := by
        have hclear := ih (h := h.withStore (deletes.foldl Store.apply h.store)) (by
          show (Store.within (deletes.foldl Store.apply h.store) range .forward).length < rounds
          rw [hleft, List.length_drop]
          simp only [List.length_cons] at hrounds ⊢
          omega)
        rw [hclear]
        show (some (Except.ok (Store.within (deletes.foldl Store.apply h.store) range .forward).length),
          h.withStore ((deletes.foldl Store.apply h.store).without range)) = _
        rw [hleft, Store.without_deletes hfront]
      refine (Host.run_bind hwrite _).trans ((Host.run_bind hrest _).trans ?_)
      show (some (Except.ok (front.length + _)), _) = _
      rw [hcount]

/-- The host without the keys of several ranges. -/
def Host.withoutAll (h : Host) (ranges : List KeyRange) : Host :=
  h.withStore (ranges.foldl Store.without h.store)

/-- Ranges are cleared one after another. -/
theorem Storage.run_clearAll (ranges : List KeyRange) {rounds : Nat} {h : Host}
    (hrounds : h.store.size < rounds) :
    Host.run (ranges.forM fun range => discard (Storage.clear range rounds)).run h =
      (some (.ok ()), h.withoutAll ranges) := by
  induction ranges generalizing h with
  | nil => rfl
  | cons range ranges ih =>
    have hclear := Storage.run_clear range (h := h)
      (Nat.lt_of_le_of_lt (Store.length_within_le ..) hrounds)
    have hdiscard : Host.run (discard (Storage.clear range rounds) : Storage Unit).run h =
        (some (.ok ()), h.withStore (h.store.without range)) :=
      (Host.run_bind hclear _).trans rfl
    refine (Host.run_bind hdiscard _).trans ?_
    exact ih (h := h.withStore (h.store.without range))
      (Nat.lt_of_le_of_lt (Store.size_without_le ..) hrounds)

theorem Store.get?_foldl_without_eq_some_iff {s : Store} {ranges : List KeyRange} {k v : Bytes} :
    (ranges.foldl without s).get? k = some v ↔
      s.get? k = some v ∧ ∀ r ∈ ranges, ¬ r.contains k := by
  induction ranges generalizing s with
  | nil => simp
  | cons r ranges ih =>
    rw [List.foldl_cons, ih, get?_without_eq_some_iff, List.forall_mem_cons, and_assoc]

/-! ### The ranges between generations -/

namespace Key

/-- From the prefix of a generation on, a key has the prefix or comes after its successor. -/
theorem successor_le_of_outside {g : Generation} {k : Bytes} (hle : generationPrefix g ≤ k)
    (hnot : ¬ generationPrefix g <+: k) : (generationPrefix g).prefixSuccessor?.getD [] ≤ k := by
  obtain ⟨stop, hstop, -⟩ := exists_prefixSuccessor?_generationPrefix g
  rw [hstop, Option.getD_some]
  refine Std.not_lt.mp fun hlt => hnot (KeyRange.contains_ofPrefix_iff.mp ?_)
  refine KeyRange.contains_iff.mpr ⟨hle, fun stop' hstop' => ?_⟩
  obtain rfl : stop = stop' := Option.some.inj (hstop.symm.trans hstop')
  exact hlt

/-- The gaps between generations miss no key outside of these generations. -/
theorem exists_mem_gaps {keep : List Generation} {start k : Bytes} (hstart : start ≤ k)
    (hns : generationsPrefix <+: k) (hnot : ∀ g ∈ keep, ¬ generationPrefix g <+: k) :
    ∃ r ∈ Generation.gaps start keep, r.contains k := by
  induction keep generalizing start with
  | nil =>
    refine ⟨_, List.mem_singleton.mpr rfl, KeyRange.contains_iff.mpr ⟨hstart, ?_⟩⟩
    exact (KeyRange.contains_iff.mp (KeyRange.contains_ofPrefix_iff.mpr hns)).2
  | cons g keep ih =>
    obtain ⟨hfirst, hrest⟩ := List.forall_mem_cons.mp hnot
    rw [Generation.gaps]
    by_cases hlt : k < generationPrefix g
    · refine ⟨_, List.mem_cons_self .., KeyRange.contains_iff.mpr ⟨hstart, fun stop hstop => ?_⟩⟩
      obtain rfl := Option.some.inj hstop
      exact hlt
    · obtain ⟨r, hr, hin⟩ := ih (successor_le_of_outside (Std.not_lt.mp hlt) hfirst) hrest
      exact ⟨r, List.mem_cons_of_mem _ hr, hin⟩

theorem mem_of_mem_ascending {gs : List Generation} {g : Generation}
    (h : g ∈ Generation.ascending gs) : g ∈ gs := by
  obtain ⟨x, hx, rfl⟩ := List.mem_map.mp h
  obtain ⟨g, hg, rfl⟩ := List.mem_map.mp (Entries.mem_of_mem_ofList hx)
  exact hg

/-- **A key of generations that belongs to none that is kept lies in a range that is cleared.** -/
theorem exists_mem_rangesExcept {keep : List Generation} {k : Bytes} (hns : generationsPrefix <+: k)
    (hnot : ∀ g ∈ keep, ¬ generationPrefix g <+: k) :
    ∃ r ∈ Generation.rangesExcept keep, r.contains k :=
  exists_mem_gaps hns.le hns fun g hg => hnot g (mem_of_mem_ascending hg)

/-- The ranges that are cleared have exactly the keys of the generations that are not kept. -/
theorem forall_not_contains_iff {keep : List Generation} {k : Bytes} :
    (∀ r ∈ Generation.rangesExcept keep, ¬ r.contains k) ↔
      ¬ generationsPrefix <+: k ∨ ∃ g ∈ keep, generationPrefix g <+: k := by
  constructor
  · intro hout
    by_contra hneither
    push Not at hneither
    obtain ⟨r, hr, hin⟩ := exists_mem_rangesExcept hneither.1 hneither.2
    exact hout r hr hin
  · rintro hkept r hr hin
    obtain ⟨hns, hnot⟩ := not_prefix_of_mem_rangesExcept hr hin
    rcases hkept with hkept | ⟨g, hg, hpre⟩
    · exact hkept hns
    · exact hnot g hg hpre

end Key

/-- **Exactly the generations that are not kept are removed.** On every store and for every list of
generations, the removal comes to its end if its loops may run once more often than the store has
entries; of the host only the store has changed; and an entry of the store is left, with its value, if
and only if its key does not start like the keys of generations or has the prefix of a generation
that is kept. -/
theorem Generation.run_clearExcept (h : Host) (keep : List Generation) (rounds : Nat) :
    ∃ s : Store,
      Host.run (Generation.clearExcept (h.store.size + 1 + rounds) keep).run h =
        (some (.ok ()), { h with store := s }) ∧
      ∀ k v, s.get? k = some v ↔ h.store.get? k = some v ∧
        (¬ Key.generationsPrefix <+: k ∨ ∃ g ∈ keep, Key.generationPrefix g <+: k) := by
  refine ⟨_, Storage.run_clearAll (rangesExcept keep) (by omega), fun k v => ?_⟩
  rw [Store.get?_foldl_without_eq_some_iff, Key.forall_not_contains_iff]

end ContentIndex
