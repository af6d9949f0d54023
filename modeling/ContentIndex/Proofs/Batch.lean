import ContentIndex.Store.Basic

/-!
# What a batch does to a store

A batch is applied as a whole when all its guards hold, and not at all otherwise. A key that it
does not write keeps its value.

## Main results

* `Store.write_eq_ok_iff`: when a batch is applied, and what comes of it
* `Store.get?_foldl_apply_of_forall_ne`: a key that is not written keeps its value
* `Store.get?_puts`, `Store.get?_deletes`: batches that only write or only delete
* `Store.mem_scan`: the entries of a scan are entries of the store in the range
-/

namespace ContentIndex

/-- The value that a write leaves under its key. -/
def WriteOp.value? : WriteOp → Option Bytes
  | .put _ value => some value
  | .delete _ => none

namespace Store

@[simp] theorem get?_apply (s : Store) (op : WriteOp) (key : Bytes) :
    (s.apply op).get? key = if key = op.key then op.value? else s.get? key := by
  cases op with
  | put k v => exact OrderedMap.get?_insert s k key v
  | delete k => exact OrderedMap.get?_erase s k key

/-- A key that no write of the list names keeps its value. -/
theorem get?_foldl_apply_of_forall_ne {s : Store} {ops : List WriteOp} {key : Bytes}
    (h : ∀ op ∈ ops, op.key ≠ key) : (ops.foldl apply s).get? key = s.get? key := by
  induction ops generalizing s with
  | nil => rfl
  | cons op r ih =>
    rw [List.foldl_cons, ih fun op' h' => h op' (List.mem_cons_of_mem _ h'), get?_apply]
    exact if_neg fun hk => h op (List.mem_cons_self ..) hk.symm

theorem get?_deletes (s : Store) (keys : List Bytes) (key : Bytes) :
    ((keys.map WriteOp.delete).foldl apply s).get? key =
      if key ∈ keys then none else s.get? key := by
  induction keys generalizing s with
  | nil => simp
  | cons k r ih =>
    rw [List.map_cons, List.foldl_cons, ih, get?_apply]
    by_cases hr : key ∈ r
    · simp [hr]
    · by_cases hk : key = k
      · simp [hk, WriteOp.key, WriteOp.value?]
      · simp [hr, hk, WriteOp.key]

/-- Entries in key order are all there after they are written. -/
theorem get?_puts (s : Store) {es : List Entry} (h : Entries.Sorted es) (key : Bytes) :
    ((es.map fun e => WriteOp.put e.1 e.2).foldl apply s).get? key =
      (Entries.find? key es).or (s.get? key) := by
  induction es generalizing s with
  | nil => simp [Entries.find?]
  | cons e r ih =>
    have hr := List.pairwise_cons.mp h
    rw [List.map_cons, List.foldl_cons, ih _ hr.2, get?_apply]
    by_cases hk : key = e.1
    · subst hk
      rw [Entries.find?_eq_none_of_lt hr.1]
      simp [Entries.find?, WriteOp.key, WriteOp.value?]
    · simp [Entries.find?, hk, WriteOp.key]

/-! ### Guards -/

theorem failedGuard?_eq_none_iff {s : Store} {guards : List Guard} :
    s.failedGuard? guards = none ↔ ∀ g ∈ guards, s.get? g.key = g.expected := by
  simp [failedGuard?]

/-- A batch is applied if and only if all its guards hold. -/
theorem write_eq_ok_iff {s s' : Store} {b : Batch} :
    s.write b = .ok s' ↔
      (∀ g ∈ b.guards, s.get? g.key = g.expected) ∧ s' = b.ops.foldl apply s := by
  rw [← failedGuard?_eq_none_iff, write]
  cases s.failedGuard? b.guards with
  | none => simp [eq_comm]
  | some g => simp

/-! ### Reading -/

theorem get?_eq_some_iff_mem {s : Store} {key value : Bytes} :
    s.get? key = some value ↔ (key, value) ∈ s.entries := by
  obtain ⟨es, hs⟩ := s
  simp only [OrderedMap.get?]
  induction es with
  | nil => simp [Entries.find?]
  | cons e r ih =>
    have hr := List.pairwise_cons.mp hs
    by_cases hk : key = e.1
    · have hnot : (key, value) ∉ r := fun hm => Std.lt_irrefl (hk ▸ hr.1 _ hm)
      simp [Entries.find?, hk, Prod.ext_iff, hk ▸ hnot, eq_comm]
    · simp [Entries.find?, hk, ih hr.2, Prod.ext_iff]

/-- What a scan finds is in the store and in the range. -/
theorem mem_scan {s : Store} {r : KeyRange} {d : Direction} {limit : Nat} {e : Entry}
    (h : e ∈ s.scan r d limit) : s.get? e.1 = some e.2 ∧ r.contains e.1 := by
  have hm : e ∈ s.entries.filter (r.contains ·.1) := by
    cases d with
    | forward => exact List.mem_of_mem_take h
    | reverse => exact List.mem_reverse.mp (List.mem_of_mem_take h)
  obtain ⟨he, hr⟩ := List.mem_filter.mp hm
  exact ⟨get?_eq_some_iff_mem.mpr he, hr⟩

end Store

end ContentIndex
