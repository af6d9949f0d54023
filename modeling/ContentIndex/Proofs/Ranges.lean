import ContentIndex.Proofs.Batch
import ContentIndex.Proofs.PrefixRange

/-!
# The entries of a range

A range has its entries in a direction: a strictly ordered list, determined by what the store has
under the keys of the range. A scan takes the front of it, and the part of the range past a key has
exactly the entries that follow that key, so a range can be read in pieces.

## Main definitions

* `Direction.Before`: the order of keys in a direction
* `Store.within`: the entries of a range in a direction

## Main results

* `KeyRange.exact_bounds`: **the bounds of a range are neither too wide nor too narrow**
* `Store.within_congr`: the entries of a range depend on its keys only
* `Store.within_past`: **past a key there are the entries that follow it**
-/

namespace ContentIndex

/-- The first key comes before the second one in the direction. -/
def Direction.Before : Direction → Bytes → Bytes → Prop
  | .forward, a, b => a < b
  | .reverse, a, b => b < a

instance (d : Direction) (a b : Bytes) : Decidable (d.Before a b) := by
  cases d <;> exact inferInstanceAs (Decidable (_ < _))

namespace Direction.Before

variable {d : Direction} {a b c : Bytes}

theorem trans (h : d.Before a b) (h' : d.Before b c) : d.Before a c := by
  cases d with
  | forward => exact Std.lt_trans h h'
  | reverse => exact Std.lt_trans h' h

theorem irrefl : ¬ d.Before a a := by
  cases d <;> exact Std.lt_irrefl

theorem asymm (h : d.Before a b) : ¬ d.Before b a := fun h' => irrefl (h.trans h')

variable {α : Type} {f : α → Bytes} {l l' : List α}

/-- What is strictly ordered by keys is there once. -/
theorem nodup (h : l.Pairwise fun x y => d.Before (f x) (f y)) : l.Nodup := by
  refine List.Pairwise.imp ?_ h
  rintro x _ hlt rfl
  exact irrefl hlt

/-- Lists with the same items that are strictly ordered by keys are equal. -/
theorem eq_of_pairwise (h : l.Pairwise fun x y => d.Before (f x) (f y))
    (h' : l'.Pairwise fun x y => d.Before (f x) (f y)) (hmem : ∀ x, x ∈ l ↔ x ∈ l') : l = l' := by
  refine List.Perm.eq_of_pairwise (fun x y _ _ hxy hyx => absurd hyx hxy.asymm) h h' ?_
  exact (List.perm_ext_iff_of_nodup (nodup h) (nodup h')).mpr hmem

end Direction.Before

namespace KeyRange

variable {r : KeyRange} {d : Direction} {k x : Bytes}

theorem append_zero_le_iff : k ++ [0] ≤ x ↔ k < x := by
  induction k generalizing x with
  | nil =>
    cases x with
    | nil => simp
    | cons b x =>
      have hzero : (0 : UInt8) < b ∨ 0 = b := by
        rw [UInt8.lt_iff_toNat_lt, ← UInt8.toNat_inj]
        simp
        omega
      have hnil : ([] : Bytes) ≤ x := by simp
      simp [List.cons_le_cons_iff, hzero, hnil]
  | cons b k ih =>
    cases x with
    | nil => simp
    | cons c x => simp [List.cons_le_cons_iff, List.cons_lt_cons_iff, ih]

/-- The part of a range past one of its keys has the keys that come after it. -/
theorem contains_past_iff (hk : r.contains k) :
    (r.past k d).contains x ↔ r.contains x ∧ d.Before k x := by
  rw [contains_iff] at hk
  cases d with
  | forward =>
    simp only [past, after, contains_iff, append_zero_le_iff, Direction.Before]
    constructor
    · rintro ⟨hlt, hstop⟩
      exact ⟨⟨Std.le_trans hk.1 (Std.le_of_lt hlt), hstop⟩, hlt⟩
    · rintro ⟨⟨-, hstop⟩, hlt⟩
      exact ⟨hlt, hstop⟩
  | reverse =>
    simp only [past, before, contains_iff, Direction.Before, Option.mem_def, Option.some.injEq]
    constructor
    · rintro ⟨hle, hlt⟩
      have hlt : x < k := hlt k rfl
      exact ⟨⟨hle, fun stop hstop => Std.lt_trans hlt (hk.2 stop hstop)⟩, hlt⟩
    · rintro ⟨⟨hle, -⟩, hlt⟩
      refine ⟨hle, ?_⟩
      rintro stop rfl
      exact hlt

/-- **The bounds of a range are neither too wide nor too narrow.** The range of a prefix holds the
keys that start with it and no others, whatever its bytes are; its end is the least byte string
above them, if there is one. Past a key that starts with the prefix it holds those that start with
it and come after that key, or before it. A range is empty if it holds no key. -/
theorem exact_bounds (p : Bytes) :
    (∀ x, (ofPrefix p).contains x ↔ p <+: x) ∧
    (∀ s, p.prefixSuccessor? = some s ↔ p.IsSuccessor s) ∧
    (∀ k, p <+: k → ∀ x,
      (((ofPrefix p).after k).contains x ↔ p <+: x ∧ k < x) ∧
      (((ofPrefix p).before k).contains x ↔ p <+: x ∧ x < k)) ∧
    ∀ r : KeyRange, r.isEmpty ↔ ∀ x, ¬ r.contains x := by
  refine ⟨fun _ => contains_ofPrefix_iff, fun _ => Bytes.prefixSuccessor?_eq_some_iff,
    fun k hk x => ?_, fun _ => isEmpty_iff⟩
  have hcontains : (ofPrefix p).contains k := contains_ofPrefix_iff.mpr hk
  have hafter := contains_past_iff (d := .forward) (x := x) hcontains
  have hbefore := contains_past_iff (d := .reverse) (x := x) hcontains
  rw [contains_ofPrefix_iff] at hafter hbefore
  exact ⟨hafter, hbefore⟩

/-- The last byte of a prefix is full and carries over, and the keys after one of its keys go on to
the end. -/
theorem exact_bounds_carry :
    ([0x61, 0xFF] : Bytes) <+: [0x61, 0xFF, 0x00] ∧
    ((ofPrefix [0x61, 0xFF]).after [0x61, 0xFF, 0x00]).contains [0x61, 0xFF, 0xFF] ∧
    ¬ ((ofPrefix [0x61, 0xFF]).after [0x61, 0xFF, 0x00]).contains [0x62] ∧
    ((ofPrefix [0x61, 0xFF]).before [0x61, 0xFF, 0x00]).contains [0x61, 0xFF] ∧
    Bytes.IsSuccessor [0x61, 0xFF] [0x62] := by
  have hk : ([0x61, 0xFF] : Bytes) <+: [0x61, 0xFF, 0x00] := by decide
  obtain ⟨-, hsuccessor, hpast, -⟩ := exact_bounds [0x61, 0xFF]
  refine ⟨hk, ?_, ?_, ?_, (hsuccessor _).mp (by decide)⟩
  · exact (hpast _ hk _).1.mpr ⟨by decide, by decide⟩
  · exact fun h => absurd ((hpast _ hk _).1.mp h).1 (by decide)
  · exact (hpast _ hk _).2.mpr ⟨by decide, by decide⟩

end KeyRange

namespace Store

variable {s s' : Store} {r : KeyRange} {d : Direction} {e : Entry}

/-- The entries of a range, in the direction. -/
def within (s : Store) (r : KeyRange) (d : Direction) : List Entry :=
  match d with
  | .forward => s.entries.filter (r.contains ·.1)
  | .reverse => (s.entries.filter (r.contains ·.1)).reverse

theorem scan_eq_take (s : Store) (r : KeyRange) (d : Direction) (limit : Nat) :
    s.scan r d limit = (s.within r d).take limit := by
  cases d <;> rfl

theorem mem_within : e ∈ s.within r d ↔ s.get? e.1 = some e.2 ∧ r.contains e.1 := by
  have hmem : e ∈ s.within r d ↔ e ∈ s.entries.filter (r.contains ·.1) := by
    cases d with
    | forward => exact Iff.rfl
    | reverse => exact List.mem_reverse
  rw [hmem, List.mem_filter, get?_eq_some_iff_mem]

/-- The entries are strictly ordered. -/
theorem pairwise_within (s : Store) (r : KeyRange) (d : Direction) :
    (s.within r d).Pairwise fun x y => d.Before x.1 y.1 := by
  have hsorted : (s.entries.filter (r.contains ·.1)).Pairwise fun x y => x.1 < y.1 :=
    s.sorted.sublist List.filter_sublist
  cases d with
  | forward => exact hsorted
  | reverse => exact List.pairwise_reverse.mpr hsorted

theorem length_within_le (s : Store) (r : KeyRange) (d : Direction) :
    (s.within r d).length ≤ s.entries.length := by
  have hle : (s.entries.filter (r.contains ·.1)).length ≤ s.entries.length :=
    List.length_filter_le ..
  cases d with
  | forward => exact hle
  | reverse => exact Nat.le_trans (Nat.le_of_eq List.length_reverse) hle

/-- A store is known by its keys. -/
theorem eq_of_get? (h : ∀ k, s.get? k = s'.get? k) : s = s' := by
  refine OrderedMap.ext (Direction.Before.eq_of_pairwise (d := .forward) s.sorted s'.sorted ?_)
  intro e
  rw [← get?_eq_some_iff_mem, ← get?_eq_some_iff_mem, h]

/-- The entries of a range depend on its keys only. -/
theorem within_congr (h : ∀ k, r.contains k → s.get? k = s'.get? k) :
    s.within r d = s'.within r d := by
  refine Direction.Before.eq_of_pairwise (pairwise_within s r d) (pairwise_within s' r d) ?_
  intro e
  rw [mem_within, mem_within]
  constructor
  · rintro ⟨hget, hr⟩
    exact ⟨(h _ hr).symm.trans hget, hr⟩
  · rintro ⟨hget, hr⟩
    exact ⟨(h _ hr).trans hget, hr⟩

/-- **Past a key there are the entries that follow it.** -/
theorem within_past {front rest : List Entry} (h : s.within r d = front ++ e :: rest) :
    s.within (r.past e.1 d) d = rest := by
  have hsorted := pairwise_within s r d
  rw [h, List.pairwise_append] at hsorted
  obtain ⟨-, hback, hfront⟩ := hsorted
  have hr : r.contains e.1 := (mem_within.mp (h ▸ List.mem_append_right _ (by simp))).2
  refine Direction.Before.eq_of_pairwise (pairwise_within s _ d) (List.pairwise_cons.mp hback).2 ?_
  intro x
  have hmem : x ∈ s.within r d ↔ x ∈ front ∨ x = e ∨ x ∈ rest := by
    rw [h, List.mem_append, List.mem_cons]
  rw [mem_within] at hmem
  rw [mem_within, KeyRange.contains_past_iff hr, ← and_assoc, hmem]
  constructor
  · rintro ⟨hx | rfl | hx, hlt⟩
    · exact absurd hlt (hfront x hx e (List.mem_cons_self ..)).asymm
    · exact absurd hlt Direction.Before.irrefl
    · exact hx
  · intro hx
    exact ⟨Or.inr (Or.inr hx), (List.pairwise_cons.mp hback).1 x hx⟩

end Store

end ContentIndex
