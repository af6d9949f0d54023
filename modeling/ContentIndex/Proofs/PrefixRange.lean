import ContentIndex.Store.Range

/-!
# Ranges of prefixes

The keys that start with given bytes are an interval: they begin at the prefix and end before its
successor.

## Main definitions

* `Bytes.IsSuccessor`: the least byte string above all those that start alike

## Main results

* `Bytes.prefixSuccessor?_cases`: the successor in terms of the last byte below `0xFF`
* `Bytes.prefixSuccessor?_eq_some_iff`: the successor is the least bound, if there is any
* `KeyRange.contains_ofPrefix_iff`: the range of a prefix holds the keys that start with it
* `KeyRange.isEmpty_iff`: a range is empty if it holds no key
-/

namespace ContentIndex

namespace Bytes

/-- The successor keeps what is left of the last byte below `0xFF` and counts that byte up. -/
theorem successorReversed?_cases (r : Bytes) :
    (∃ q b n, r.reverse = q ++ b :: List.replicate n 0xFF ∧ b < 0xFF ∧
      successorReversed? r = some (q ++ [b + 1])) ∨
    (∃ n, r.reverse = List.replicate n 0xFF ∧ successorReversed? r = none) := by
  induction r with
  | nil => exact Or.inr ⟨0, rfl, rfl⟩
  | cons b r ih =>
    by_cases hb : b < 0xFF
    · exact Or.inl ⟨r.reverse, b, 0, by simp, hb, by simp [successorReversed?, hb]⟩
    · have hb' : b = 0xFF := by
        rw [← UInt8.toNat_inj]
        simp [UInt8.lt_iff_toNat_lt] at hb
        have := b.toNat_lt
        simp
        omega
      subst hb'
      rcases ih with ⟨q, b, n, hr, hb, hs⟩ | ⟨n, hr, hs⟩
      · refine Or.inl ⟨q, b, n + 1, ?_, hb, by simp [successorReversed?, hs]⟩
        simp [hr, List.replicate_succ']
      · refine Or.inr ⟨n + 1, ?_, by simp [successorReversed?, hs]⟩
        simp [hr, List.replicate_succ']

/-- Only a string of bytes `0xFF` has no successor. -/
theorem prefixSuccessor?_cases (p : Bytes) :
    (∃ q b n, p = q ++ b :: List.replicate n 0xFF ∧ b < 0xFF ∧
      p.prefixSuccessor? = some (q ++ [b + 1])) ∨
    (∃ n, p = List.replicate n 0xFF ∧ p.prefixSuccessor? = none) := by
  have h := successorReversed?_cases p.reverse
  rwa [List.reverse_reverse] at h

/-- From a string of bytes `0xFF` on, all keys start with it. -/
theorem replicate_le_iff {n : Nat} {k : Bytes} :
    List.replicate n 0xFF ≤ k ↔ List.replicate n 0xFF <+: k := by
  refine ⟨fun h => ?_, List.IsPrefix.le⟩
  induction n generalizing k with
  | zero => exact List.nil_prefix
  | succ n ih =>
    rw [List.replicate_succ] at h ⊢
    cases k with
    | nil => exact absurd (List.nil_lt_cons _ _) h
    | cons c k =>
      rcases List.cons_le_cons_iff.mp h with hc | ⟨rfl, hk⟩
      · have := c.toNat_lt
        simp [UInt8.lt_iff_toNat_lt] at hc
        omega
      · exact List.cons_prefix_cons.mpr ⟨rfl, ih hk⟩

theorem prefix_iff_le_and_lt {q : Bytes} {b : UInt8} {n : Nat} (hb : b < 0xFF) {k : Bytes} :
    q ++ b :: List.replicate n 0xFF <+: k ↔
      q ++ b :: List.replicate n 0xFF ≤ k ∧ k < q ++ [b + 1] := by
  have hsucc : b < b + 1 := by
    simp only [UInt8.lt_iff_toNat_lt, UInt8.toNat_add] at hb ⊢
    simp at hb ⊢
    omega
  induction q generalizing k with
  | nil =>
    cases k with
    | nil => simp
    | cons c k =>
      have hlt : c < b + 1 ↔ c ≤ b := by
        simp only [UInt8.lt_iff_toNat_lt, UInt8.le_iff_toNat_le, UInt8.toNat_add] at hb ⊢
        simp at hb ⊢
        omega
      simp only [List.nil_append, List.cons_prefix_cons, List.cons_le_cons_iff,
        List.cons_lt_cons_iff, List.not_lt_nil, and_false, or_false, replicate_le_iff, hlt]
      constructor
      · rintro ⟨rfl, h⟩
        exact ⟨Or.inr ⟨rfl, h⟩, Std.le_refl _⟩
      · rintro ⟨h | h, hc⟩
        · exact absurd h (Std.not_lt.mpr hc)
        · exact h
  | cons a q ih =>
    cases k with
    | nil => simp
    | cons c k =>
      simp only [List.cons_append, List.cons_prefix_cons, List.cons_le_cons_iff,
        List.cons_lt_cons_iff, ih]
      constructor
      · rintro ⟨rfl, h₁, h₂⟩
        exact ⟨Or.inr ⟨rfl, h₁⟩, Or.inr ⟨rfl, h₂⟩⟩
      · rintro ⟨h₁ | ⟨rfl, h₁⟩, h₂ | ⟨he, h₂⟩⟩
        · exact absurd (Std.lt_trans h₁ h₂) (Std.lt_irrefl)
        · exact absurd (he ▸ h₁) (Std.lt_irrefl)
        · exact absurd h₂ (Std.lt_irrefl)
        · exact ⟨rfl, h₁, h₂⟩

/-! ### The least bound -/

/-- `s` is the least byte string above all those that start with `p`. -/
def IsSuccessor (p s : Bytes) : Prop :=
  (∀ x, p <+: x → x < s) ∧ ∀ t, (∀ x, p <+: x → x < t) → s ≤ t

theorem IsSuccessor.unique {p s t : Bytes} (hs : IsSuccessor p s) (ht : IsSuccessor p t) :
    s = t :=
  Std.le_antisymm (hs.2 t ht.1) (ht.2 s hs.1)

theorem isSuccessor_of_eq_some {p s : Bytes} (h : p.prefixSuccessor? = some s) :
    IsSuccessor p s := by
  rcases p.prefixSuccessor?_cases with ⟨q, b, n, rfl, hb, hs⟩ | ⟨n, rfl, hs⟩
  · obtain rfl := Option.some.inj (hs.symm.trans h)
    refine ⟨fun x hx => ((prefix_iff_le_and_lt hb).mp hx).2, fun t ht => ?_⟩
    -- a bound below the successor would itself start with the prefix
    refine Std.not_lt.mp fun hlt => ?_
    have hle := Std.le_of_lt (ht _ (List.prefix_refl _))
    exact Std.lt_irrefl (ht t ((prefix_iff_le_and_lt hb).mpr ⟨hle, hlt⟩))
  · cases hs.symm.trans h

/-- The successor is the least bound, if there is any. -/
theorem prefixSuccessor?_eq_some_iff {p s : Bytes} :
    p.prefixSuccessor? = some s ↔ IsSuccessor p s := by
  refine ⟨isSuccessor_of_eq_some, fun h => ?_⟩
  rcases p.prefixSuccessor?_cases with ⟨q, b, n, rfl, -, hs⟩ | ⟨n, rfl, -⟩
  · rw [hs, (isSuccessor_of_eq_some hs).unique h]
  · -- every byte string from a string of bytes `0xFF` on starts with it, the bound included
    have hle := Std.le_of_lt (h.1 _ (List.prefix_refl _))
    exact absurd (h.1 s (replicate_le_iff.mp hle)) Std.lt_irrefl

end Bytes

namespace KeyRange

/-- The range of a prefix holds exactly the keys that start with it. -/
theorem contains_ofPrefix_iff {p k : Bytes} : (ofPrefix p).contains k ↔ p <+: k := by
  rcases p.prefixSuccessor?_cases with ⟨q, b, n, rfl, hb, hs⟩ | ⟨n, rfl, hs⟩
  · simp [ofPrefix, contains, hs, Bytes.prefix_iff_le_and_lt hb]
  · simp [ofPrefix, contains, hs, Bytes.replicate_le_iff]

theorem contains_iff {r : KeyRange} {k : Bytes} :
    r.contains k ↔ r.start ≤ k ∧ ∀ stop ∈ r.stop, k < stop := by
  simp [contains, Option.all_eq_true]

/-- A range is empty if it holds no key. -/
theorem isEmpty_iff {r : KeyRange} : r.isEmpty ↔ ∀ k, ¬ r.contains k := by
  simp only [isEmpty, Option.any_eq_true, decide_eq_true_eq, contains_iff]
  constructor
  · rintro ⟨stop, hstop, hle⟩ k ⟨hstart, hlt⟩
    exact Std.lt_irrefl (Std.lt_of_lt_of_le (hlt stop hstop) (Std.le_trans hle hstart))
  · -- a range that is not empty holds its start
    intro h
    refine Classical.byContradiction fun hne => h r.start ⟨Std.le_refl _, fun stop hstop => ?_⟩
    exact Std.not_le.mp fun hle => hne ⟨stop, hstop, hle⟩

end KeyRange

end ContentIndex
