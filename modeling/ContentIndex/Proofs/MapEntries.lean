import ContentIndex.OrderedMap
import Mathlib.Data.List.Induction
import Mathlib.Data.List.Nodup

/-!
# Entries in key order

A list of pairs becomes a map with the last of the values that the list has for a key.

## Main results

* `Entries.find?_ofList`: a list of pairs as a map
* `Entries.find?_eq_some_iff`: a key of a map has one value
* `Entries.insert_erase`: an entry that is taken out can be put in again
-/

namespace ContentIndex

namespace Entries

variable {κ α : Type} [DecidableEq κ] [LE κ] [LT κ] [DecidableLT κ]

omit [LE κ] in
theorem ofList_concat (l : List (κ × α)) (e : κ × α) :
    ofList (l ++ [e]) = insert e.1 e.2 (ofList l) := by
  simp [ofList, List.foldl_append]

omit [LE κ] in
/-- A map made of a list of pairs holds nothing else. -/
theorem mem_of_mem_ofList {e : κ × α} {l : List (κ × α)} (h : e ∈ ofList l) : e ∈ l := by
  induction l using List.reverseRecOn with
  | nil => exact h
  | append_singleton l d ih =>
    rw [ofList_concat] at h
    rcases mem_insert h with rfl | h
    · simp
    · exact List.mem_append_left _ (ih h)

theorem sorted_ofList [Std.IsLinearOrder κ] [Std.LawfulOrderLT κ] (l : List (κ × α)) :
    Sorted (ofList l) := by
  induction l using List.reverseRecOn with
  | nil => exact List.Pairwise.nil
  | append_singleton l e ih =>
    rw [ofList_concat]
    exact sorted_insert e.1 e.2 ih

/-- Of several values for one key the last is found. -/
theorem find?_ofList [Std.IsLinearOrder κ] [Std.LawfulOrderLT κ] (k : κ) (l : List (κ × α)) :
    find? k (ofList l) = (l.reverse.find? (·.1 = k)).map (·.2) := by
  induction l using List.reverseRecOn with
  | nil => rfl
  | append_singleton l e ih =>
    rw [ofList_concat, find?_insert, ih]
    by_cases hk : k = e.1
    · simp [hk]
    · have : e.1 ≠ k := fun h => hk h.symm
      simp [hk, this]

omit [DecidableLT κ] in
/-- In a map a key has one value. -/
theorem find?_eq_some_iff [Std.IsLinearOrder κ] [Std.LawfulOrderLT κ] {l : List (κ × α)}
    (h : Sorted l) {k : κ} {v : α} : find? k l = some v ↔ (k, v) ∈ l := by
  induction l with
  | nil => simp [find?]
  | cons e l ih =>
    obtain ⟨hfirst, hrest⟩ := List.pairwise_cons.mp h
    by_cases hk : k = e.1
    · have hnot : (k, v) ∉ l := fun hm => Std.lt_irrefl (hk ▸ hfirst _ hm)
      simp [find?, hk, Prod.ext_iff, hk ▸ hnot, eq_comm]
    · simp [find?, hk, ih hrest, Prod.ext_iff]

/-- The keys of a list of pairs as a map are those of the list. -/
theorem exists_mem_ofList [Std.IsLinearOrder κ] [Std.LawfulOrderLT κ] {l : List (κ × α)}
    {e : κ × α} (h : e ∈ l) : ∃ v, (e.1, v) ∈ ofList l := by
  have hsome : (l.reverse.find? (·.1 = e.1)).isSome := by
    rw [List.find?_isSome]
    exact ⟨e, List.mem_reverse.mpr h, by simp⟩
  obtain ⟨x, hx⟩ := Option.isSome_iff_exists.mp hsome
  refine ⟨x.2, (find?_eq_some_iff (sorted_ofList l)).mp ?_⟩
  rw [find?_ofList, hx]
  rfl

/-- If the keys are different, no value is lost. -/
theorem find?_ofList_of_mem [Std.IsLinearOrder κ] [Std.LawfulOrderLT κ] {l : List (κ × α)}
    (h : (l.map (·.1)).Nodup) {k : κ} {v : α} (hv : (k, v) ∈ l) : find? k (ofList l) = some v := by
  obtain ⟨w, hw⟩ := exists_mem_ofList hv
  obtain rfl : w = v :=
    (Prod.mk.inj (List.inj_on_of_nodup_map h (mem_of_mem_ofList hw) hv rfl)).2
  exact (find?_eq_some_iff (sorted_ofList l)).mpr hw

/-! ### Entries that are taken out -/

section Erase

variable {k : κ} {v : α} {l : List (κ × α)}

omit [LE κ] [LT κ] [DecidableLT κ] in
theorem erase_of_find?_eq_none (h : find? k l = none) : erase k l = l := by
  induction l with
  | nil => rfl
  | cons e l ih =>
    obtain ⟨k', v'⟩ := e
    rw [find?] at h
    split at h
    · cases h
    · next hne => rw [erase, if_neg hne, ih h]

variable [Std.IsLinearOrder κ] [Std.LawfulOrderLT κ]

theorem insert_of_forall_gt (h : ∀ e ∈ l, k < e.1) : insert k v l = (k, v) :: l := by
  cases l with
  | nil => rfl
  | cons e l =>
    have hlt := h e (List.mem_cons_self ..)
    rw [insert, if_neg fun hgt => Std.lt_irrefl (Std.lt_trans hlt hgt),
      if_neg fun heq => Std.lt_irrefl (heq ▸ hlt)]

/-- An entry that is taken out and put in again is where it was. -/
theorem insert_erase (h : Sorted l) (hv : find? k l = some v) : insert k v (erase k l) = l := by
  induction l with
  | nil => cases hv
  | cons e l ih =>
    obtain ⟨k', v'⟩ := e
    obtain ⟨hfirst, hrest⟩ := List.pairwise_cons.mp h
    rw [find?] at hv
    split at hv
    · next heq =>
      cases hv
      subst heq
      rw [erase, if_pos rfl, insert_of_forall_gt hfirst]
    · next hne =>
      have hlt : k' < k := hfirst _ ((find?_eq_some_iff hrest).mp hv)
      rw [erase, if_neg hne, insert, if_pos hlt, ih hrest hv]

end Erase

end Entries

end ContentIndex
