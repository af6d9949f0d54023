/-!
# Finite maps ordered by key

A map is the list of its entries in strictly increasing key order, so two maps with the same
entries are equal. The operations on plain entry lists serve nested types, whose maps cannot
carry the order in their type.

## Main definitions

* `Entries.insert`, `Entries.erase`, `Entries.find?`: the operations on entry lists
* `Entries.Sorted`: keys strictly increase
* `OrderedMap κ α`: an entry list with its order
* `OrderedMap.insert`, `OrderedMap.erase`, `OrderedMap.get?`, `OrderedMap.ofList`

## Main results

* `Entries.sorted_insert`, `Entries.sorted_erase`: the operations keep the order
* `Entries.find?_insert`, `Entries.find?_erase`: what a lookup sees after an operation
-/

namespace ContentIndex

namespace Entries

variable {κ α : Type}

/-- The keys strictly increase. -/
def Sorted [LT κ] (l : List (κ × α)) : Prop := l.Pairwise fun a b => a.1 < b.1

/-- The value stored under `k`. -/
def find? [DecidableEq κ] (k : κ) : List (κ × α) → Option α
  | [] => none
  | (k', v) :: r => if k = k' then some v else find? k r

/-- Some value is stored under `k`. -/
def contains [DecidableEq κ] (k : κ) (l : List (κ × α)) : Bool := (find? k l).isSome

/-- Stores `v` under `k`, in place of an earlier value. -/
def insert [DecidableEq κ] [LT κ] [DecidableLT κ] (k : κ) (v : α) :
    List (κ × α) → List (κ × α)
  | [] => [(k, v)]
  | (k', v') :: r =>
    if k' < k then (k', v') :: insert k v r
    else if k = k' then (k, v) :: r
    else (k, v) :: (k', v') :: r

/-- Removes the entry of `k`. -/
def erase [DecidableEq κ] (k : κ) : List (κ × α) → List (κ × α)
  | [] => []
  | (k', v) :: r => if k = k' then r else (k', v) :: erase k r

/-- The entries of a list of pairs in key order; the last of several values for one key wins. -/
def ofList [DecidableEq κ] [LT κ] [DecidableLT κ] (l : List (κ × α)) : List (κ × α) :=
  l.foldl (fun m e => insert e.1 e.2 m) []

section Lemmas

theorem mem_erase [DecidableEq κ] {k : κ} {e : κ × α} {l : List (κ × α)} (h : e ∈ erase k l) :
    e ∈ l := by
  induction l with
  | nil => exact h
  | cons a r ih => grind [erase]

theorem sorted_erase [DecidableEq κ] [LT κ] (k : κ) {l : List (κ × α)} (h : Sorted l) :
    Sorted (erase k l) := by
  induction l with
  | nil => exact h
  | cons a r ih =>
    have hr := List.pairwise_cons.mp h
    by_cases hk : k = a.1
    · simp only [erase, hk, ↓reduceIte]
      exact hr.2
    · have : erase k (a :: r) = a :: erase k r := by simp [erase, hk]
      rw [this]
      exact List.pairwise_cons.mpr ⟨fun b hb => hr.1 b (mem_erase hb), ih hr.2⟩

variable [DecidableEq κ] [LE κ] [LT κ] [DecidableLT κ]

omit [LE κ] in
theorem mem_insert {k : κ} {v : α} {e : κ × α} {l : List (κ × α)} (h : e ∈ insert k v l) :
    e = (k, v) ∨ e ∈ l := by
  induction l with
  | nil => exact Or.inl (by simpa [insert] using h)
  | cons a r ih => grind [insert]

theorem find?_insert [Std.IsLinearOrder κ] [Std.LawfulOrderLT κ] (k k' : κ) (v : α)
    (l : List (κ × α)) : find? k' (insert k v l) = if k' = k then some v else find? k' l := by
  induction l with
  | nil => simp [insert, find?]
  | cons a r ih => grind [insert, find?]

theorem sorted_insert [Std.IsLinearOrder κ] [Std.LawfulOrderLT κ] (k : κ) (v : α)
    {l : List (κ × α)} (h : Sorted l) : Sorted (insert k v l) := by
  induction l with
  | nil => exact List.pairwise_singleton _ _
  | cons a r ih =>
    obtain ⟨k', v'⟩ := a
    have hr := List.pairwise_cons.mp h
    by_cases hlt : k' < k
    · have : insert k v ((k', v') :: r) = (k', v') :: insert k v r := by simp [insert, hlt]
      rw [this]
      refine List.pairwise_cons.mpr ⟨fun b hb => ?_, ih hr.2⟩
      rcases mem_insert hb with rfl | hb
      · exact hlt
      · exact hr.1 b hb
    · by_cases heq : k = k'
      · subst heq
        have : insert k v ((k, v') :: r) = (k, v) :: r := by simp [insert, hlt]
        rw [this]
        exact List.pairwise_cons.mpr ⟨fun b hb => hr.1 b hb, hr.2⟩
      · have : insert k v ((k', v') :: r) = (k, v) :: (k', v') :: r := by simp [insert, hlt, heq]
        rw [this]
        have hlt' : k < k' := by
          rcases Std.lt_trichotomy k k' with h | h | h
          · exact h
          · exact absurd h heq
          · exact absurd h hlt
        refine List.pairwise_cons.mpr ⟨fun b hb => ?_, h⟩
        rcases List.mem_cons.mp hb with rfl | hb
        · exact hlt'
        · exact Std.lt_trans hlt' (hr.1 b hb)

omit [DecidableLT κ] in
theorem find?_eq_none_of_lt [Std.IsLinearOrder κ] [Std.LawfulOrderLT κ] {k : κ}
    {l : List (κ × α)} (h : ∀ e ∈ l, k < e.1) : find? k l = none := by
  induction l with
  | nil => rfl
  | cons a r ih =>
    have ha := h a (List.mem_cons_self ..)
    have : k ≠ a.1 := fun heq => Std.lt_irrefl (heq ▸ ha)
    simp [find?, this, ih fun e he => h e (List.mem_cons_of_mem _ he)]

omit [DecidableLT κ] in
theorem find?_erase [Std.IsLinearOrder κ] [Std.LawfulOrderLT κ] (k k' : κ) {l : List (κ × α)}
    (h : Sorted l) : find? k' (erase k l) = if k' = k then none else find? k' l := by
  induction l with
  | nil => simp [erase, find?]
  | cons a r ih =>
    have hr := List.pairwise_cons.mp h
    by_cases hk : k = a.1
    · by_cases hk' : k' = k
      · subst hk'
        simp only [erase, hk, ↓reduceIte]
        exact find?_eq_none_of_lt hr.1
      · have : k' ≠ a.1 := hk ▸ hk'
        simp [erase, find?, hk, this]
    · have := ih hr.2
      by_cases hk' : k' = a.1
      · have : k' ≠ k := fun h => hk (h ▸ hk')
        simp [erase, find?, hk, hk', Ne.symm hk]
      · simp [erase, find?, hk, hk', this]

end Lemmas

end Entries

/-- A finite map, given by its entries in strictly increasing key order. -/
structure OrderedMap (κ α : Type) [LT κ] where
  /-- The entries in key order. -/
  entries : List (κ × α)
  /-- No key is stored twice, and the keys increase. -/
  sorted : Entries.Sorted entries

namespace OrderedMap

variable {κ α : Type} [LT κ]

/-- The map without entries. -/
def empty : OrderedMap κ α := ⟨[], List.Pairwise.nil⟩

instance : Inhabited (OrderedMap κ α) := ⟨empty⟩

instance : EmptyCollection (OrderedMap κ α) := ⟨empty⟩

@[ext] theorem ext {m n : OrderedMap κ α} (h : m.entries = n.entries) : m = n := by
  cases m; cases n; simp_all

/-- The value stored under `k`. -/
def get? [DecidableEq κ] (m : OrderedMap κ α) (k : κ) : Option α := Entries.find? k m.entries

/-- The number of entries. -/
def size (m : OrderedMap κ α) : Nat := m.entries.length

/-- The keys in order. -/
def keys (m : OrderedMap κ α) : List κ := m.entries.map (·.1)

/-- Removes the entry of `k`. -/
def erase [DecidableEq κ] (m : OrderedMap κ α) (k : κ) : OrderedMap κ α :=
  ⟨Entries.erase k m.entries, Entries.sorted_erase k m.sorted⟩

section Insert

variable [DecidableEq κ] [LE κ] [DecidableLT κ] [Std.IsLinearOrder κ] [Std.LawfulOrderLT κ]

/-- Stores `v` under `k`, in place of an earlier value. -/
def insert (m : OrderedMap κ α) (k : κ) (v : α) : OrderedMap κ α :=
  ⟨Entries.insert k v m.entries, Entries.sorted_insert k v m.sorted⟩

/-- The map of a list of pairs; the last of several values for one key wins. -/
def ofList (l : List (κ × α)) : OrderedMap κ α := l.foldl (fun m e => m.insert e.1 e.2) empty

@[simp] theorem get?_insert (m : OrderedMap κ α) (k k' : κ) (v : α) :
    (m.insert k v).get? k' = if k' = k then some v else m.get? k' :=
  Entries.find?_insert k k' v m.entries

omit [DecidableLT κ] in
@[simp] theorem get?_erase (m : OrderedMap κ α) (k k' : κ) :
    (m.erase k).get? k' = if k' = k then none else m.get? k' :=
  Entries.find?_erase k k' m.sorted

end Insert

end OrderedMap

end ContentIndex
