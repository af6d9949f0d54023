import ContentIndex.Proofs.Trees

/-!
# Canonical paths

A path in canonical form is its names with slashes between them, so it is told by its names. It lies
below a directory if its names go on from those of the directory.

## Main definitions

* `Directory.IsCanonical`: the paths without parts that are empty or dots
* `Directory.IsListable`: the canonical paths and the empty one, which is that of the root
* `Directory.Fits`: the paths that are short enough

## Main results

* `Directory.IsListable.after_namesOf`: **a path is the path of its names**
* `Directory.IsListable.isBelow_iff`: what lies below a directory, told by names
* `Directory.IsCanonical.ofPath?_eq`: a canonical path leads to a file inside the root
-/

namespace ContentIndex

namespace Directory

open Node (after)

variable {path dir : String} {names rest : List String}

/-- A path in canonical form: none of its parts is empty, one dot or two dots, or has a zero. -/
def IsCanonical (path : String) : Prop :=
  ∀ part ∈ parts path, part ≠ [] ∧ part ≠ ['.'] ∧ part ≠ ['.', '.'] ∧ '\x00' ∉ part

instance (path : String) : Decidable (IsCanonical path) :=
  inferInstanceAs (Decidable (∀ part ∈ parts path, _))

/-- A directory in canonical form: the root, or a canonical path. -/
def IsListable (dir : String) : Prop := dir = "" ∨ IsCanonical dir

instance (dir : String) : Decidable (IsListable dir) :=
  inferInstanceAs (Decidable (dir = "" ∨ IsCanonical dir))

/-- A path that is not too long, and no name of which is. -/
def Fits (path : String) : Prop :=
  isTooLong path = false ∧ ∀ name ∈ namesOf path, name.utf8ByteSize ≤ maxNameSize

instance (path : String) : Decidable (Fits path) :=
  inferInstanceAs (Decidable (_ ∧ ∀ name ∈ namesOf path, _))

/-! ### Paths of names -/

namespace Node

theorem after_append (start : String) (names rest : List String) :
    after start (names ++ rest) = after (after start names) rest :=
  List.foldl_append

theorem after_eq_intercalate {start : String} (h : start ≠ "") (names : List String) :
    after start names = "/".intercalate (start :: names) := by
  induction names generalizing start with
  | nil => simp [after]
  | cons name names ih =>
    have hstep : after start (name :: names) = after (start ++ "/" ++ name) names := by
      simp [after, h]
    rw [hstep, ih (by simp), String.intercalate_cons_append, String.intercalate_cons_cons]

/-- The path of names that are not empty. -/
theorem after_empty_eq (h : ∀ name ∈ names, name ≠ "") :
    after "" names = "/".intercalate names := by
  cases names with
  | nil => rfl
  | cons name names =>
    exact after_eq_intercalate (h name (List.mem_cons_self ..)) names

/-- Paths grow. -/
theorem utf8ByteSize_le_after (start : String) (names : List String) :
    start.utf8ByteSize ≤ (after start names).utf8ByteSize := by
  induction names generalizing start with
  | nil => exact le_rfl
  | cons name names ih =>
    refine le_trans ?_ (ih _)
    beta_reduce
    split
    · next hempty =>
      rw [String.isEmpty_iff] at hempty
      simp [hempty]
    · simp only [String.utf8ByteSize_append]
      omega

end Node

/-! ### Canonical paths -/

namespace IsCanonical

variable (h : IsCanonical path)

include h

theorem ne_empty : path ≠ "" := by
  rintro rfl
  exact (h [] (by simp [parts])).1 rfl

theorem namesOf_eq : namesOf path = (parts path).map String.ofList := by
  have hwritten : written path = parts path :=
    List.filter_eq_self.mpr fun part hpart => by simpa using (h part hpart).1
  rw [namesOf, hwritten, List.filter_eq_self.mpr fun part hpart => by simpa using (h part hpart).2.1]

theorem namesOf_ne_nil : namesOf path ≠ [] := by
  rw [h.namesOf_eq]
  exact mt List.map_eq_nil_iff.mp (List.splitOn_ne_nil '/' _)

theorem name_ne_empty : ∀ name ∈ namesOf path, name ≠ "" := by
  rw [h.namesOf_eq]
  intro name hname
  obtain ⟨part, hpart, rfl⟩ := List.mem_map.mp hname
  simpa using (h part hpart).1

theorem hasZero_eq_false : ∀ name ∈ namesOf path, hasZero name = false := by
  rw [h.namesOf_eq]
  intro name hname
  obtain ⟨part, hpart, rfl⟩ := List.mem_map.mp hname
  simpa [hasZero] using (h part hpart).2.2.2

theorem isUnusable_eq_false (hfits : Fits path) : ∀ name ∈ namesOf path, isUnusable name = false := by
  intro name hname
  simp [isUnusable, h.hasZero_eq_false name hname, hfits.2 name hname]

/-- A canonical path leads to a file inside the root. -/
theorem ofPath?_eq : Place.ofPath? path = some ⟨namesOf path, .name⟩ := by
  have hhead : path.toList.head? ≠ some '/' := by
    intro hslash
    obtain ⟨cs, hcs⟩ : ∃ cs, path.toList = [] ++ '/' :: cs := List.head?_eq_some_iff.mp hslash
    refine (h [] ?_).1 rfl
    rw [parts, hcs, List.splitOn_append_cons_self]
    simp
  have hup : (parts path).contains ['.', '.'] = false := by
    simpa using fun hmem => (h _ hmem).2.2.1 rfl
  have hdot : (written path).getLast? ≠ some ['.'] := fun hlast =>
    (h _ (List.mem_filter.mp (List.mem_of_getLast? hlast)).1).2.1 rfl
  have hslash : (parts path).getLast? ≠ some [] := fun hlast =>
    (h _ (List.mem_of_getLast? hlast)).1 rfl
  rw [written] at hdot
  simp only [Place.ofPath?, String.isEmpty_eq_false_iff.mpr h.ne_empty, hhead, hup, decide_false,
    Bool.or_self, Bool.false_eq_true, if_false, hdot, hslash]
  rfl

theorem eq_intercalate : path = "/".intercalate (namesOf path) := by
  rw [← String.toList_inj, String.toList_intercalate, h.namesOf_eq, List.map_map,
    show String.toList ∘ String.ofList = id from funext fun cs => String.toList_ofList, List.map_id]
  exact (List.intercalate_splitOn '/').symm

/-- Slashes at the ends, of which there are none, are not trimmed. -/
theorem trimSlashes_eq : Source.trimSlashes path.toList = path.toList := by
  obtain ⟨n, hn⟩ := Source.exists_eq_trimSlashes_append path.toList
  cases n with
  | zero => simpa using hn.symm
  | succ n =>
    exfalso
    refine (h [] ?_).1 rfl
    rw [parts, hn, List.replicate_succ', ← List.append_assoc, List.splitOn_append_cons_self]
    simp

theorem dropWhile_eq : path.toList.dropWhile (· = '/') = path.toList := by
  cases hcs : path.toList with
  | nil => rfl
  | cons c cs =>
    have hc : c ≠ '/' := by
      rintro rfl
      have hplace := ofPath?_isSome_iff.mp (Option.isSome_of_eq_some h.ofPath?_eq)
      exact hplace.2.1 (by rw [hcs]; rfl)
    simp [hc]

theorem listingStart_eq : listingStart path = path := by
  have hwritten : (parts path).filter (· ≠ []) = parts path :=
    List.filter_eq_self.mpr fun part hpart => by simpa using (h part hpart).1
  have hdots : (parts path).dropWhile (· = ['.']) = parts path := by
    obtain ⟨part, others, hparts⟩ := List.exists_cons_of_ne_nil (List.splitOn_ne_nil '/' path.toList)
    have hpart : part ≠ ['.'] :=
      (h part (by rw [parts, hparts]; exact List.mem_cons_self ..)).2.1
    rw [parts, hparts, List.dropWhile_cons_of_neg (by simpa using hpart)]
  rw [listingStart, hwritten, hdots, ← h.namesOf_eq, ← h.eq_intercalate]

/-- The directory around a path that fits is not too long. -/
theorem isTooLong_dropLast (hfits : Fits path) :
    isTooLong ("/".intercalate (namesOf path).dropLast) = false := by
  have hsize : ("/".intercalate (namesOf path).dropLast).utf8ByteSize ≤ path.utf8ByteSize := by
    conv_rhs => rw [h.eq_intercalate, ← Node.after_empty_eq h.name_ne_empty,
      ← List.dropLast_append_getLast h.namesOf_ne_nil, Node.after_append]
    rw [← Node.after_empty_eq fun name hname => h.name_ne_empty name
      (List.dropLast_subset _ hname)]
    exact Node.utf8ByteSize_le_after ..
  have hpath := hfits.1
  simp only [isTooLong, decide_eq_false_iff_not, Nat.not_lt] at hpath ⊢
  omega

end IsCanonical

/-! ### Directories -/

namespace IsListable

theorem after_namesOf (h : IsListable dir) : after "" (namesOf dir) = dir := by
  rcases h with rfl | h
  · decide
  · rw [Node.after_empty_eq h.name_ne_empty, ← h.eq_intercalate]

/-- A path that goes on from a directory. -/
theorem eq_after (hdir : IsListable dir) (h : IsListable path)
    (hnames : namesOf path = namesOf dir ++ rest) : path = after dir rest := by
  rw [← h.after_namesOf, hnames, Node.after_append, hdir.after_namesOf]

/-- A path lies below a directory if its names go on from those of the directory. -/
theorem isBelow_iff (hdir : IsListable dir) (h : IsCanonical path) :
    Source.isBelow dir path ↔ ∃ rest, rest ≠ [] ∧ namesOf path = namesOf dir ++ rest := by
  rcases hdir with rfl | hdir
  · exact iff_of_true rfl ⟨namesOf path, h.namesOf_ne_nil, rfl⟩
  constructor
  · intro hbelow
    rw [Source.isBelow, hdir.trimSlashes_eq, Bool.or_eq_true, List.isPrefixOf_iff_prefix] at hbelow
    obtain ⟨cs, hcs⟩ := hbelow.resolve_left (by simpa using hdir.ne_empty)
    have hpath : path = dir ++ "/" ++ String.ofList cs := by
      rw [← String.toList_inj]
      simp [← hcs]
    refine ⟨_, namesOf_ne_nil (hpath ▸ h.ofPath?_eq) rfl, ?_⟩
    rw [hpath, namesOf_append_slash]
  · rintro ⟨rest, hrest, hnames⟩
    obtain ⟨name, rest, rfl⟩ := List.exists_cons_of_ne_nil hrest
    refine Source.isBelow_of_prefix ?_
    rw [eq_after (Or.inr hdir) (Or.inr h) hnames, Node.after_eq_intercalate hdir.ne_empty,
      String.intercalate_cons_cons, String.toList_append, String.toList_append]
    exact List.prefix_append ..

/-- What lies above a path that fits is not too long. -/
theorem fits_of_append (hdir : IsListable dir) (h : IsCanonical path) (hfits : Fits path)
    (hnames : namesOf path = namesOf dir ++ rest) : Fits dir := by
  constructor
  · have hsize := Node.utf8ByteSize_le_after dir rest
    rw [← hdir.eq_after (Or.inr h) hnames] at hsize
    have hpath := hfits.1
    simp only [isTooLong, decide_eq_false_iff_not, Nat.not_lt] at hpath ⊢
    omega
  · intro name hname
    exact hfits.2 name (hnames ▸ List.mem_append_left _ hname)

end IsListable

end Directory

end ContentIndex
