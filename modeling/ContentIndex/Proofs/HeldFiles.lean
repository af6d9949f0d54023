import ContentIndex.Proofs.CanonicalPaths

/-!
# A tree with the files of a map

A tree of directories holds the files of a map from paths to contents, as long as the paths are
canonical, fit the file system and none is a directory of another: a change of both keeps it so, a
document is read from the tree as from the map, and a listing of the tree is that of the map with
slashes for backslashes.

## Main definitions

* `Directory.Compatible`: paths that one tree can have all together
* `Directory.Holds`: the tree has the files of the map

## Main results

* `Directory.Holds.put`, `Directory.Holds.delete`: the tree has the files of the map after a change, too
* `Directory.Holds.get_eq`: a document is read from the tree as from the map
* `Directory.Holds.list_eq`: **a listing of the tree is that of the map, with slashes for backslashes**
-/

namespace ContentIndex

open Source (Files)

namespace Directory

open Node (after)

/-! ### Listings of a tree -/

/-- The paths of the files below a directory, as they are. -/
def listing (d : Directory) (dir : String) : List String :=
  if isTooLong dir then []
  else match d.root.find (namesOf dir) with
    | .node (.directory entries) => (Node.directory entries).paths dir
    | _ => []

theorem list_eq_listing (d : Directory) {dir : String} (h : IsListable dir) :
    d.list dir = .ok (((d.listing dir).map slashed).mergeSort) := by
  have hnil : ([] : List String) = (([] : List String).map slashed).mergeSort := by simp
  rcases h with rfl | h
  · have hnames : namesOf "" = [] := by decide
    rw [listing, if_neg (by decide), hnames, list]
    cases d.root with
    | file b => exact congrArg Except.ok hnil
    | directory entries => rfl
  · have htrimmed : String.ofList (Source.trimSlashes (dir.toList.dropWhile (· = '/'))) = dir := by
      rw [h.dropWhile_eq, h.trimSlashes_eq, String.ofList_toList]
    rw [list, htrimmed]
    simp only [String.isEmpty_eq_false_iff.mpr h.ne_empty, h.ofPath?_eq, Bool.false_eq_true, if_false,
      h.listingStart_eq, listing]
    split
    · exact congrArg Except.ok hnil
    · cases d.root.find (namesOf dir) with
      | node n =>
        cases n with
        | file b => exact congrArg Except.ok hnil
        | directory entries => rfl
      | missing => exact congrArg Except.ok hnil
      | blocked => exact congrArg Except.ok hnil

/-- A path is listed as it is if it has no backslash. -/
theorem slashed_eq_self_iff {path : String} : slashed path = path ↔ '\\' ∉ path.toList := by
  rw [slashed, ← String.toList_inj, String.toList_map]
  conv_lhs => rhs; rw [← List.map_id path.toList]
  rw [List.map_inj_left]
  constructor
  · intro h hmem
    simpa using h _ hmem
  · intro h c hc
    have hne : c ≠ '\\' := by
      rintro rfl
      exact h hc
    simp [hne]

theorem not_mem_slashed (path : String) : '\\' ∉ (slashed path).toList := by
  rw [slashed, String.toList_map, List.mem_map]
  rintro ⟨c, -, hc⟩
  split at hc
  · cases hc
  · next hne => exact hne hc

/-- A list in order is listed as it is if no path has a backslash. -/
theorem mergeSort_slashed_eq_iff {l : List String} (h : l.Pairwise (· ≤ ·)) :
    (l.map slashed).mergeSort = l ↔ ∀ path ∈ l, '\\' ∉ path.toList := by
  constructor
  · intro heq path hpath
    rw [← heq, List.mem_mergeSort, List.mem_map] at hpath
    obtain ⟨path, -, rfl⟩ := hpath
    exact not_mem_slashed path
  · intro hnone
    have hmap : l.map slashed = l := by
      conv_rhs => rw [← List.map_id l]
      exact List.map_congr_left fun path hpath => slashed_eq_self_iff.mpr (hnone path hpath)
    rw [hmap]
    exact List.mergeSort_of_pairwise (h.imp fun hle => decide_eq_true hle)

/-! ### Trees with the files of a map -/

/-- Paths that one tree can have all together: they are canonical and fit, and none is a directory
of another. -/
structure Compatible (used : List String) : Prop where
  /-- Each path is canonical. -/
  canonical : ∀ p ∈ used, IsCanonical p
  /-- Each path fits. -/
  fits : ∀ p ∈ used, Fits p
  /-- No path lies below another. -/
  apart : ∀ p ∈ used, ∀ q ∈ used, ¬ Source.isBelow p q

/-- The tree has the files of the map, all of them at paths that are used, and no directories but
those around such paths. -/
structure Holds (used : List String) (d : Directory) (fs : Files) : Prop where
  /-- The tree is in order. -/
  ordered : d.root.Ordered
  /-- A path leads to the content that the map has. -/
  content : ∀ p ∈ used, d.root.content? (namesOf p) = fs.get? p
  /-- The files are at used paths. -/
  file : ∀ names, (d.root.content? names).isSome → ∃ p ∈ used, namesOf p = names
  /-- The directories are around used paths. -/
  around : ∀ names, d.root.HasDirectory names →
    names = [] ∨ ∃ p ∈ used, ∃ rest, rest ≠ [] ∧ namesOf p = names ++ rest
  /-- The map has used paths only. -/
  key : ∀ p ∈ fs.keys, p ∈ used

variable {used : List String} {d : Directory} {fs : Files} {path dir : String} {content : Bytes}

theorem Compatible.namesOf_inj (hu : Compatible used) {p q : String} (hp : p ∈ used) (hq : q ∈ used)
    (h : namesOf p = namesOf q) : p = q := by
  have hp' : IsListable p := Or.inr (hu.canonical p hp)
  have hq' : IsListable q := Or.inr (hu.canonical q hq)
  rw [← hp'.after_namesOf, h, hq'.after_namesOf]

/-- The names of a used path do not go on from those of another. -/
theorem Compatible.not_append (hu : Compatible used) {p q : String} (hp : p ∈ used) (hq : q ∈ used)
    {rest : List String} (hrest : rest ≠ []) : namesOf q ≠ namesOf p ++ rest := fun h =>
  hu.apart p hp q hq
    ((IsListable.isBelow_iff (Or.inr (hu.canonical p hp)) (hu.canonical q hq)).mpr ⟨rest, hrest, h⟩)

theorem Compatible.usable (hu : Compatible used) (hp : path ∈ used) :
    ∀ name ∈ namesOf path, isUnusable name = false :=
  (hu.canonical path hp).isUnusable_eq_false (hu.fits path hp)

/-- At a used path, names are followed. -/
theorem Compatible.find_eq (hu : Compatible used) (hp : path ∈ used) (n : Node) :
    n.find (namesOf path) = n.follow (namesOf path) := by
  rw [Node.find, if_neg]
  simpa using (hu.canonical path hp).hasZero_eq_false

namespace Holds

/-- An empty tree has the files of the empty map. -/
theorem empty (used : List String) : Holds used {} ∅ where
  ordered := Node.ordered_empty
  content := fun p _ => Node.content?_empty
  file := fun names h => by simp at h
  around := fun names h => Or.inl (Node.hasDirectory_empty_iff.mp h)
  key := nofun

variable (h : Holds used d fs)

include h

/-- At a used path, a file can be put. -/
theorem free (hu : Compatible used) (hp : path ∈ used) : d.root.Free (namesOf path) := by
  refine Node.free_of (hu.canonical path hp).namesOf_ne_nil ?_ fun front rest hnames hrest => ?_
  · intro hdirectory
    rcases h.around _ hdirectory with hnil | ⟨q, hq, rest, hrest, hnames⟩
    · exact (hu.canonical path hp).namesOf_ne_nil hnil
    · exact hu.not_append hp hq hrest hnames
  · by_contra hfile
    obtain ⟨q, hq, rfl⟩ := h.file front (Option.ne_none_iff_isSome.mp hfile)
    exact hu.not_append hq hp hrest hnames

theorem get_eq (hu : Compatible used) (hp : path ∈ used) : d.get path = fs.get path := by
  have hcontent := h.content path hp
  rw [get, (hu.canonical path hp).ofPath?_eq]
  simp only [(hu.fits path hp).1, hu.find_eq hp, Bool.false_eq_true, if_false, Files.get]
  cases hget : fs.get? path with
  | none =>
    rw [hget] at hcontent
    rw [(h.free hu hp).follow_eq_missing (hu.usable hp) hcontent]
  | some b =>
    rw [hget] at hcontent
    rw [Node.follow_of_content? (hu.usable hp) hcontent]
    rfl

/-- A document is put into the tree as into the map. -/
theorem put (hu : Compatible used) (hp : path ∈ used) (content : Bytes) :
    ∃ d', d.put path content = (d', .ok ()) ∧ Holds used d' (fs.insert path content) := by
  have hcanonical := hu.canonical path hp
  have hfree := h.free hu hp
  have hput (names : List String) : (d.root.put content (namesOf path)).2 = true ∧
      (d.root.put content (namesOf path)).1.content? names =
        if names = namesOf path then some content else d.root.content? names :=
    Node.content?_put hfree (hu.usable hp) names
  refine ⟨⟨(d.root.put content (namesOf path)).1⟩, ?_, ?_⟩
  · have hzero : (namesOf path).dropLast.any hasZero = false := by
      rw [List.any_eq_false]
      intro name hname
      simpa using hcanonical.hasZero_eq_false name (List.dropLast_subset _ hname)
    simp only [Directory.put, hcanonical.ofPath?_eq, hzero, (hu.fits path hp).1,
      hcanonical.isTooLong_dropLast (hu.fits path hp), Place.isDirectory, (hput []).1]
    rfl
  refine ⟨h.ordered.put, fun p hp' => ?_, fun names hfile => ?_, fun names hdirectory => ?_,
    fun p hkey => ?_⟩
  · rw [(hput _).2, OrderedMap.get?_insert, ← h.content p hp']
    by_cases heq : p = path
    · simp [heq]
    · have hnames : namesOf p ≠ namesOf path := fun hnames => heq (hu.namesOf_inj hp' hp hnames)
      simp [heq, hnames]
  · rw [(hput names).2] at hfile
    split at hfile
    · next heq => exact ⟨path, hp, heq.symm⟩
    · exact h.file names hfile
  · rcases Node.of_hasDirectory_put hfree (hu.usable hp) hdirectory with hold | ⟨rest, hrest, heq⟩
    · exact h.around names hold
    · exact Or.inr ⟨path, hp, rest, hrest, heq⟩
  · obtain ⟨b, hb⟩ := Files.exists_get?_of_mem hkey
    rw [OrderedMap.get?_insert] at hb
    split at hb
    · next heq => exact heq ▸ hp
    · exact h.key p (Files.mem_keys_of_get? hb)

/-- A document is deleted from the tree as from the map, and need not be there. -/
theorem delete (hu : Compatible used) (hp : path ∈ used) :
    ∃ d', d.delete path = (d', .ok ()) ∧ Holds used d' (fs.erase path) := by
  have hcontent := h.content path hp
  have hplace := (hu.canonical path hp).ofPath?_eq
  have hshort := (hu.fits path hp).1
  cases hget : fs.get? path with
  | none =>
    rw [hget] at hcontent
    have hsame : fs.erase path = fs := OrderedMap.ext (Entries.erase_of_find?_eq_none hget)
    have hmissing := (h.free hu hp).follow_eq_missing (hu.usable hp) hcontent
    rw [hsame]
    refine ⟨d, ?_, h⟩
    simp only [Directory.delete, hplace, hshort, hu.find_eq hp, hmissing]
    rfl
  | some b =>
    rw [hget] at hcontent
    have hremove := Node.content?_remove h.ordered (hu.canonical path hp).namesOf_ne_nil hcontent
    have hfile := Node.follow_of_content? (hu.usable hp) hcontent
    have hdelete : d.delete path = (⟨d.root.remove (namesOf path)⟩, .ok ()) := by
      simp only [Directory.delete, hplace, hshort, hu.find_eq hp, hfile]
      rfl
    refine ⟨_, hdelete, h.ordered.remove, fun p hp' => ?_, fun names hfile => ?_,
      fun names hdirectory => h.around names (Node.of_hasDirectory_remove h.ordered hdirectory),
      fun p hkey => ?_⟩
    · rw [hremove, OrderedMap.get?_erase, ← h.content p hp']
      by_cases heq : p = path
      · simp [heq]
      · have hnames : namesOf p ≠ namesOf path := fun hnames => heq (hu.namesOf_inj hp' hp hnames)
        simp [heq, hnames]
    · rw [hremove] at hfile
      split at hfile
      · cases hfile
      · exact h.file names hfile
    · obtain ⟨b, hb⟩ := Files.exists_get?_of_mem hkey
      rw [OrderedMap.get?_erase] at hb
      split at hb
      · cases hb
      · exact h.key p (Files.mem_keys_of_get? hb)

/-- A file below a directory of the tree is a document of the map. -/
theorem exists_key_of_mem_files (hu : Compatible used) (hdir : IsListable dir) {n : Node}
    (hfollow : d.root.follow (namesOf dir) = .node n) {names : List String} (hnames : names ∈ n.files) :
    ∃ q ∈ fs.keys, namesOf q = namesOf dir ++ names ∧ q = after dir names := by
  have hcontent : (d.root.content? (namesOf dir ++ names)).isSome := by
    rw [Node.content?_append_of_follow hfollow]
    exact (Node.mem_files_iff_content? (h.ordered.of_follow hfollow)).mp hnames
  obtain ⟨q, hq, hqnames⟩ := h.file _ hcontent
  obtain ⟨b, hb⟩ := Option.isSome_iff_exists.mp hcontent
  have hget : fs.get? q = some b := by rw [← h.content q hq, hqnames, hb]
  exact ⟨q, Files.mem_keys_of_get? hget, hqnames,
    hdir.eq_after (Or.inr (hu.canonical q hq)) hqnames⟩

omit h in
/-- What is listed of the tree. -/
theorem listing_eq (d : Directory) (dir : String) : d.listing dir = [] ∨ ∃ entries,
    d.root.follow (namesOf dir) = .node (.directory entries) ∧
      d.listing dir = (Node.directory entries).files.map (after dir) := by
  rw [listing]
  split
  · exact Or.inl rfl
  · split
    · next entries hfind =>
      rw [Node.find] at hfind
      split at hfind
      · cases hfind
      · exact Or.inr ⟨entries, hfind, Node.paths_eq ..⟩
    · exact Or.inl rfl

/-- Below a directory, the tree has the files that the map has. -/
theorem mem_listing_iff (hu : Compatible used) (hdir : IsListable dir) :
    path ∈ d.listing dir ↔ path ∈ fs.list dir := by
  rw [Files.list, List.mem_filter]
  constructor
  · intro hmem
    rcases listing_eq d dir with hnil | ⟨entries, hfollow, hlisting⟩
    · simp [hnil] at hmem
    · rw [hlisting, List.mem_map] at hmem
      obtain ⟨names, hnames, rfl⟩ := hmem
      obtain ⟨q, hq, hqnames, rfl⟩ := h.exists_key_of_mem_files hu hdir hfollow hnames
      refine ⟨hq, (hdir.isBelow_iff (hu.canonical _ (h.key _ hq))).mpr ⟨names, ?_, hqnames⟩⟩
      rintro rfl
      rw [Node.mem_files_iff] at hnames
      cases hnames
  · rintro ⟨hkey, hbelow⟩
    have hp := h.key path hkey
    have hcanonical := hu.canonical path hp
    obtain ⟨rest, hrest, hnames⟩ := (hdir.isBelow_iff hcanonical).mp hbelow
    obtain ⟨b, hb⟩ := Files.exists_get?_of_mem hkey
    rw [← h.content path hp] at hb
    have hfollow := Node.follow_of_content? (hu.usable hp) hb
    have hzero : (namesOf dir).any hasZero = false := by
      rw [List.any_eq_false]
      intro name hname
      simpa using hcanonical.hasZero_eq_false name (hnames ▸ List.mem_append_left _ hname)
    -- the directory is on the way to the file
    rw [hnames, Node.follow_append] at hfollow
    split at hfollow
    · next n hn =>
      obtain ⟨name, rest, rfl⟩ := List.exists_cons_of_ne_nil hrest
      cases n with
      | file b => cases hfollow
      | directory entries =>
        rw [listing, (hdir.fits_of_append hcanonical (hu.fits path hp) hnames).1, Node.find, hzero]
        simp only [Bool.false_eq_true, if_false, hn, Node.paths_eq, List.mem_map]
        exact ⟨_, (Node.mem_files_iff _).mpr (Node.has_of_follow hfollow),
          (hdir.eq_after (Or.inr hcanonical) hnames).symm⟩
    all_goals cases hfollow

theorem nodup_listing (hu : Compatible used) (hdir : IsListable dir) : (d.listing dir).Nodup := by
  rcases listing_eq d dir with hnil | ⟨entries, hfollow, hlisting⟩
  · simp [hnil]
  · rw [hlisting]
    refine (Node.nodup_files _ (h.ordered.of_follow hfollow)).map_on fun names hnames names' hnames'
      heq => ?_
    obtain ⟨q, -, hq, hpath⟩ := h.exists_key_of_mem_files hu hdir hfollow hnames
    obtain ⟨q', -, hq', hpath'⟩ := h.exists_key_of_mem_files hu hdir hfollow hnames'
    obtain rfl : q = q' := by rw [hpath, hpath', heq]
    exact List.append_cancel_left (hq.symm.trans hq')

/-- **A listing of the tree is that of the map, with slashes for backslashes.** -/
theorem list_eq (hu : Compatible used) (hdir : IsListable dir) :
    d.list dir = .ok (((fs.list dir).map slashed).mergeSort) := by
  have hperm : (d.listing dir).Perm (fs.list dir) :=
    (List.perm_ext_iff_of_nodup (h.nodup_listing hu hdir) (fs.nodup_keys.filter _)).mpr
      fun path => h.mem_listing_iff hu hdir
  have hsorted (l : List String) : l.mergeSort.Pairwise (· ≤ ·) := by
    refine (List.pairwise_mergeSort (fun a b c hab hbc => ?_) (fun a b => ?_) l).imp of_decide_eq_true
    · exact decide_eq_true (Std.le_trans (of_decide_eq_true hab) (of_decide_eq_true hbc))
    · simpa using Std.le_total (a := a) (b := b)
  rw [d.list_eq_listing hdir]
  -- the same paths in order are the same list
  exact congrArg Except.ok <| List.Perm.eq_of_pairwise (fun _ _ _ _ => Std.le_antisymm)
    (hsorted _) (hsorted _)
    ((List.mergeSort_perm _ _).trans ((hperm.map slashed).trans (List.mergeSort_perm _ _).symm))

end Holds

end Directory

end ContentIndex
