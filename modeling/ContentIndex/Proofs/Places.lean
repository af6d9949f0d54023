import ContentIndex.Proofs.Documents
import ContentIndex.Source.Directory

/-!
# Paths into a tree of directories

A path leads through names, which are its parts without empty ones and without dots, so several
paths lead to one file. A listing has each file below its directory once, under a path of its own:
the names below the directory come after the directory as it is written, and backslashes have become
slashes.

## Main definitions

* `Directory.namesOf`: the names of a path
* `Directory.Node.Has`, `Directory.Node.files`: the files of a tree
* `Directory.Lists`: the files below a directory, with the paths under which they are listed
* `Directory.listedAs`: the path under which the listing has the file that a path leads to

## Main results

* `Directory.Node.mem_paths_iff`: the paths of a tree are those of its files
* `Directory.zeroFree_of_get`: no file is found at a path with a zero
* `Directory.exists_list_of_get`: **a file that is found is listed, under its own path**
-/

namespace ContentIndex

namespace Directory

open Text (ZeroFree)

/-! ### Names -/

/-- The parts of a path that are not empty. -/
def written (path : String) : List (List Char) := (parts path).filter (· ≠ [])

/-- The names of a path: its parts, without empty ones and without dots. -/
def namesOf (path : String) : List String := ((written path).filter (· ≠ ['.'])).map String.ofList

theorem parts_append_slash (dir rest : String) :
    parts (dir ++ "/" ++ rest) = parts dir ++ parts rest := by
  simp [parts, List.splitOn_append_cons_self]

theorem written_append_slash (dir rest : String) :
    written (dir ++ "/" ++ rest) = written dir ++ written rest := by
  rw [written, parts_append_slash, List.filter_append, written, written]

theorem namesOf_append_slash (dir rest : String) :
    namesOf (dir ++ "/" ++ rest) = namesOf dir ++ namesOf rest := by
  rw [namesOf, written_append_slash, List.filter_append, List.map_append, namesOf, namesOf]

theorem mem_written_iff {path : String} {part : List Char} (h : part ≠ []) :
    part ∈ written path ↔ part ∈ parts path := by
  simp [written, h]

/-- Slashes at the end of a path do not matter for what is written. -/
theorem written_append_slashes (dir : String) (n : Nat) :
    written (dir ++ String.ofList (List.replicate n '/')) = written dir := by
  induction n with
  | zero => simp
  | succ n ih =>
    have hsplit : dir ++ String.ofList (List.replicate (n + 1) '/') =
        dir ++ String.ofList (List.replicate n '/') ++ "/" ++ "" := by
      rw [List.replicate_succ']
      simp [String.ofList_append, String.append_assoc]
    rw [hsplit, written_append_slash, ih]
    simp [written, parts]

/-- A path leads inside the root if it is not empty, begins with no slash and does not go up. -/
theorem ofPath?_isSome_iff {path : String} : (Place.ofPath? path).isSome ↔
    path ≠ "" ∧ path.toList.head? ≠ some '/' ∧ ['.', '.'] ∉ parts path := by
  rw [Place.ofPath?]
  split
  · next h =>
    simp only [Bool.or_eq_true, String.isEmpty_iff, decide_eq_true_eq, List.contains_iff_mem] at h
    simp only [Option.isSome_none, Bool.false_eq_true, false_iff]
    tauto
  · next h =>
    simp only [Bool.or_eq_true, String.isEmpty_iff, decide_eq_true_eq, List.contains_iff_mem,
      not_or] at h
    simpa [and_assoc] using h

theorem names_of_ofPath? {path : String} {place : Place} (h : Place.ofPath? path = some place) :
    place.names = namesOf path := by
  rw [Place.ofPath?] at h
  split at h
  · cases h
  · cases h
    rfl

/-- A path that can lead to a file ends in a name. -/
theorem namesOf_ne_nil {dir rest : String} {place : Place}
    (h : Place.ofPath? (dir ++ "/" ++ rest) = some place) (hfile : place.isDirectory = false) :
    namesOf rest ≠ [] := by
  obtain ⟨front, last, hlast⟩ : ∃ front last, parts rest = front ++ [last] :=
    ⟨_, _, (List.dropLast_append_getLast (List.splitOn_ne_nil '/' rest.toList)).symm⟩
  have hparts : parts (dir ++ "/" ++ rest) = parts dir ++ front ++ [last] := by
    rw [List.append_assoc, ← hlast, parts_append_slash]
  have hending : place.ending = .name := by simpa [Place.isDirectory] using hfile
  rw [Place.ofPath?] at h
  split at h
  · cases h
  cases h
  simp only [hparts] at hending
  split at hending
  · cases hending
  · next hdot =>
    split at hending
    · cases hending
    · next hslash =>
      have hempty : last ≠ [] := by simpa using hslash
      have hname : last ≠ ['.'] := by simpa [hempty] using hdot
      refine List.ne_nil_of_mem (a := String.ofList last) (List.mem_map_of_mem ?_)
      simp [written, hlast, hempty, hname]

/-! ### Files of trees -/

namespace Node

/-- The tree has a file at the end of the names. -/
inductive Has : Node → List String → Prop
  /-- A file. -/
  | file (content : Bytes) : Has (.file content) []
  /-- A file in an entry of a directory. -/
  | entry {entries : List (String × Node)} {name : String} {n : Node} {names : List String}
    (hmem : (name, n) ∈ entries) (h : n.Has names) : Has (.directory entries) (name :: names)

/-- The path after a start that leads on through names. -/
def after (start : String) (names : List String) : String :=
  names.foldl (fun start name => if start.isEmpty then name else start ++ "/" ++ name) start

theorem has_directory_iff {entries : List (String × Node)} {names : List String} :
    (directory entries).Has names ↔
      ∃ name n rest, (name, n) ∈ entries ∧ n.Has rest ∧ names = name :: rest := by
  constructor
  · rintro ⟨⟩
    exact ⟨_, _, _, ‹_›, ‹_›, rfl⟩
  · rintro ⟨name, n, rest, hmem, h, rfl⟩
    exact .entry hmem h

mutual

/-- The names that lead to the files of a tree. -/
def files : Node → List (List String)
  | .file _ => [[]]
  | .directory entries => entryFiles entries

/-- The names that lead to the files in the entries of a directory. -/
def entryFiles : List (String × Node) → List (List String)
  | [] => []
  | (name, n) :: entries => n.files.map (name :: ·) ++ entryFiles entries

end

mutual

theorem mem_files_iff {names : List String} : ∀ n : Node, names ∈ n.files ↔ n.Has names
  | .file b => by
    rw [files, List.mem_singleton]
    constructor
    · rintro rfl
      exact .file b
    · rintro ⟨⟩
      rfl
  | .directory entries => by
    rw [files, mem_entryFiles_iff entries, has_directory_iff]

theorem mem_entryFiles_iff {names : List String} : ∀ entries : List (String × Node),
    names ∈ entryFiles entries ↔
      ∃ name n rest, (name, n) ∈ entries ∧ n.Has rest ∧ names = name :: rest
  | [] => by simp [entryFiles]
  | (name, n) :: entries => by
    rw [entryFiles, List.mem_append, mem_entryFiles_iff entries, List.mem_map]
    constructor
    · rintro (⟨rest, hrest, rfl⟩ | ⟨name', n', rest, hmem, hrest, rfl⟩)
      · exact ⟨name, n, rest, List.mem_cons_self .., (mem_files_iff n).mp hrest, rfl⟩
      · exact ⟨name', n', rest, List.mem_cons_of_mem _ hmem, hrest, rfl⟩
    · rintro ⟨name', n', rest, hmem, hrest, rfl⟩
      rcases List.mem_cons.mp hmem with heq | hmem
      · cases heq
        exact Or.inl ⟨rest, (mem_files_iff n).mpr hrest, rfl⟩
      · exact Or.inr ⟨name', n', rest, hmem, hrest, rfl⟩

end

mutual

/-- Each file has one path. -/
theorem paths_eq (start : String) : ∀ n : Node, n.paths start = n.files.map (after start)
  | .file b => rfl
  | .directory entries => by rw [paths, files, entryPaths_eq start entries]

theorem entryPaths_eq (start : String) : ∀ entries : List (String × Node),
    entryPaths start entries = (entryFiles entries).map (after start)
  | [] => rfl
  | (name, n) :: entries => by
    rw [entryPaths, entryFiles, List.map_append, List.map_map, paths_eq _ n,
      entryPaths_eq start entries]
    rfl

end

/-- **The paths of a tree are those of its files.** -/
theorem mem_paths_iff {start path : String} (n : Node) :
    path ∈ n.paths start ↔ ∃ names, n.Has names ∧ path = after start names := by
  rw [paths_eq, List.mem_map]
  simp only [mem_files_iff, eq_comm (a := path)]

theorem follow_append (first rest : List String) (n : Node) :
    n.follow (first ++ rest) = match n.follow first with
      | .node m => m.follow rest
      | .missing => .missing
      | .blocked => .blocked := by
  induction first generalizing n with
  | nil => rfl
  | cons name first ih =>
    cases n with
    | file b => rfl
    | directory entries =>
      rw [List.cons_append, follow, follow]
      split
      · rfl
      · cases Entries.find? name entries with
        | none => rfl
        | some m => exact ih m

theorem mem_of_find? {entries : List (String × Node)} {name : String} {n : Node}
    (h : Entries.find? name entries = some n) : (name, n) ∈ entries := by
  induction entries with
  | nil => cases h
  | cons x entries ih =>
    rw [Entries.find?] at h
    split at h
    · next heq =>
      obtain rfl := Option.some.inj h
      exact heq ▸ List.mem_cons_self ..
    · exact List.mem_cons_of_mem _ (ih h)

/-- What is found behind a name is found in an entry of a directory. -/
theorem exists_of_follow_cons {name : String} {names : List String} {n m : Node}
    (h : n.follow (name :: names) = .node m) : ∃ entries inner, n = .directory entries ∧
      Entries.find? name entries = some inner ∧ inner.follow names = .node m := by
  cases n with
  | file b => cases h
  | directory entries =>
    rw [follow] at h
    split at h
    · cases h
    · cases hfind : Entries.find? name entries with
      | none =>
        rw [hfind] at h
        cases h
      | some inner =>
        rw [hfind] at h
        exact ⟨entries, inner, rfl, hfind, h⟩

/-- A file that is found is in the tree. -/
theorem has_of_follow {names : List String} {b : Bytes} {n : Node}
    (h : n.follow names = .node (.file b)) : n.Has names := by
  induction names generalizing n with
  | nil =>
    cases h
    exact .file b
  | cons name names ih =>
    obtain ⟨entries, inner, rfl, hfind, hinner⟩ := exists_of_follow_cons h
    exact .entry (mem_of_find? hfind) (ih hinner)

end Node

/-! ### Listings -/

/-- A path as a listing shows it. -/
def slashed (path : String) : String := path.map fun c => if c = '\\' then '/' else c

/-- Below the directory, a file is listed under the path. -/
def Lists (d : Directory) (dir path : String) (names : List String) : Prop :=
  ∃ n, d.root.find (namesOf dir) = .node n ∧ n.Has names ∧
    path = slashed (Node.after (listingStart dir) names)

/-- The path under which the listing of a directory has the file that a path leads to. -/
def listedAs (dir path : String) : String :=
  slashed (Node.after (listingStart dir) ((namesOf path).drop (namesOf dir).length))

variable {d : Directory} {dir rest path : String} {b : Bytes}

/-- What is found at a path. -/
theorem exists_place_of_get (h : d.get path = .ok b) : ∃ place, Place.ofPath? path = some place ∧
    place.isDirectory = false ∧ isTooLong path = false ∧
      d.root.find (namesOf path) = .node (.file b) := by
  unfold get at h
  cases hplace : Place.ofPath? path with
  | none =>
    rw [hplace] at h
    cases h
  | some place =>
    rw [hplace] at h
    simp only [names_of_ofPath? hplace] at h
    split at h
    · cases h
    · next hlong =>
      split at h
      · next hfile =>
        split at h
        · cases h
        · next hdirectory =>
          cases h
          exact ⟨place, rfl, by simpa using hdirectory, by simpa using hlong, hfile⟩
      all_goals cases h

/-- What is not a slash is in a part. -/
theorem exists_mem_splitOn {c : Char} (hc : c ≠ '/') {cs : List Char} (h : c ∈ cs) :
    ∃ part ∈ cs.splitOn '/', c ∈ part := by
  induction cs with
  | nil => cases h
  | cons x cs ih =>
    obtain ⟨first, others, hsplit⟩ := List.exists_cons_of_ne_nil (List.splitOn_ne_nil '/' cs)
    rw [List.splitOn_cons_eq_if_modifyHead, hsplit]
    rw [hsplit] at ih
    rcases List.mem_cons.mp h with rfl | h
    · simp [hc]
    · obtain ⟨part, hpart, hmem⟩ := ih h
      split
      · exact ⟨part, List.mem_cons_of_mem _ hpart, hmem⟩
      · rcases List.mem_cons.mp hpart with rfl | hpart
        · exact ⟨x :: part, List.mem_cons_self .., List.mem_cons_of_mem _ hmem⟩
        · exact ⟨part, List.mem_cons_of_mem _ hpart, hmem⟩

/-- **No file is found at a path with a zero.** -/
theorem zeroFree_of_get (h : d.get path = .ok b) : ZeroFree path := by
  obtain ⟨place, -, -, -, hfind⟩ := exists_place_of_get h
  intro hzero
  obtain ⟨part, hpart, hmem⟩ := exists_mem_splitOn (by decide) hzero
  have hempty : part ≠ [] := List.ne_nil_of_mem hmem
  have hname : part ≠ ['.'] := by
    rintro rfl
    simp at hmem
  have hnames : String.ofList part ∈ namesOf path := by
    refine List.mem_map_of_mem (List.mem_filter.mpr ⟨(mem_written_iff hempty).mpr hpart, ?_⟩)
    simpa using hname
  have hblocked : (namesOf path).any hasZero = true := by
    rw [List.any_eq_true]
    exact ⟨_, hnames, by simpa [hasZero] using hmem⟩
  rw [Node.find, if_pos hblocked] at hfind
  cases hfind

/-- The directory without slashes around it, where it has none in front. -/
theorem exists_eq_trimmed (hhead : dir.toList.head? ≠ some '/') :
    ∃ n, dir = String.ofList (Source.trimSlashes (dir.toList.dropWhile (· = '/'))) ++
      String.ofList (List.replicate n '/') := by
  have hdrop : dir.toList.dropWhile (· = '/') = dir.toList := by
    cases hcs : dir.toList with
    | nil => rfl
    | cons c cs =>
      have hc : c ≠ '/' := by simpa [hcs] using hhead
      simp [hc]
  obtain ⟨n, hn⟩ := Source.exists_eq_trimSlashes_append dir.toList
  refine ⟨n, ?_⟩
  rw [hdrop, ← String.ofList_append, ← hn, String.ofList_toList]

/-- Below the directory of a path that leads inside the root, listings have its files. -/
theorem list_eq_of_find {entries : List (String × Node)}
    (hplace : (Place.ofPath? (dir ++ "/" ++ rest)).isSome)
    (hlong : isTooLong (dir ++ "/" ++ rest) = false)
    (hfind : d.root.find (namesOf dir) = .node (.directory entries)) :
    d.list dir = .ok ((((Node.directory entries).paths (listingStart dir)).map slashed).mergeSort) := by
  obtain ⟨-, hhead, hup⟩ := ofPath?_isSome_iff.mp hplace
  have hne : dir ≠ "" := by
    rintro rfl
    simp at hhead
  have hhead' : dir.toList.head? ≠ some '/' := by
    obtain ⟨c, cs, hcs⟩ := List.exists_cons_of_ne_nil (mt String.toList_eq_nil_iff.mp hne)
    simpa [hcs] using hhead
  obtain ⟨n, hn⟩ := exists_eq_trimmed hhead'
  generalize htrimmed :
    String.ofList (Source.trimSlashes (dir.toList.dropWhile (· = '/'))) = trimmed at hn
  -- the directory is written with the same parts
  have hwritten : written trimmed = written dir := by
    rw [hn, written_append_slashes]
  have hnonempty : trimmed ≠ "" := by
    rintro rfl
    rw [hn] at hne hhead'
    cases n with
    | zero => simp at hne
    | succ n => simp [List.replicate_succ] at hhead'
  have hinside : (Place.ofPath? trimmed).isSome := by
    refine ofPath?_isSome_iff.mpr ⟨hnonempty, fun hslash => hhead' ?_, fun hmem => hup ?_⟩
    · rw [hn, String.toList_append, List.head?_append, hslash]
      rfl
    · rw [← mem_written_iff (by decide), hwritten, mem_written_iff (by decide)] at hmem
      rw [parts_append_slash]
      exact List.mem_append_left _ hmem
  have hshort : isTooLong trimmed = false := by
    simp only [isTooLong, decide_eq_false_iff_not, Nat.not_lt] at hlong ⊢
    rw [hn] at hlong
    simp only [String.utf8ByteSize_append] at hlong
    omega
  obtain ⟨place, hplace⟩ := Option.isSome_iff_exists.mp hinside
  have hnames : place.names = namesOf dir := by
    rw [names_of_ofPath? hplace, namesOf, namesOf, hwritten]
  have hstart : listingStart trimmed = listingStart dir := by
    show "/".intercalate (((written trimmed).dropWhile _).map _) = _
    rw [hwritten]
    rfl
  rw [list, htrimmed]
  simp only [String.isEmpty_eq_false_iff.mpr hnonempty, hplace, hshort, hnames, hfind, hstart,
    Bool.false_eq_true, if_false]
  rfl

/-- **A file that is found is listed, under its own path.** -/
theorem exists_list_of_get (h : d.get (dir ++ "/" ++ rest) = .ok b) :
    ∃ listed, d.list dir = .ok listed ∧ listedAs dir (dir ++ "/" ++ rest) ∈ listed ∧
      ∀ path, path ∈ listed ↔ ∃ names, d.Lists dir path names := by
  obtain ⟨place, hplace, hfile, hlong, hfind⟩ := exists_place_of_get h
  -- the directory is on the way to the file
  obtain ⟨n, hdirectory, hrest⟩ : ∃ n, d.root.find (namesOf dir) = .node n ∧
      n.follow (namesOf rest) = .node (.file b) := by
    rw [namesOf_append_slash, Node.find, List.any_append] at hfind
    split at hfind
    · cases hfind
    · next hzero =>
      rw [Bool.or_eq_true, not_or] at hzero
      rw [Node.find, if_neg hzero.1]
      rw [Node.follow_append] at hfind
      cases hn : d.root.follow (namesOf dir) with
      | node n =>
        rw [hn] at hfind
        exact ⟨n, rfl, hfind⟩
      | missing =>
        rw [hn] at hfind
        cases hfind
      | blocked =>
        rw [hn] at hfind
        cases hfind
  obtain ⟨entries, rfl⟩ : ∃ entries, n = .directory entries := by
    cases n with
    | file b =>
      obtain ⟨name, names, hnames⟩ := List.exists_cons_of_ne_nil (namesOf_ne_nil hplace hfile)
      rw [hnames] at hrest
      cases hrest
    | directory entries => exact ⟨entries, rfl⟩
  have hlists (path : String) :
      path ∈ (((Node.directory entries).paths (listingStart dir)).map slashed).mergeSort ↔
        ∃ names, d.Lists dir path names := by
    rw [List.mem_mergeSort, List.mem_map]
    constructor
    · rintro ⟨p, hp, rfl⟩
      obtain ⟨names, hnames, rfl⟩ := (Node.mem_paths_iff _).mp hp
      exact ⟨names, _, hdirectory, hnames, rfl⟩
    · rintro ⟨names, n, hn, hnames, rfl⟩
      cases hdirectory.symm.trans hn
      exact ⟨_, (Node.mem_paths_iff _).mpr ⟨names, hnames, rfl⟩, rfl⟩
  refine ⟨_, list_eq_of_find (Option.isSome_of_eq_some hplace) hlong hdirectory, ?_, hlists⟩
  refine (hlists _).mpr ⟨namesOf rest, _, hdirectory, Node.has_of_follow hrest, ?_⟩
  rw [listedAs, namesOf_append_slash, List.drop_left]

end Directory

end ContentIndex
