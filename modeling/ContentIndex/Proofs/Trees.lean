import ContentIndex.Proofs.MapEntries
import ContentIndex.Proofs.Places

/-!
# Files in trees

A tree of directories is a map from names to contents. Putting a file changes what is at its names
and nothing else, as long as no file is in the way and no directory in its place, and so does
removing one. Directories come with the files that are put below them, and no others come.

## Main definitions

* `Directory.Node.content?`: the content of the file at the end of the names
* `Directory.Node.HasDirectory`: there is a directory at the end of the names
* `Directory.Node.Ordered`: in each directory the entries are in order
* `Directory.Node.Free`: a file can be put at the end of the names

## Main results

* `Directory.Node.content?_put`, `Directory.Node.content?_remove`: **a change is seen at its names,
  and nowhere else**
* `Directory.Node.of_hasDirectory_put`, `Directory.Node.of_hasDirectory_remove`: the directories
  after a change
* `Directory.Node.mem_files_iff_content?`, `Directory.Node.nodup_files`: each file is found once
-/

namespace ContentIndex

namespace Directory

namespace Node

variable {name : String} {names front rest : List String} {content b : Bytes} {n m : Node}
  {entries : List (String × Node)}

/-! ### What is at the end of names -/

/-- The content of the file at the end of the names. -/
def content? : List String → Node → Option Bytes
  | [], .file b => some b
  | [], .directory _ => none
  | _ :: _, .file _ => none
  | name :: names, .directory entries => (Entries.find? name entries).bind (content? names)

/-- There is a directory at the end of the names. -/
def HasDirectory : List String → Node → Prop
  | [], .directory _ => True
  | _, .file _ => False
  | name :: names, .directory entries =>
    ∃ n, Entries.find? name entries = some n ∧ n.HasDirectory names

/-- In each directory, the entries are in order. -/
inductive Ordered : Node → Prop
  /-- A file. -/
  | file (b : Bytes) : Ordered (.file b)
  /-- A directory. -/
  | directory {entries : List (String × Node)} (sorted : Entries.Sorted entries)
    (inner : ∀ name n, (name, n) ∈ entries → n.Ordered) : Ordered (.directory entries)

@[simp] theorem content?_cons_file : (file b).content? (name :: names) = none := rfl

@[simp] theorem content?_cons_directory : (directory entries).content? (name :: names) =
    (Entries.find? name entries).bind (content? names) := rfl

@[simp] theorem content?_empty : (directory []).content? names = none := by
  cases names <;> rfl

theorem hasDirectory_empty_iff : (directory []).HasDirectory names ↔ names = [] := by
  cases names with
  | nil => simp [HasDirectory]
  | cons name names => simp [HasDirectory, Entries.find?]

theorem ordered_empty : (directory []).Ordered := .directory List.Pairwise.nil nofun

theorem Ordered.of_find? (h : (Node.directory entries).Ordered)
    (hn : Entries.find? name entries = some n) : n.Ordered := by
  cases h with
  | directory sorted inner => exact inner name n (mem_of_find? hn)

theorem Ordered.getD_find? (h : (Node.directory entries).Ordered) :
    ((Entries.find? name entries).getD (.directory [])).Ordered := by
  cases hn : Entries.find? name entries with
  | none => exact ordered_empty
  | some n => exact h.of_find? hn

theorem Ordered.insert (h : (Node.directory entries).Ordered) (hn : n.Ordered) :
    (Node.directory (Entries.insert name n entries)).Ordered := by
  cases h with
  | directory sorted inner =>
    refine .directory (Entries.sorted_insert name n sorted) fun name' n' hmem => ?_
    rcases Entries.mem_insert hmem with heq | hmem
    · cases heq
      exact hn
    · exact inner name' n' hmem

theorem Ordered.erase (h : (Node.directory entries).Ordered) :
    (Node.directory (Entries.erase name entries)).Ordered := by
  cases h with
  | directory sorted inner =>
    exact .directory (Entries.sorted_erase name sorted) fun name' n' hmem =>
      inner name' n' (Entries.mem_erase hmem)

/-- In an ordered tree, the files are those with a content. -/
theorem mem_files_iff_content? (h : n.Ordered) :
    names ∈ n.files ↔ (n.content? names).isSome := by
  rw [mem_files_iff]
  induction names generalizing n with
  | nil =>
    cases n with
    | file b => exact iff_of_true (.file b) rfl
    | directory entries => exact iff_of_false nofun nofun
  | cons name names ih =>
    cases h with
    | file b => exact iff_of_false nofun nofun
    | directory sorted inner =>
      rw [has_directory_iff, content?_cons_directory]
      constructor
      · rintro ⟨_, n, _, hmem, hn, ⟨⟩⟩
        rw [(Entries.find?_eq_some_iff sorted).mpr hmem]
        exact (ih (inner _ _ hmem)).mp hn
      · intro hsome
        obtain ⟨b, hb⟩ := Option.isSome_iff_exists.mp hsome
        obtain ⟨n, hfind, hn⟩ := Option.bind_eq_some_iff.mp hb
        have hmem := mem_of_find? hfind
        exact ⟨name, n, names, hmem, (ih (inner _ _ hmem)).mpr (Option.isSome_of_eq_some hn), rfl⟩

mutual

/-- In an ordered tree, no file is met twice. -/
theorem nodup_files : ∀ n : Node, n.Ordered → n.files.Nodup
  | .file _, _ => List.nodup_singleton _
  | .directory entries, h => by
    cases h with
    | directory sorted inner => exact nodup_entryFiles entries sorted inner

theorem nodup_entryFiles : ∀ entries : List (String × Node), Entries.Sorted entries →
    (∀ name n, (name, n) ∈ entries → n.Ordered) → (entryFiles entries).Nodup
  | [], _, _ => List.nodup_nil
  | (name, n) :: entries, hsorted, hinner => by
    obtain ⟨hfirst, hrest⟩ := List.pairwise_cons.mp hsorted
    have hn : (n.files.map (name :: ·)).Nodup :=
      (nodup_files n (hinner name n (List.mem_cons_self ..))).map (List.cons_injective)
    have hentries := nodup_entryFiles entries hrest fun name n hmem =>
      hinner name n (List.mem_cons_of_mem _ hmem)
    -- the names of other entries begin with other names
    refine hn.append hentries fun names hnames hmem => ?_
    obtain ⟨names, -, rfl⟩ := List.mem_map.mp hnames
    obtain ⟨_, n', _, hmem, -, ⟨⟩⟩ := (mem_entryFiles_iff entries).mp hmem
    exact Std.lt_irrefl (hfirst (name, n') hmem)

end

/-! ### Following names -/

theorem content?_append_of_follow (h : n.follow front = .node m) :
    n.content? (front ++ rest) = m.content? rest := by
  induction front generalizing n with
  | nil =>
    cases h
    rfl
  | cons name front ih =>
    obtain ⟨entries, inner, rfl, hfind, hinner⟩ := exists_of_follow_cons h
    rw [List.cons_append, content?_cons_directory, hfind]
    exact ih hinner

theorem Ordered.of_follow (h : n.Ordered) (hfollow : n.follow names = .node m) : m.Ordered := by
  induction names generalizing n with
  | nil =>
    cases hfollow
    exact h
  | cons name names ih =>
    obtain ⟨entries, inner, rfl, hfind, hinner⟩ := exists_of_follow_cons hfollow
    exact ih (h.of_find? hfind) hinner

/-- A file with usable names is found. -/
theorem follow_of_content? (hnames : ∀ name ∈ names, isUnusable name = false)
    (h : n.content? names = some b) : n.follow names = .node (.file b) := by
  induction names generalizing n with
  | nil =>
    cases n with
    | file b' =>
      cases h
      rfl
    | directory entries => cases h
  | cons name names ih =>
    cases n with
    | file b' => cases h
    | directory entries =>
      rw [content?_cons_directory] at h
      obtain ⟨n, hfind, hn⟩ := Option.bind_eq_some_iff.mp h
      rw [follow, if_neg (by simp [hnames name (List.mem_cons_self ..)]), hfind]
      exact ih (fun name hmem => hnames name (List.mem_cons_of_mem _ hmem)) hn

/-! ### Changes -/

/-- A file can be put at the end of the names: no file is on the way, and no directory is there. -/
inductive Free : List String → Node → Prop
  /-- In the directory. -/
  | here {name : String} {entries : List (String × Node)}
    (h : ∀ inner, Entries.find? name entries ≠ some (.directory inner)) :
    Free [name] (.directory entries)
  /-- Further below; a directory that is missing is empty. -/
  | inside {name next : String} {names : List String} {entries : List (String × Node)}
    (h : Free (next :: names) ((Entries.find? name entries).getD (.directory []))) :
    Free (name :: next :: names) (.directory entries)

theorem free_of (hne : names ≠ []) (hdirectory : ¬ n.HasDirectory names)
    (hclear : ∀ front rest, names = front ++ rest → rest ≠ [] → n.content? front = none) :
    Free names n := by
  induction names generalizing n with
  | nil => exact absurd rfl hne
  | cons name names ih =>
    cases n with
    | file b => cases hclear [] (name :: names) rfl hne
    | directory entries =>
      cases names with
      | nil =>
        refine .here fun inner hfind => hdirectory ⟨_, hfind, trivial⟩
      | cons next names =>
        refine .inside (ih (List.cons_ne_nil _ _) ?_ fun front rest heq hrest => ?_)
        · cases hfind : Entries.find? name entries with
          | none => simp [hasDirectory_empty_iff]
          | some m => exact fun hm => hdirectory ⟨m, hfind, hm⟩
        · have hfront := hclear (name :: front) rest (by rw [heq, List.cons_append]) hrest
          cases hfind : Entries.find? name entries with
          | none => exact content?_empty
          | some m => simpa [hfind] using hfront

/-- Where a file could be put and there is none, nothing is found. -/
theorem Free.follow_eq_missing (h : Free names n)
    (hnames : ∀ name ∈ names, isUnusable name = false) (hnone : n.content? names = none) :
    n.follow names = .missing := by
  induction h with
  | @here name entries h =>
    rw [follow, if_neg (by simp [hnames name (List.mem_cons_self ..)])]
    cases hfind : Entries.find? name entries with
    | none => rfl
    | some n =>
      cases n with
      | file b => simp [hfind, content?] at hnone
      | directory inner => exact absurd hfind (h inner)
  | @inside name next names entries h ih =>
    rw [follow, if_neg (by simp [hnames name (List.mem_cons_self ..)])]
    cases hfind : Entries.find? name entries with
    | none => rfl
    | some n =>
      rw [hfind] at ih
      rw [content?_cons_directory, hfind] at hnone
      exact ih (fun name hmem => hnames name (List.mem_cons_of_mem _ hmem)) hnone

/-- What is below a directory that may be missing. -/
theorem content?_getD_find? : ((Entries.find? name entries).getD (.directory [])).content? names =
    (Entries.find? name entries).bind (content? names) := by
  cases Entries.find? name entries with
  | none => exact content?_empty
  | some n => rfl

/-- A file that is put is there, and no other file has changed. -/
theorem content?_put (h : Free names n) (hnames : ∀ name ∈ names, isUnusable name = false)
    (others : List String) : (n.put content names).2 = true ∧
      (n.put content names).1.content? others =
        if others = names then some content else n.content? others := by
  induction h generalizing others with
  | @here name entries h =>
    have hput : (directory entries).put content [name] =
        (.directory (Entries.insert name (.file content) entries), true) := by
      rw [put, if_neg (by simp [hnames name (List.mem_cons_self ..)])]
      split
      · next inner hfind => exact absurd hfind (h inner)
      · rfl
    rw [hput]
    refine ⟨rfl, ?_⟩
    rcases others with _ | ⟨other, _ | ⟨next, others⟩⟩
    · rfl
    · by_cases heq : other = name <;> simp [Entries.find?_insert, heq, content?]
    · by_cases heq : other = name
      · subst heq
        -- a file has no files below it, and there was no directory
        cases hfind : Entries.find? other entries with
        | none => simp [Entries.find?_insert, hfind]
        | some n =>
          cases n with
          | file b => simp [Entries.find?_insert, hfind]
          | directory inner => exact absurd hfind (h inner)
      · simp [Entries.find?_insert, heq]
  | @inside name next names entries h ih =>
    replace ih := ih fun name hmem => hnames name (List.mem_cons_of_mem _ hmem)
    rw [put, if_neg (by simp [hnames name (List.mem_cons_self ..)])]
    refine ⟨(ih []).1, ?_⟩
    rcases others with _ | ⟨other, others⟩
    · rfl
    · by_cases heq : other = name
      · subst heq
        simp [Entries.find?_insert, (ih others).2, content?_getD_find?]
      · simp [Entries.find?_insert, heq]

theorem Ordered.put (h : n.Ordered) : (n.put content names).1.Ordered := by
  induction names generalizing n with
  | nil =>
    cases n with
    | file b => exact .file content
    | directory entries => exact h
  | cons name names ih =>
    cases n with
    | file b => cases names <;> exact h
    | directory entries =>
      cases names with
      | nil =>
        rw [Node.put]
        split
        · exact h
        · split
          · exact h
          · exact h.insert (.file content)
      | cons next names =>
        rw [Node.put]
        split
        · exact h
        · exact h.insert (ih h.getD_find?)

/-- A file that is put brings the directories on its way and no others. -/
theorem of_hasDirectory_put (h : Free names n) (hnames : ∀ name ∈ names, isUnusable name = false)
    (hdirectory : (n.put content names).1.HasDirectory front) :
    n.HasDirectory front ∨ ∃ rest, rest ≠ [] ∧ names = front ++ rest := by
  induction h generalizing front with
  | @here name entries h =>
    rcases front with _ | ⟨other, front⟩
    · exact Or.inl trivial
    · rw [put, if_neg (by simp [hnames name (List.mem_cons_self ..)])] at hdirectory
      split at hdirectory
      · next inner hfind => exact absurd hfind (h inner)
      · obtain ⟨m, hfind, hm⟩ := hdirectory
        rw [Entries.find?_insert] at hfind
        split at hfind
        · cases hfind
          cases front <;> cases hm
        · exact Or.inl ⟨m, hfind, hm⟩
  | @inside name next names entries h ih =>
    rcases front with _ | ⟨other, front⟩
    · exact Or.inl trivial
    · rw [put, if_neg (by simp [hnames name (List.mem_cons_self ..)])] at hdirectory
      obtain ⟨m, hfind, hm⟩ := hdirectory
      rw [Entries.find?_insert] at hfind
      split at hfind
      · next heq =>
        cases hfind
        subst heq
        rcases ih (fun name hmem => hnames name (List.mem_cons_of_mem _ hmem)) hm with
          hinner | ⟨rest, hrest, heq⟩
        · cases hfind : Entries.find? other entries with
          | none =>
            rw [hfind, Option.getD_none, hasDirectory_empty_iff] at hinner
            subst hinner
            exact Or.inr ⟨_, List.cons_ne_nil _ _, rfl⟩
          | some n =>
            rw [hfind] at hinner
            exact Or.inl ⟨n, hfind, hinner⟩
        · exact Or.inr ⟨rest, hrest, by rw [heq, List.cons_append]⟩
      · exact Or.inl ⟨m, hfind, hm⟩

/-- A file that is removed is gone, and no other file has changed. -/
theorem content?_remove (h : n.Ordered) (hne : names ≠ []) (hfile : n.content? names = some b)
    (others : List String) : (n.remove names).content? others =
      if others = names then none else n.content? others := by
  induction names generalizing n others with
  | nil => exact absurd rfl hne
  | cons name names ih =>
    cases h with
    | file b' => cases hfile
    | directory sorted inner =>
      rw [content?_cons_directory] at hfile
      obtain ⟨m, hfind, hm⟩ := Option.bind_eq_some_iff.mp hfile
      rcases names with _ | ⟨next, names⟩
      · rw [remove]
        rcases others with _ | ⟨other, others⟩
        · rfl
        · by_cases heq : other = name
          · subst heq
            -- the entry is a file, with nothing below it
            cases m with
            | directory entries => cases hm
            | file b' => cases others <;> simp [Entries.find?_erase _ _ sorted, hfind]
          · simp [Entries.find?_erase _ _ sorted, heq]
      · rw [remove, hfind]
        have hinner := ih (inner name m (mem_of_find? hfind)) (List.cons_ne_nil _ _) hm
        rcases others with _ | ⟨other, others⟩
        · rfl
        · by_cases heq : other = name
          · subst heq
            simp [Entries.find?_insert, hinner, hfind]
          · simp [Entries.find?_insert, heq]

theorem Ordered.remove (h : n.Ordered) : (n.remove names).Ordered := by
  induction names generalizing n with
  | nil =>
    cases n <;> exact h
  | cons name names ih =>
    cases n with
    | file b => cases names <;> exact h
    | directory entries =>
      cases names with
      | nil => exact h.erase
      | cons next names =>
        rw [Node.remove]
        cases hfind : Entries.find? name entries with
        | none => exact h
        | some m => exact h.insert (ih (h.of_find? hfind))

/-- Directories stay or go with what is removed, but none comes. -/
theorem of_hasDirectory_remove (h : n.Ordered) (hdirectory : (n.remove names).HasDirectory front) :
    n.HasDirectory front := by
  induction names generalizing n front with
  | nil => cases n <;> exact hdirectory
  | cons name names ih =>
    cases h with
    | file b => cases names <;> exact hdirectory
    | @directory entries sorted inner =>
      rcases front with _ | ⟨other, front⟩
      · exact trivial
      cases names with
      | nil =>
        obtain ⟨m, hfind, hm⟩ := hdirectory
        rw [Entries.find?_erase _ _ sorted] at hfind
        split at hfind
        · cases hfind
        · exact ⟨m, hfind, hm⟩
      | cons next names =>
        rw [remove] at hdirectory
        cases hfind : Entries.find? name entries with
        | none =>
          rw [hfind] at hdirectory
          exact hdirectory
        | some n =>
          rw [hfind] at hdirectory
          obtain ⟨m, hother, hm⟩ := hdirectory
          rw [Entries.find?_insert] at hother
          split at hother
          · next heq =>
            cases hother
            subst heq
            exact ⟨n, hfind, ih (inner _ n (mem_of_find? hfind)) hm⟩
          · exact ⟨m, hother, hm⟩

end Node

end Directory

end ContentIndex
