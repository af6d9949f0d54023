import ContentIndex.Proofs.HeldFiles

/-!
# A tree and a map as sources

A tree of directories and a map from paths to contents are told the same calls, one after another. All
answers agree but for one thing: a listing of the tree shows backslashes in names as slashes, so that
it names paths at which there is no document.

## Main definitions

* `Source.Call`, `Source.Answer`, `Source.run`: calls to a source one after another
* `Source.Regular`: calls with paths that one tree can have together, and canonical directories
* `Source.Together`: tree and map have the same files, and have answered alike

## Main results

* `Source.together_run`: calls keep tree and map together
* `Source.agrees_iff_not_hasBackslash`: **tree and map agree if and only if no listed path has a
  backslash**
* `Source.exists_respelt`: they do not always agree
-/

namespace ContentIndex

namespace Source

open Directory (Compatible Holds IsListable slashed)

/-! ### Calls -/

/-- A call to a source. -/
inductive Call
  | put (path : String) (content : Bytes)
  | delete (path : String)
  | get (path : String)
  | list (dir : String)

/-- The answer to a call. -/
inductive Answer
  /-- To a change. -/
  | changed (r : Except SourceError Unit)
  /-- To the question for a document. -/
  | content (r : Except SourceError Bytes)
  /-- To the question for the paths below a directory. -/
  | paths (r : Except SourceError (List String))

/-- The path of a document that a call uses. -/
def Call.path? : Call → Option String
  | .put path _ | .delete path | .get path => some path
  | .list _ => none

/-- The source after a call, and its answer. -/
def Call.run : Call → Source → Source × Answer
  | .put path content, s => ((s.put path content).1, .changed (s.put path content).2)
  | .delete path, s => ((s.delete path).1, .changed (s.delete path).2)
  | .get path, s => (s, .content (s.get path))
  | .list dir, s => (s, .paths (s.list dir))

/-- The source after calls one after another, and its answers. -/
def run : List Call → Source → Source × List Answer
  | [], s => (s, [])
  | c :: calls, s => ((run calls (c.run s).1).1, (c.run s).2 :: (run calls (c.run s).1).2)

/-- Calls with canonical paths and directories: the paths fit, and none is a directory of another. -/
structure Regular (calls : List Call) : Prop where
  /-- The paths of documents can be in one tree. -/
  compatible : Compatible (calls.filterMap Call.path?)
  /-- The directories are canonical. -/
  listable : ∀ dir, .list dir ∈ calls → IsListable dir

/-- The answers of a tree that is empty at first. -/
def toldByTree (calls : List Call) : Source × List Answer := run calls (.directory {})

/-- The answers of a map that is empty at first. -/
def toldByMap (calls : List Call) : Source × List Answer := run calls (.files ∅)

namespace Answer

/-- The source does what it is asked, or there is no document. -/
def Succeeds : Answer → Prop
  | .changed r => r = .ok ()
  | .content r => (∃ b, r = .ok b) ∨ ∃ path, r = .error (.notFound path)
  | .paths r => ∃ l, r = .ok l

/-- A path with a backslash is listed. -/
def HasBackslash : Answer → Prop
  | .paths (.ok l) => ∃ path ∈ l, '\\' ∈ path.toList
  | _ => False

/-- The answer with slashes for the backslashes of listed paths. -/
def respelt : Answer → Answer
  | .paths (.ok l) => .paths (.ok ((l.map slashed).mergeSort))
  | a => a

/-- The answer has its paths in order. -/
def InOrder : Answer → Prop
  | .paths (.ok l) => l.Pairwise (· ≤ ·)
  | _ => True

theorem respelt_eq_iff {a : Answer} (h : a.InOrder) : a.respelt = a ↔ ¬ a.HasBackslash := by
  rcases a with r | r | (e | l)
  · exact iff_of_true rfl id
  · exact iff_of_true rfl id
  · exact iff_of_true rfl id
  · rw [respelt, Answer.paths.injEq, Except.ok.injEq, Directory.mergeSort_slashed_eq_iff h,
      HasBackslash]
    push Not
    rfl

theorem succeeds_respelt {a : Answer} (h : a.Succeeds) : a.respelt.Succeeds := by
  rcases a with r | r | (e | l)
  · exact h
  · exact h
  · exact h
  · exact ⟨_, rfl⟩

end Answer

/-! ### Tree and map, call after call -/

@[simp] theorem get_directory (path : String) (d : Directory) :
    (directory d).get path = d.get path := rfl

@[simp] theorem list_directory (dir : String) (d : Directory) :
    (directory d).list dir = d.list dir := rfl

/-- The paths of a map are listed in order. -/
theorem Files.pairwise_list (fs : Files) (dir : String) : (fs.list dir).Pairwise (· ≤ ·) := by
  refine List.Pairwise.sublist List.filter_sublist ?_
  rw [OrderedMap.keys, List.pairwise_map]
  exact fs.sorted.imp Std.le_of_lt

theorem Files.get_succeeds (fs : Files) (path : String) : (Answer.content (fs.get path)).Succeeds := by
  rw [Files.get]
  cases fs.get? path with
  | none => exact Or.inr ⟨path, rfl⟩
  | some b => exact Or.inl ⟨b, rfl⟩

/-- The two sources, and what they have answered. -/
structure Together (used : List String) (tree map : Source × List Answer) : Prop where
  /-- The tree has the files of the map. -/
  holds : ∃ d fs, tree.1 = .directory d ∧ map.1 = .files fs ∧ Holds used d fs
  /-- The answers differ in backslashes only. -/
  answers : tree.2 = map.2.map Answer.respelt
  /-- The map does what it is asked. -/
  succeeds : ∀ a ∈ map.2, a.Succeeds
  /-- The map lists paths in order. -/
  inOrder : ∀ a ∈ map.2, a.InOrder

variable {used : List String} {d : Directory} {fs : Files} {calls : List Call}

/-- A call keeps tree and map together. -/
theorem Call.together_run (hu : Compatible used) (h : Holds used d fs) {c : Call}
    (hpath : ∀ p ∈ c.path?, p ∈ used) (hdir : ∀ dir, c = .list dir → IsListable dir) :
    Together used ((c.run (.directory d)).1, [(c.run (.directory d)).2])
      ((c.run (.files fs)).1, [(c.run (.files fs)).2]) := by
  cases c with
  | put path content =>
    obtain ⟨d', hput, h'⟩ := h.put hu (hpath path rfl) content
    have htree : (Call.put path content).run (.directory d) = (.directory d', .changed (.ok ())) := by
      simp [Call.run, Source.put, hput]
    rw [htree]
    exact ⟨⟨d', _, rfl, rfl, h'⟩, rfl, by simp [Call.run, Source.put, Answer.Succeeds],
      by simp [Call.run, Answer.InOrder]⟩
  | delete path =>
    obtain ⟨d', hdelete, h'⟩ := h.delete hu (hpath path rfl)
    have htree : (Call.delete path).run (.directory d) = (.directory d', .changed (.ok ())) := by
      simp [Call.run, Source.delete, hdelete]
    rw [htree]
    exact ⟨⟨d', _, rfl, rfl, h'⟩, rfl, by simp [Call.run, Source.delete, Answer.Succeeds],
      by simp [Call.run, Answer.InOrder]⟩
  | get path =>
    refine ⟨⟨d, fs, rfl, rfl, h⟩, ?_, ?_, by simp [Call.run, Answer.InOrder]⟩
    · simp [Call.run, Source.get, h.get_eq hu (hpath path rfl), Answer.respelt]
    · simpa [Call.run, Source.get] using fs.get_succeeds path
  | list dir =>
    refine ⟨⟨d, fs, rfl, rfl, h⟩, ?_, ?_, ?_⟩
    · simp [Call.run, Source.list, h.list_eq hu (hdir dir rfl), Answer.respelt]
    · simp [Call.run, Source.list, Answer.Succeeds]
    · simpa [Call.run, Source.list, Answer.InOrder] using fs.pairwise_list dir

/-- Calls one after another keep tree and map together. -/
theorem together_run (hu : Compatible used) (h : Holds used d fs)
    (hpath : ∀ c ∈ calls, ∀ p ∈ c.path?, p ∈ used) (hdir : ∀ dir, .list dir ∈ calls → IsListable dir) :
    Together used (run calls (.directory d)) (run calls (.files fs)) := by
  induction calls generalizing d fs with
  | nil => exact ⟨⟨d, fs, rfl, rfl, h⟩, rfl, nofun, nofun⟩
  | cons c calls ih =>
    have hfirst := Call.together_run hu h (hpath c (List.mem_cons_self ..))
      fun dir hc => hdir dir (hc ▸ List.mem_cons_self ..)
    obtain ⟨d', fs', hd, hfs, h'⟩ := hfirst.holds
    have hrest := ih h' (fun c hc => hpath c (List.mem_cons_of_mem _ hc))
      fun dir hmem => hdir dir (List.mem_cons_of_mem _ hmem)
    rw [← hd, ← hfs] at hrest
    have hanswer := List.singleton_inj.mp hfirst.answers
    refine ⟨hrest.holds, ?_, fun a ha => ?_, fun a ha => ?_⟩
    · simp only [run, List.map_cons, hanswer, hrest.answers]
    · rcases List.mem_cons.mp ha with rfl | ha
      · exact hfirst.succeeds _ (List.mem_singleton_self _)
      · exact hrest.succeeds a ha
    · rcases List.mem_cons.mp ha with rfl | ha
      · exact hfirst.inOrder _ (List.mem_singleton_self _)
      · exact hrest.inOrder a ha

/-- **A tree answers like a map, up to backslashes in listings.** Whatever calls with canonical paths
and directories are made from the empty sources on, both do what they are asked, and the tree lists
what the map lists, spelt with slashes and sorted again. The answers are the same if and only if no
path that the map has listed has a backslash; and after the calls, the listing of a directory is the
same, with a document of the same content at each of its paths, if and only if no path in it has one. -/
theorem agrees_iff_not_hasBackslash (h : Regular calls) :
    (∀ a ∈ (toldByTree calls).2, a.Succeeds) ∧ (∀ a ∈ (toldByMap calls).2, a.Succeeds) ∧
    (toldByTree calls).2 = (toldByMap calls).2.map Answer.respelt ∧
    ((toldByTree calls).2 = (toldByMap calls).2 ↔ ∀ a ∈ (toldByMap calls).2, ¬ a.HasBackslash) ∧
    ∀ dir, IsListable dir → ∃ listed below, (toldByTree calls).1.list dir = .ok listed ∧
      (toldByMap calls).1.list dir = .ok below ∧
      ((listed = below ∧ ∀ p ∈ listed, ∃ b, (toldByTree calls).1.get p = .ok b ∧
          (toldByMap calls).1.get p = .ok b) ↔ ∀ p ∈ below, '\\' ∉ p.toList) := by
  have hpath : ∀ c ∈ calls, ∀ p ∈ c.path?, p ∈ calls.filterMap Call.path? := fun c hc p hp =>
    List.mem_filterMap.mpr ⟨c, hc, hp⟩
  have htogether : Together _ (toldByTree calls) (toldByMap calls) :=
    together_run h.compatible (Holds.empty _) hpath h.listable
  refine ⟨fun a ha => ?_, htogether.succeeds, htogether.answers, ?_, fun dir hdir => ?_⟩
  · obtain ⟨b, hb, rfl⟩ := List.mem_map.mp (htogether.answers ▸ ha)
    exact Answer.succeeds_respelt (htogether.succeeds b hb)
  · rw [htogether.answers]
    conv_lhs => rhs; rw [← List.map_id (toldByMap calls).2]
    rw [List.map_inj_left]
    exact forall₂_congr fun a ha => Answer.respelt_eq_iff (htogether.inOrder a ha)
  · obtain ⟨d, fs, hd, hfs, hholds⟩ := htogether.holds
    simp only [hd, hfs, list_directory, get_directory]
    refine ⟨_, fs.list dir, hholds.list_eq h.compatible hdir, rfl, ?_⟩
    rw [Directory.mergeSort_slashed_eq_iff (fs.pairwise_list dir), and_iff_left_iff_imp]
    intro hnone p hp
    rw [(Directory.mergeSort_slashed_eq_iff (fs.pairwise_list dir)).mpr hnone] at hp
    have hkey := (List.mem_filter.mp hp).1
    obtain ⟨b, hb⟩ := Files.exists_get?_of_mem hkey
    have hget : fs.get p = .ok b := by rw [Files.get, hb]
    exact ⟨b, (hholds.get_eq h.compatible (hholds.key p hkey)).trans hget, hget⟩

/-- Two posts are put, one is deleted, and both sources are asked for posts. -/
def postCalls : List Call :=
  [.put "posts/a.md" [97], .put "posts/2024/b.md" [98], .list "posts", .delete "posts/a.md",
    .get "posts/a.md"]

/-- Tree and map answer these calls alike. -/
theorem agrees_iff_not_hasBackslash_posts : Regular postCalls ∧
    (toldByTree postCalls).2 = (toldByMap postCalls).2 := by
  have hregular : Regular postCalls := by
    refine ⟨⟨by decide +kernel, by decide +kernel, by decide +kernel⟩, ?_⟩
    intro dir hmem
    obtain rfl : dir = "posts" := by simpa [postCalls] using hmem
    decide
  obtain ⟨-, -, -, hiff, -⟩ := agrees_iff_not_hasBackslash hregular
  refine ⟨hregular, hiff.mpr ?_⟩
  have hanswers : (toldByMap postCalls).2 = [.changed (.ok ()), .changed (.ok ()),
      .paths (.ok ["posts/2024/b.md", "posts/a.md"]), .changed (.ok ()),
      .content (.error (.notFound "posts/a.md"))] := rfl
  rw [hanswers]
  simp [Answer.HasBackslash]

/-- A document whose name has a backslash is put, and the path under which a tree lists it is read. -/
def backslashCalls : List Call := [.put "a\\b.md" [97], .list "", .get "a/b.md"]

/-- **A path that a tree lists may lead to no document**, because its name is another one. -/
theorem exists_respelt : ∃ calls, Regular calls ∧ (toldByTree calls).2 ≠ (toldByMap calls).2 ∧
    ∃ dir listed p, IsListable dir ∧ (toldByTree calls).1.list dir = .ok listed ∧ p ∈ listed ∧
      (toldByTree calls).1.get p = .error (.notFound p) := by
  have hregular : Regular backslashCalls := by
    refine ⟨⟨by decide +kernel, by decide +kernel, by decide +kernel⟩, ?_⟩
    intro dir hmem
    obtain rfl : dir = "" := by simpa [backslashCalls] using hmem
    decide
  have hused : ∀ c ∈ backslashCalls, ∀ p ∈ c.path?, p ∈ backslashCalls.filterMap Call.path? :=
    fun c hc p hp => List.mem_filterMap.mpr ⟨c, hc, hp⟩
  have htogether : Together _ (toldByTree backslashCalls) (toldByMap backslashCalls) :=
    together_run hregular.compatible (Holds.empty _) hused hregular.listable
  refine ⟨backslashCalls, hregular, fun heq => ?_, ?_⟩
  · -- the map lists the path with the backslash
    have hlist : Answer.paths (.ok ["a\\b.md"]) ∈ (toldByMap backslashCalls).2 :=
      List.mem_cons_of_mem _ (List.mem_cons_self ..)
    have hsame : (Answer.paths (.ok ["a\\b.md"])).respelt = .paths (.ok ["a\\b.md"]) := by
      rw [htogether.answers] at heq
      conv at heq => rhs; rw [← List.map_id (toldByMap backslashCalls).2]
      exact List.map_inj_left.mp heq _ hlist
    have horder : (Answer.paths (.ok ["a\\b.md"])).InOrder := List.pairwise_singleton ..
    exact (Answer.respelt_eq_iff horder).mp hsame ⟨_, List.mem_singleton_self _, by decide⟩
  · obtain ⟨d, fs, hd, hfs, hholds⟩ := htogether.holds
    obtain rfl := Source.files.inj hfs
    simp only [hd, list_directory, get_directory]
    have hslashed : slashed "a\\b.md" = "a/b.md" := by
      rw [slashed, ← String.toList_inj, String.toList_map]
      rfl
    have hget : d.get "a/b.md" = .error (.notFound "a/b.md") := by
      rw [hholds.get_eq hregular.compatible (by decide), Files.get, OrderedMap.get?_insert,
        if_neg (by decide)]
      rfl
    refine ⟨"", _, "a/b.md", Or.inl rfl, hholds.list_eq hregular.compatible (Or.inl rfl), ?_, hget⟩
    exact List.mem_mergeSort.mpr (List.mem_map.mpr ⟨"a\\b.md", List.mem_cons_self .., hslashed⟩)

end Source

end ContentIndex
