import ContentIndex.Index.Entries
import ContentIndex.Proofs.KeyLayout

/-!
# The entries of a record

All entries of a record lie in the generation that it is written into, and their keys belong to the
document of the record. One of them holds the record.

## Main results

* `Record.starts_of_mem_entries`: the entries of a record lie in their generation
* `Record.find?_document`: one of them holds the record
* `Record.owned_of_mem_entries`: **their keys belong to the document**
* `Record.find?_entries_append`: below the prefix they are the same in every generation
-/

namespace ContentIndex

namespace Record

variable {r : Record} {g : Generation} {c : Graph.Collection} {e : Entry}

theorem mem_entries (h : e ∈ r.entries g c) :
    e = r.documentEntry g ∨ e ∈ r.sortEntries g c ∨ e ∈ r.backlinkEntries g := by
  have := Entries.mem_of_mem_ofList h
  simpa [or_assoc] using this

/-- Each entry of a record belongs to a family. -/
theorem exists_start_of_mem_entries (h : e ∈ r.entries g c) :
    ∃ a, Key.Family.start g a <+: e.1 := by
  rcases mem_entries h with rfl | h | h
  · exact ⟨.document, Key.document_starts r.collection r.path⟩
  · simp only [sortEntries, List.mem_flatMap, List.mem_map] at h
    obtain ⟨f, -, d, -, rfl⟩ := h
    exact ⟨.sort, Key.sort_starts c.name f.name d _ r.path⟩
  · simp only [backlinkEntries, List.mem_filterMap, Option.map_eq_some_iff] at h
    obtain ⟨x, -, t, -, rfl⟩ := h
    exact ⟨.backlink, Key.backlink_starts t x.2.path _⟩

/-- The entries of a record lie in their generation. -/
theorem starts_of_mem_entries (h : e ∈ r.entries g c) : Key.generationPrefix g <+: e.1 := by
  obtain ⟨a, ha⟩ := exists_start_of_mem_entries h
  exact a.starts_start.trans ha

theorem sorted_entries (r : Record) (g : Generation) (c : Graph.Collection) :
    Entries.Sorted (r.entries g c) :=
  Entries.sorted_ofList _

/-- The entries depend on the name and the sortable fields of the collection only. -/
theorem entries_congr {c' : Graph.Collection} (hname : c.name = c'.name)
    (hfields : c.sortableFields.map (·.name) = c'.sortableFields.map (·.name)) (r : Record)
    (g : Generation) : r.entries g c = r.entries g c' := by
  have hsort (c : Graph.Collection) : r.sortEntries g c =
      (c.sortableFields.map (·.name)).flatMap fun f => [false, true].map fun d =>
        ((Key.sort g c.name f d (Entries.find? f r.fields) r.path).encode,
          Bytes.ofText r.path) := by
    simp [sortEntries, List.flatMap_map]
  rw [entries, entries, hsort, hsort, hname, hfields]

/-- The entry of the record is not in another family. -/
theorem ne_document_of_mem {x : Entry}
    (h : x ∈ r.sortEntries g c ∨ x ∈ r.backlinkEntries g) (c' p' : String) :
    x.1 ≠ (Key.document g c' p').encode := by
  intro hx
  rcases h with h | h
  · simp only [sortEntries, List.mem_flatMap, List.mem_map] at h
    obtain ⟨f, -, d, -, rfl⟩ := h
    cases Key.Family.eq_of_start (Key.sort_starts c.name f.name d _ r.path)
      (Key.document_starts c' p') hx
  · simp only [backlinkEntries, List.mem_filterMap, Option.map_eq_some_iff] at h
    obtain ⟨y, -, t, -, rfl⟩ := h
    cases Key.Family.eq_of_start (Key.backlink_starts t y.2.path _) (Key.document_starts c' p') hx

/-- One entry holds the record. -/
theorem find?_document (r : Record) (g : Generation) (c : Graph.Collection) :
    Entries.find? (Key.document g r.collection r.path).encode (r.entries g c) =
      some r.toBytes := by
  have hothers : (r.sortEntries g c ++ r.backlinkEntries g).reverse.find?
      (·.1 = (Key.document g r.collection r.path).encode) = none := by
    rw [List.find?_eq_none]
    intro x hx
    rw [List.mem_reverse, List.mem_append] at hx
    simpa using ne_document_of_mem hx r.collection r.path
  rw [entries, Entries.find?_ofList, List.cons_append, List.reverse_cons, List.find?_append,
    hothers]
  simp [documentEntry]

/-- **The keys of the entries of a record belong to its document.** -/
theorem owned_of_mem_entries (hname : r.collection = c.name)
    (hsort : ∀ f ∈ c.sortableFields, Text.ZeroFree f.name)
    (hrefs : ∀ x ∈ r.references, Text.ZeroFree x.1) (h : e ∈ r.entries g c) :
    Key.Owned g r.collection r.path e.1 := by
  rcases mem_entries h with rfl | h | h
  · exact .document
  · simp only [sortEntries, List.mem_flatMap, List.mem_map] at h
    obtain ⟨f, hf, d, -, rfl⟩ := h
    rw [hname]
    exact .sort f.name d _ (hsort f hf)
  · simp only [backlinkEntries, List.mem_filterMap, Option.map_eq_some_iff] at h
    obtain ⟨x, hx, t, -, rfl⟩ := h
    exact .backlink t x.2.path x.1 (hrefs x hx)

/-! ### Other generations -/

/-- In another generation the keys of the entries have another prefix, and nothing else differs. -/
theorem exists_entries_eq (r : Record) (c : Graph.Collection) : ∃ l : List Entry, ∀ g,
    r.entries g c = Entries.ofList (l.map fun x => (Key.generationPrefix g ++ x.1, x.2)) := by
  refine ⟨(Bytes.ofText "doc/" ++ Key.part r.collection ++ Bytes.ofText r.path, r.toBytes) ::
    (c.sortableFields.flatMap fun f => [false, true].map fun d =>
      (Bytes.ofText "sort/" ++ Key.part c.name ++ Key.part f.name ++
        Bytes.ofText (if d then "d" else "a") ++
        Key.sortBytes d (Entries.find? f.name r.fields) ++ Bytes.ofText r.path,
        Bytes.ofText r.path)) ++
    r.references.filterMap fun x => x.2.collection.map fun collection =>
      (Bytes.ofText "ref/" ++ Key.part collection ++ Key.part x.2.path ++
        Key.sourceBytes ⟨r.collection, r.path, x.1⟩, []), fun g => ?_⟩
  rw [entries]
  congr 1
  simp only [documentEntry, sortEntries, backlinkEntries, Key.encode, Key.documentPrefix,
    Key.sortPrefix, Key.backlinkPrefix, List.append_assoc, List.map_append, List.map_cons,
    List.map_flatMap, List.map_filterMap, List.map_nil, Option.map_map, Function.comp_def]

/-- **Below the prefix of a generation, a record has the same entries in every generation.** -/
theorem find?_entries_append (r : Record) (c : Graph.Collection) (m n : Generation) (k : Bytes) :
    Entries.find? (Key.generationPrefix m ++ k) (r.entries m c) =
      Entries.find? (Key.generationPrefix n ++ k) (r.entries n c) := by
  obtain ⟨l, hl⟩ := r.exists_entries_eq c
  have hfind (g : Generation) : Entries.find? (Key.generationPrefix g ++ k) (r.entries g c) =
      (l.reverse.find? (·.1 = k)).map (·.2) := by
    rw [hl, Entries.find?_ofList, ← List.map_reverse, List.find?_map, Option.map_map]
    simp [Function.comp_def]
  rw [hfind, hfind]

end Record

end ContentIndex
