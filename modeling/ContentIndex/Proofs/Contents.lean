import ContentIndex.Index.Update
import ContentIndex.Proofs.Batch
import ContentIndex.Proofs.Names
import Mathlib.Data.List.Count
import Mathlib.Data.List.Nodup
import Mathlib.Data.Set.Basic

/-!
# What a generation holds

A generation is consistent if its keys are those of the entries of the records that it stores. The
entries of different documents never share a key, so this survives when the entries of one document
are replaced. A rebuild writes records one after another and replaces nothing: if it writes a
document twice, then entries of the first record may be left behind.

## Main definitions

* `Graph.entries`, `Graph.Admits`: the entries of a record by a graph, and the records it admits
* `Graph.Locates`: records whose keys are told apart
* `Store.Holds`: the store holds the entries of some records, and no others
* `Store.Consistent`: the store holds the entries of the records that it stores
* `Graph.latest?`, `Graph.LeavesEntry`: what writing records one after another comes to

## Main results

* `Store.Holds.consistent`: who holds the entries of different documents is consistent
* `Store.Holds.replace`: **a document is replaced without a trace of the old one**
* `Store.holds_of_settled`, `Store.not_consistent_of_leavesEntry`: **written one after another,
  records are held unless one of them has left an entry behind**
-/

namespace ContentIndex

/-- The key of a record in a generation. -/
def Record.key (r : Record) (n : Generation) : Bytes := (Key.document n r.collection r.path).encode

/-- What is in the keys of the record has no zero, and it is read back as it was written. -/
structure Record.Proper (r : Record) : Prop where
  /-- The path. -/
  path : Text.ZeroFree r.path
  /-- The fields of the references. -/
  fields : ∀ x ∈ r.references, Text.ZeroFree x.1
  /-- The bytes. -/
  reads : ofBytes? r.toBytes = some r

namespace Graph

variable {G : Graph} {n : Generation} {r r' : Record} {c : Collection} {k v v' : Bytes} {x : Entry}

/-- The entries of a record by the collection that it names. -/
def entries (G : Graph) (n : Generation) (r : Record) : List Entry :=
  ((G.collection? r.collection).map (r.entries n ·)).getD []

/-- The entries of a record that may be missing. -/
def entriesOf (G : Graph) (n : Generation) (r : Option Record) : List Entry :=
  (r.map (G.entries n)).getD []

/-- The record is proper and belongs to a collection of the graph. -/
structure Admits (G : Graph) (r : Record) : Prop extends r.Proper where
  /-- The collection. -/
  collection : ∃ c ∈ G.collections, r.collection = c.name

/-- The record belongs to a collection of the graph, and what is in its keys has no zero. It need
not be read back as it was written. -/
structure Locates (G : Graph) (r : Record) : Prop where
  /-- The path. -/
  path : Text.ZeroFree r.path
  /-- The fields of the references. -/
  fields : ∀ x ∈ r.references, Text.ZeroFree x.1
  /-- The collection. -/
  collection : ∃ c ∈ G.collections, r.collection = c.name

theorem Admits.locates (h : G.Admits r) : G.Locates r := ⟨h.path, h.fields, h.collection⟩

theorem entries_eq (hG : G.IsCompiled) (hc : c ∈ G.collections) (hname : r.collection = c.name) :
    G.entries n r = r.entries n c := by
  rw [entries, hname, hG.collection?_eq hc]
  rfl

theorem sorted_entries (G : Graph) (n : Generation) (r : Record) :
    Entries.Sorted (G.entries n r) := by
  unfold entries
  cases G.collection? r.collection with
  | none => exact List.Pairwise.nil
  | some c => exact r.sorted_entries n c

theorem starts_of_mem_entries (h : x ∈ G.entries n r) : Key.generationPrefix n <+: x.1 := by
  unfold entries at h
  cases hc : G.collection? r.collection with
  | none =>
    rw [hc] at h
    cases h
  | some c =>
    rw [hc] at h
    exact Record.starts_of_mem_entries h

theorem find?_entries_eq_some_iff : Entries.find? k (G.entries n r) = some v ↔
    (k, v) ∈ G.entries n r :=
  Entries.find?_eq_some_iff (G.sorted_entries n r)

/-- Below the prefix of a generation, the entries are the same in every generation. -/
theorem mem_entries_append_iff (m n : Generation) :
    (Key.generationPrefix m ++ k, v) ∈ G.entries m r ↔
      (Key.generationPrefix n ++ k, v) ∈ G.entries n r := by
  rw [← find?_entries_eq_some_iff, ← find?_entries_eq_some_iff]
  unfold entries
  cases G.collection? r.collection with
  | none => exact iff_of_false nofun nofun
  | some c =>
    have hfind := r.find?_entries_append c m n k
    exact ⟨hfind.symm.trans, hfind.trans⟩

theorem sorted_entriesOf (G : Graph) (n : Generation) (r : Option Record) :
    Entries.Sorted (G.entriesOf n r) := by
  cases r with
  | none => exact List.Pairwise.nil
  | some r => exact G.sorted_entries n r

theorem mem_entriesOf {r : Option Record} : x ∈ G.entriesOf n r ↔ ∃ r' ∈ r, x ∈ G.entries n r' := by
  cases r with
  | none => simp [entriesOf]
  | some r => simp [entriesOf]

/-- A record is in the entry of its key. -/
theorem mem_entries_key (hG : G.IsCompiled) (hr : G.Locates r) :
    (r.key n, r.toBytes) ∈ G.entries n r := by
  obtain ⟨c, hc, hname⟩ := hr.collection
  rw [← find?_entries_eq_some_iff, entries_eq hG hc hname]
  exact r.find?_document n c

theorem owned_of_mem_entries (hG : G.IsCompiled) (hr : G.Locates r) (h : x ∈ G.entries n r) :
    Key.Owned n r.collection r.path x.1 := by
  obtain ⟨c, hc, hname⟩ := hr.collection
  rw [entries_eq hG hc hname] at h
  exact Record.owned_of_mem_entries hname
    (fun f hf => zeroFree_of_sortable (hG.names.1 c hc).2 hf) hr.fields h

theorem Locates.zeroFree (hG : G.IsCompiled) (hr : G.Locates r) : Text.ZeroFree r.collection := by
  obtain ⟨c, hc, hname⟩ := hr.collection
  exact hname ▸ (hG.names.1 c hc).1

/-- **Different documents share no key.** -/
theorem eq_of_mem_entries (hG : G.IsCompiled) (hr : G.Locates r) (hr' : G.Locates r')
    (h : (k, v) ∈ G.entries n r) (h' : (k, v') ∈ G.entries n r') :
    r.collection = r'.collection ∧ r.path = r'.path := by
  have hk : Key.Owned n r.collection r.path k := owned_of_mem_entries hG hr h
  have hk' : Key.Owned n r'.collection r'.path k := owned_of_mem_entries hG hr' h'
  exact hk.unique (hr.zeroFree hG) (hr'.zeroFree hG) hr.path hr'.path hk'

/-- The entry of the key of a document is the record. -/
theorem eq_toBytes_of_mem_entries (hG : G.IsCompiled) (hr : G.Locates r)
    (h : (r.key n, v) ∈ G.entries n r) : v = r.toBytes := by
  rw [← find?_entries_eq_some_iff, find?_entries_eq_some_iff.mpr (mem_entries_key hG hr)] at h
  exact (Option.some.inj h).symm

/-- Records of different documents. -/
structure Library (G : Graph) (D : Set Record) : Prop where
  /-- They are proper. -/
  admits : ∀ r ∈ D, G.Admits r
  /-- No two are of one document. -/
  unique : ∀ r ∈ D, ∀ r' ∈ D, r.collection = r'.collection → r.path = r'.path → r = r'

/-- The records, with the one of a document replaced. -/
def replaced (D : Set Record) (c p : String) (new : Option Record) : Set Record :=
  {r | r ∈ D ∧ ¬ (r.collection = c ∧ r.path = p) ∨ new = some r}

theorem Library.replaced {D : Set Record} {c p : String} {new : Option Record} (hD : G.Library D)
    (hnew : ∀ r ∈ new, G.Admits r ∧ r.collection = c ∧ r.path = p) :
    G.Library (replaced D c p new) := by
  constructor
  · rintro r (⟨hr, -⟩ | hr)
    · exact hD.admits r hr
    · exact (hnew r hr).1
  · rintro r hr r' hr' hc hp
    rcases hr with ⟨hr, hne⟩ | hr <;> rcases hr' with ⟨hr', hne'⟩ | hr'
    · exact hD.unique r hr r' hr' hc hp
    · obtain ⟨-, hc', hp'⟩ := hnew r' hr'
      exact absurd ⟨hc.trans hc', hp.trans hp'⟩ hne
    · obtain ⟨-, hc', hp'⟩ := hnew r hr
      exact absurd ⟨hc.symm.trans hc', hp.symm.trans hp'⟩ hne'
    · exact Option.some.inj (hr.symm.trans hr')

end Graph

namespace Store

open Graph (Library)

variable {s : Store} {n : Generation} {G : Graph} {D : Set Record} {k v : Bytes}

/-- Under the keys of a generation, except that of its information, the store has the entries of
the records and nothing else. -/
def Holds (s : Store) (n : Generation) (G : Graph) (D : Set Record) : Prop :=
  ∀ k v, Key.generationPrefix n <+: k → k ≠ (Key.info n).encode →
    (s.get? k = some v ↔ ∃ r ∈ D, (k, v) ∈ G.entries n r)

/-- The record under the key of a document. -/
def record? (s : Store) (n : Generation) (c p : String) : Option Record :=
  (s.get? (Key.document n c p).encode).bind Record.ofBytes?

/-- A generation has its information and, apart from it, the entries of the records that are under
the keys of documents, each under the key of its own. -/
structure Consistent (s : Store) (n : Generation) (G : Graph) : Prop where
  /-- The information is there. -/
  info : s.get? (Key.info n).encode ≠ none
  /-- The entries are those of the records. -/
  entries : s.Holds n G {r | ∃ c p, s.record? n c p = some r}
  /-- The records are under their own keys. -/
  documents : ∀ c p v, s.get? (Key.document n c p).encode = some v →
    ∃ r, Record.ofBytes? v = some r ∧ r.collection = c ∧ r.path = p

/-- Keys of documents are not that of the information. -/
theorem document_ne_info (c p : String) : (Key.document n c p).encode ≠ (Key.info n).encode :=
  Key.Owned.document.ne_info

theorem document_starts (c p : String) :
    Key.generationPrefix n <+: (Key.document n c p).encode :=
  Key.Owned.document.starts

/-- Only the document of the key has an entry there. A collection or a path with a zero does not
make it another document. -/
theorem eq_of_document (hG : G.IsCompiled) {r : Record} (hr : G.Locates r) {c p : String}
    (h : ((Key.document n c p).encode, v) ∈ G.entries n r) :
    r.collection = c ∧ r.path = p ∧ v = r.toBytes := by
  have hkey : (Key.document n c p).encode = r.key n := by
    generalize hk : (Key.document n c p).encode = k at h
    have howned := Graph.owned_of_mem_entries hG hr h
    cases howned with
    | document => rfl
    | sort f d w _ =>
      cases Key.Family.eq_of_start (Key.document_starts c p)
        (Key.sort_starts r.collection f d w r.path) hk
    | backlink c' p' f _ =>
      cases Key.Family.eq_of_start (Key.document_starts c p) (Key.backlink_starts c' p' _) hk
  rw [hkey] at h
  simp only [Record.key, Key.encode, Key.documentPrefix, Key.part, List.append_assoc,
    List.append_cancel_left_eq, List.cons_append, List.nil_append] at hkey
  -- the key of `r` has one zero after its start, and so has the key of the other document
  have hzero : 0 ∉ Bytes.ofText c := by
    have hcount := congrArg (List.count 0) hkey
    rw [List.count_append, List.count_append, List.count_cons_self, List.count_cons_self,
      List.count_eq_zero.mpr (hr.zeroFree hG).zero_notMem,
      List.count_eq_zero.mpr hr.path.zero_notMem] at hcount
    exact List.count_eq_zero.mp (by omega)
  obtain ⟨hc, hp⟩ := Key.append_zero_inj (hr.zeroFree hG).zero_notMem hzero hkey.symm
  rw [Bytes.ofText_inj] at hc hp
  exact ⟨hc, hp, Graph.eq_toBytes_of_mem_entries hG hr h⟩

/-! ### Consistency -/

/-- The records that are stored are the ones whose entries are held. -/
theorem Holds.record?_eq_some_iff (hG : G.IsCompiled) (hD : G.Library D) (h : s.Holds n G D)
    {c p : String} {r : Record} :
    s.record? n c p = some r ↔ r ∈ D ∧ r.collection = c ∧ r.path = p := by
  constructor
  · intro hr
    obtain ⟨v, hv, hread⟩ := Option.bind_eq_some_iff.mp hr
    obtain ⟨r', hr', hmem⟩ := (h _ v (document_starts c p) (document_ne_info c p)).mp hv
    obtain ⟨hc, hp, rfl⟩ := eq_of_document hG (hD.admits r' hr').locates hmem
    rw [(hD.admits r' hr').reads] at hread
    obtain rfl := Option.some.inj hread
    exact ⟨hr', hc, hp⟩
  · rintro ⟨hr, rfl, rfl⟩
    have hv := (h _ _ (document_starts r.collection r.path) (document_ne_info _ _)).mpr
      ⟨r, hr, Graph.mem_entries_key hG (hD.admits r hr).locates⟩
    exact Option.bind_eq_some_iff.mpr ⟨_, hv, (hD.admits r hr).reads⟩

/-- **A generation that holds the entries of different documents is consistent.** -/
theorem Holds.consistent (hG : G.IsCompiled) (hD : G.Library D) (h : s.Holds n G D)
    (hinfo : s.get? (Key.info n).encode ≠ none) : s.Consistent n G := by
  have hrecords : {r | ∃ c p, s.record? n c p = some r} = D := by
    ext r
    constructor
    · rintro ⟨c, p, hr⟩
      exact ((h.record?_eq_some_iff hG hD).mp hr).1
    · exact fun hr => ⟨_, _, (h.record?_eq_some_iff hG hD).mpr ⟨hr, rfl, rfl⟩⟩
  refine ⟨hinfo, hrecords ▸ h, fun c p v hv => ?_⟩
  obtain ⟨r, hr, hmem⟩ := (h _ v (document_starts c p) (document_ne_info c p)).mp hv
  obtain ⟨hc, hp, rfl⟩ := eq_of_document hG (hD.admits r hr).locates hmem
  exact ⟨r, (hD.admits r hr).reads, hc, hp⟩

/-- What is stored elsewhere does not matter. -/
theorem Holds.congr {s' : Store} (h : s.Holds n G D)
    (hsame : ∀ k, Key.generationPrefix n <+: k → s'.get? k = s.get? k) : s'.Holds n G D := by
  intro k v hk hinfo
  rw [hsame k hk]
  exact h k v hk hinfo

/-! ### Replacing a document -/

theorem get?_replacement (s : Store) (old : List Entry) {new : List Entry}
    (hnew : Entries.Sorted new) (k : Bytes) :
    ((Database.replacement old new).foldl apply s).get? k =
      (Entries.find? k new).or (if k ∈ old.map (·.1) then none else s.get? k) := by
  have hdelete : (old.filter fun e => !Entries.contains e.1 new).map (fun e => WriteOp.delete e.1) =
      ((old.filter fun e => !Entries.contains e.1 new).map (·.1)).map .delete := by
    simp
  rw [Database.replacement, List.foldl_append, get?_puts _ hnew, hdelete, get?_deletes]
  cases hk : Entries.find? k new with
  | some v => rfl
  | none =>
    -- an entry that is not new is deleted if it is old
    have hmem : k ∈ (old.filter fun e => !Entries.contains e.1 new).map (·.1) ↔
        k ∈ old.map (·.1) := by
      simp only [List.mem_map, List.mem_filter]
      constructor
      · rintro ⟨e, ⟨he, -⟩, rfl⟩
        exact ⟨e, he, rfl⟩
      · rintro ⟨e, he, rfl⟩
        exact ⟨e, ⟨he, by simp [Entries.contains, hk]⟩, rfl⟩
    simp only [Option.none_or, hmem]

/-- Under the key the store has what the records have there. -/
def HoldsAt (s : Store) (n : Generation) (G : Graph) (D : Set Record) (k : Bytes) : Prop :=
  ∀ v, s.get? k = some v ↔ ∃ r ∈ D, (k, v) ∈ G.entries n r

/-- Under a key a document is replaced, if what is replaced has the key exactly when the record of
the document has it. -/
theorem HoldsAt.replace (hG : G.IsCompiled) (hD : ∀ r ∈ D, G.Locates r) (h : s.HoldsAt n G D k)
    {c p : String} {old new : Option Record}
    (hold : k ∈ (G.entriesOf n old).map (·.1) ↔
      ∃ r ∈ D, r.collection = c ∧ r.path = p ∧ ∃ v, (k, v) ∈ G.entries n r)
    (hnew : ∀ r ∈ new, G.Locates r ∧ r.collection = c ∧ r.path = p) :
    Store.HoldsAt ((Database.replacement (G.entriesOf n old) (G.entriesOf n new)).foldl apply s) n G
      (Graph.replaced D c p new) k := by
  intro v
  rw [get?_replacement s _ (G.sorted_entriesOf n new)]
  -- another document has no entry under a key of the one that is replaced
  have hother {r r' : Record} {v v' : Bytes} (hr : r ∈ D) (hne : ¬ (r.collection = c ∧ r.path = p))
      (hr' : G.Locates r') (hc : r'.collection = c) (hp : r'.path = p)
      (hmem : (k, v) ∈ G.entries n r) : (k, v') ∉ G.entries n r' := by
    intro hmem'
    obtain ⟨hcs, hps⟩ := Graph.eq_of_mem_entries hG (hD r hr) hr' hmem hmem'
    exact hne ⟨hcs.trans hc, hps.trans hp⟩
  cases hfind : Entries.find? k (G.entriesOf n new) with
  | some w =>
    obtain ⟨r', hr', hmem'⟩ := Graph.mem_entriesOf.mp
      ((Entries.find?_eq_some_iff (G.sorted_entriesOf n new)).mp hfind)
    obtain ⟨hlocates, hc, hp⟩ := hnew r' hr'
    simp only [Option.some_or, Option.some.injEq]
    constructor
    · rintro rfl
      exact ⟨r', Or.inr hr', hmem'⟩
    · rintro ⟨r, ⟨hr, hne⟩ | hr, hmem⟩
      · exact absurd hmem' (hother hr hne hlocates hc hp hmem)
      · obtain rfl := Option.some.inj (hr.symm.trans hr')
        rw [← Graph.find?_entries_eq_some_iff] at hmem hmem'
        exact Option.some.inj (hmem'.symm.trans hmem)
  | none =>
    have hnone : ∀ r ∈ new, ∀ v, (k, v) ∉ G.entries n r := by
      intro r hr v hmem
      have := (Entries.find?_eq_some_iff (G.sorted_entriesOf n new)).mpr
        (Graph.mem_entriesOf.mpr ⟨r, hr, hmem⟩)
      rw [hfind] at this
      cases this
    rw [Option.none_or]
    split
    · next hmem =>
      obtain ⟨r', hr', hc, hp, w, hw⟩ := hold.mp hmem
      refine iff_of_false (Option.some_ne_none v).symm ?_
      rintro ⟨r, ⟨hr, hne⟩ | hr, hmem⟩
      · exact hother hr hne (hD r' hr') hc hp hmem hw
      · exact hnone r hr v hmem
    · next hnot =>
      rw [h v]
      constructor
      · rintro ⟨r, hr, hmem⟩
        exact ⟨r, Or.inl ⟨hr, fun hdoc => hnot (hold.mpr ⟨r, hr, hdoc.1, hdoc.2, v, hmem⟩)⟩, hmem⟩
      · rintro ⟨r, ⟨hr, -⟩ | hr, hmem⟩
        · exact ⟨r, hr, hmem⟩
        · exact absurd hmem (hnone r hr v)

/-- **A document is replaced without a trace of the old one.** -/
theorem Holds.replace (hG : G.IsCompiled) (hD : G.Library D) (h : s.Holds n G D) {c p : String}
    {old new : Option Record} (hold : ∀ r, old = some r ↔ r ∈ D ∧ r.collection = c ∧ r.path = p)
    (hnew : ∀ r ∈ new, G.Admits r ∧ r.collection = c ∧ r.path = p) :
    Store.Holds ((Database.replacement (G.entriesOf n old) (G.entriesOf n new)).foldl apply s) n G
      (Graph.replaced D c p new) := by
  intro k v hk hinfo
  have hkey : s.HoldsAt n G D k := fun v => h k v hk hinfo
  refine hkey.replace hG (fun r hr => (hD.admits r hr).locates) ?_
    (fun r hr => ⟨(hnew r hr).1.locates, (hnew r hr).2⟩) v
  simp only [List.mem_map, Graph.mem_entriesOf, Option.mem_def, hold]
  constructor
  · rintro ⟨x, ⟨r, ⟨hr, hc, hp⟩, hmem⟩, rfl⟩
    exact ⟨r, hr, hc, hp, x.2, hmem⟩
  · rintro ⟨r, hr, hc, hp, w, hmem⟩
    exact ⟨(k, w), ⟨r, ⟨hr, hc, hp⟩, hmem⟩, rfl⟩

/-- Keys that belong to no document keep what they have. -/
theorem get?_replacement_of_not_owned (hG : G.IsCompiled) (s : Store) {old new : Option Record}
    (hold : ∀ r ∈ old, G.Locates r) (hnew : ∀ r ∈ new, G.Locates r)
    (hk : ∀ c p, ¬ Key.Owned n c p k) :
    ((Database.replacement (G.entriesOf n old) (G.entriesOf n new)).foldl apply s).get? k =
      s.get? k := by
  have hnone {r : Option Record} (hr : ∀ r' ∈ r, G.Locates r') (v : Bytes) :
      (k, v) ∉ G.entriesOf n r := by
    intro hmem
    obtain ⟨r', hr', hmem⟩ := Graph.mem_entriesOf.mp hmem
    exact hk _ _ (Graph.owned_of_mem_entries hG (hr r' hr') hmem)
  have hfind : Entries.find? k (G.entriesOf n new) = none := by
    refine Option.eq_none_iff_forall_ne_some.mpr fun v hv => hnone hnew v ?_
    exact (Entries.find?_eq_some_iff (G.sorted_entriesOf n new)).mp hv
  rw [get?_replacement s _ (G.sorted_entriesOf n new), hfind, Option.none_or, if_neg]
  rintro hmem
  obtain ⟨x, hx, rfl⟩ := List.mem_map.mp hmem
  exact hnone hold x.2 hx

end Store

/-! ### Records written one after another -/

namespace Graph

variable {G : Graph} {n : Generation} {r : Record} {rs rs' : List Record} {k v : Bytes}

/-- What the last record with an entry under the key has there. -/
def latest? (G : Graph) (n : Generation) : List Record → Bytes → Option Bytes
  | [], _ => none
  | r :: rs, k => (G.latest? n rs k).or (Entries.find? k (G.entries n r))

theorem latest?_append (rs rs' : List Record) (k : Bytes) :
    G.latest? n (rs ++ rs') k = (G.latest? n rs' k).or (G.latest? n rs k) := by
  induction rs with
  | nil => simp [latest?]
  | cons r rs ih => rw [List.cons_append, latest?, ih, latest?, Option.or_assoc]

theorem latest?_eq_none_iff : G.latest? n rs k = none ↔ ∀ r ∈ rs, ∀ v, (k, v) ∉ G.entries n r := by
  induction rs with
  | nil => simp [latest?]
  | cons r rs ih =>
    have hr : Entries.find? k (G.entries n r) = none ↔ ∀ v, (k, v) ∉ G.entries n r := by
      simp [Option.eq_none_iff_forall_ne_some, find?_entries_eq_some_iff]
    rw [latest?, Option.or_eq_none_iff, ih, hr]
    simp [and_comm]

/-- The last record with an entry under the key. -/
theorem exists_of_latest? (h : G.latest? n rs k = some v) : ∃ before r after,
    rs = before ++ r :: after ∧ (k, v) ∈ G.entries n r ∧ G.latest? n after k = none := by
  induction rs with
  | nil => cases h
  | cons r rs ih =>
    cases hrs : G.latest? n rs k with
    | some w =>
      rw [latest?, hrs, Option.some_or] at h
      obtain ⟨before, r', after, rfl, hr'⟩ := ih (hrs.trans h)
      exact ⟨r :: before, r', after, rfl, hr'⟩
    | none =>
      rw [latest?, hrs, Option.none_or, find?_entries_eq_some_iff] at h
      exact ⟨[], r, rs, rfl, h, hrs⟩

/-- A record is followed by another one of its document, and by none with an entry under a key where
it has one. -/
def LeavesEntry (G : Graph) (n : Generation) (rs : List Record) (k : Bytes) : Prop :=
  ∃ before r after, rs = before ++ r :: after ∧ (∃ v, (k, v) ∈ G.entries n r) ∧
    G.latest? n after (r.key n) ≠ none ∧ G.latest? n after k = none

/-- The records that are not followed by others of their documents. -/
def final (G : Graph) (n : Generation) (rs : List Record) : Set Record :=
  {r | r ∈ rs ∧ G.latest? n rs (r.key n) = some r.toBytes}

theorem library_final (hrs : ∀ r ∈ rs, G.Admits r) :
    G.Library (G.final n rs) := by
  refine ⟨fun r hr => hrs r hr.1, fun r hr r' hr' hc hp => ?_⟩
  have hkey : r.key n = r'.key n := by
    rw [Record.key, Record.key, hc, hp]
  have hbytes : r.toBytes = r'.toBytes :=
    Option.some.inj (hr.2.symm.trans (hkey ▸ hr'.2))
  have hread := (hrs r hr.1).reads
  rw [hbytes, (hrs r' hr'.1).reads] at hread
  exact (Option.some.inj hread).symm

/-- Who writes each document once leaves nothing behind. -/
theorem not_leavesEntry_of_nodup (hG : G.IsCompiled) (hrs : ∀ r ∈ rs, G.Admits r)
    (h : (rs.map (·.path)).Nodup) : ¬ G.LeavesEntry n rs k := by
  rintro ⟨before, r, after, rfl, -, hagain, -⟩
  obtain ⟨v, hv⟩ := Option.ne_none_iff_exists'.mp hagain
  obtain ⟨earlier, x, later, rfl, hx, -⟩ := exists_of_latest? hv
  have hr := (hrs r (by simp)).locates
  obtain ⟨-, hp⟩ := eq_of_mem_entries hG (hrs x (by simp)).locates hr hx (mem_entries_key hG hr)
  rw [List.map_append, List.map_cons] at h
  have := (List.nodup_cons.mp (List.nodup_append.mp h).2.1).1
  exact this (by simp [hp])

/-- Who writes each document once leaves every entry of every record. -/
theorem latest?_eq_some_iff_of_nodup (hG : G.IsCompiled) (hrs : ∀ r ∈ rs, G.Locates r)
    (h : (rs.map (·.path)).Nodup) :
    G.latest? n rs k = some v ↔ ∃ r ∈ rs, (k, v) ∈ G.entries n r := by
  constructor
  · intro hlatest
    obtain ⟨before, r, after, rfl, hmem, -⟩ := exists_of_latest? hlatest
    exact ⟨r, by simp, hmem⟩
  · rintro ⟨r, hr, hmem⟩
    obtain ⟨before, after, rfl⟩ := List.append_of_mem hr
    have hafter : G.latest? n after k = none := by
      rw [latest?_eq_none_iff]
      intro x hx w hw
      have hpath : r.path = x.path :=
        (eq_of_mem_entries hG (hrs r hr) (hrs x (by simp [hx])) hmem hw).2
      rw [List.map_append, List.map_cons] at h
      have hnot := (List.nodup_cons.mp (List.nodup_append.mp h).2.1).1
      exact hnot (hpath ▸ List.mem_map_of_mem hx)
    rw [latest?_append, latest?, hafter, find?_entries_eq_some_iff.mpr hmem, Option.none_or,
      Option.some_or]

/-- Who writes each document once leaves every record as it was written. -/
theorem final_eq_of_nodup (hG : G.IsCompiled) (hrs : ∀ r ∈ rs, G.Admits r)
    (h : (rs.map (·.path)).Nodup) : G.final n rs = {r | r ∈ rs} := by
  ext r
  refine ⟨fun hr => hr.1, fun hr => ⟨hr, ?_⟩⟩
  exact (latest?_eq_some_iff_of_nodup hG (fun r hr => (hrs r hr).locates) h).mpr
    ⟨r, hr, mem_entries_key hG (hrs r hr).locates⟩

end Graph

namespace Store

variable {s : Store} {n : Generation} {G : Graph} {rs : List Record} {k v : Bytes}

/-- Records were written one after another into an empty generation. -/
def Settled (s : Store) (n : Generation) (G : Graph) (rs : List Record) : Prop :=
  ∀ k, Key.generationPrefix n <+: k → k ≠ (Key.info n).encode → s.get? k = G.latest? n rs k

theorem Settled.congr {s' : Store} (h : s.Settled n G rs)
    (hsame : ∀ k, Key.generationPrefix n <+: k → k ≠ (Key.info n).encode →
      s'.get? k = s.get? k) : s'.Settled n G rs :=
  fun k hk hinfo => (hsame k hk hinfo).trans (h k hk hinfo)

/-- One more record is written. -/
theorem Settled.concat (h : s.Settled n G rs) (r : Record) :
    Store.Settled (((G.entries n r).map fun e => WriteOp.put e.1 e.2).foldl apply s) n G
      (rs ++ [r]) := by
  intro k hk hinfo
  rw [get?_puts s (G.sorted_entries n r), h k hk hinfo, Graph.latest?_append]
  simp [Graph.latest?]

/-- **Records written one after another are held**, each as it was written last, if no entry was
left behind. -/
theorem holds_of_settled (hG : G.IsCompiled) (hrs : ∀ r ∈ rs, G.Admits r)
    (h : s.Settled n G rs) (hleaves : ∀ k, ¬ G.LeavesEntry n rs k) :
    s.Holds n G (G.final n rs) := by
  intro k v hk hinfo
  rw [h k hk hinfo]
  constructor
  · intro hlatest
    obtain ⟨before, r, after, rfl, hmem, hafter⟩ := Graph.exists_of_latest? hlatest
    have hr := hrs r (by simp)
    have hlast : G.latest? n after (r.key n) = none := by
      by_contra hne
      exact hleaves k ⟨before, r, after, rfl, ⟨v, hmem⟩, hne, hafter⟩
    refine ⟨r, ⟨by simp, ?_⟩, hmem⟩
    have hkey := Graph.find?_entries_eq_some_iff.mpr (Graph.mem_entries_key hG hr.locates (n := n))
    rw [Graph.latest?_append, Graph.latest?, hlast, hkey]
    rfl
  · rintro ⟨r, ⟨hmem, hlatest⟩, hkv⟩
    have hr := hrs r hmem
    obtain ⟨before, x, after, rfl, hx, hafter⟩ := Graph.exists_of_latest? hlatest
    have hxadmits := hrs x (by simp)
    obtain ⟨hc, hp, hbytes⟩ := eq_of_document hG hxadmits.locates hx
    have hread := hr.reads
    rw [hbytes, hxadmits.reads] at hread
    obtain rfl := Option.some.inj hread
    have hk' : G.latest? n after k = none := by
      rw [Graph.latest?_eq_none_iff] at hafter ⊢
      intro y hy w hw
      have hyadmits := hrs y (by simp [hy])
      obtain ⟨hcy, hpy⟩ := Graph.eq_of_mem_entries hG hyadmits.locates hr.locates hw hkv
      refine hafter y hy y.toBytes ?_
      rw [Record.key, ← hcy, ← hpy]
      exact Graph.mem_entries_key hG hyadmits.locates
    rw [Graph.latest?_append, Graph.latest?, hk', Graph.find?_entries_eq_some_iff.mpr hkv]
    rfl

/-- **An entry that was left behind belongs to no record.** -/
theorem not_consistent_of_leavesEntry (hG : G.IsCompiled) (hrs : ∀ r ∈ rs, G.Admits r)
    (h : s.Settled n G rs) (hleaves : G.LeavesEntry n rs k) : ¬ s.Consistent n G := by
  intro hs
  obtain ⟨before, r, after, rfl, ⟨v, hv⟩, hagain, hafter⟩ := hleaves
  have hr := hrs r (by simp)
  have howned : Key.Owned n r.collection r.path k := Graph.owned_of_mem_entries hG hr.locates hv
  -- the entry is still there, so it is one of a record `r'` that is stored
  have hstored : s.get? k = some v := by
    rw [h k howned.starts howned.ne_info, Graph.latest?_append, Graph.latest?, hafter,
      Graph.find?_entries_eq_some_iff.mpr hv]
    rfl
  obtain ⟨r', ⟨c, p, hr'⟩, hmem⟩ := (hs.entries k v howned.starts howned.ne_info).mp hstored
  obtain ⟨b, hb, hread⟩ := Option.bind_eq_some_iff.mp hr'
  have hlatest := (h _ (document_starts c p) (document_ne_info c p)).symm.trans hb
  -- `r'` was written by one of the records, since only those have entries under its key
  have hwritten : r' ∈ before ++ r :: after ∧ r'.collection = c ∧ r'.path = p := by
    obtain ⟨earlier, x, later, heq, hx, -⟩ := Graph.exists_of_latest? hlatest
    have hxmem : x ∈ before ++ r :: after := heq ▸ by simp
    obtain ⟨hc, hp, rfl⟩ := eq_of_document hG (hrs x hxmem).locates hx
    rw [(hrs x hxmem).reads] at hread
    obtain rfl := Option.some.inj hread
    exact ⟨hxmem, hc, hp⟩
  obtain ⟨hmem', rfl, rfl⟩ := hwritten
  obtain ⟨hc, hp⟩ := Graph.eq_of_mem_entries hG hr.locates (hrs r' hmem').locates hv hmem
  -- the last record of the document comes after `r`, where no record has an entry under `k`
  have hkey : r.key n = (Key.document n r'.collection r'.path).encode := by
    rw [Record.key, hc, hp]
  obtain ⟨w, hw⟩ := Option.ne_none_iff_exists'.mp hagain
  rw [← hkey, Graph.latest?_append, Graph.latest?, hw, Option.some_or, Option.some_or] at hlatest
  obtain rfl := Option.some.inj hlatest
  obtain ⟨earlier, x, later, rfl, hx, -⟩ := Graph.exists_of_latest? hw
  have hxadmits := hrs x (by simp)
  obtain ⟨-, -, rfl⟩ := eq_of_document hG hxadmits.locates hx
  rw [hxadmits.reads] at hread
  obtain rfl := Option.some.inj hread
  exact Graph.latest?_eq_none_iff.mp hafter x (by simp) v hmem

/-- An entry that no stored record has belongs to no record. -/
theorem not_consistent_of_orphan (hk : Key.generationPrefix n <+: k)
    (hinfo : k ≠ (Key.info n).encode) (hget : s.get? k = some v)
    (hnone : ∀ x ∈ s.entries, Key.Family.start n .document <+: x.1 →
      ∀ r ∈ Record.ofBytes? x.2, (k, v) ∉ G.entries n r) : ¬ s.Consistent n G := by
  intro hs
  obtain ⟨r, ⟨c, p, hr⟩, hmem⟩ := (hs.entries k v hk hinfo).mp hget
  obtain ⟨b, hb, hread⟩ := Option.bind_eq_some_iff.mp hr
  exact hnone _ (get?_eq_some_iff_mem.mp hb) (Key.document_starts c p) r hread hmem

end Store

end ContentIndex
