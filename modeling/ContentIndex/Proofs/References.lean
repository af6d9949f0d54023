import ContentIndex.Proofs.Outline

/-!
# References to a document

A lookup of the references to a document goes through the keys that begin with its collection and
its path, each followed by a separator. What the target of a reference is called is up to the
document that refers, and a path with a separator in it can make the key of a reference to one
document begin like those of references to another one. Such a key is misread. Apart from that the
lookup is exact.

## Main definitions

* `Backlink.ofKeys`: the sources in keys
* `Record.Refers`: the references to a document from some records
* `Record.Clashes`: references to another document whose keys begin alike

## Main results

* `Backlink.ofSuffix?_exact`: **a source is read from its own bytes only**
* `Database.Tells.mem_backlinkKeys_iff`: the keys that a lookup goes through
* `Record.not_clashes_of_zeroFree`: paths without zeros have keys of their own
* `Database.Tells.exists_ofKeys_iff`: when keys are read as what they are
* `Database.referencedBy_exact_iff`: **a lookup of references is exact unless keys begin alike**
* `Database.exists_misread`: keys of references can begin alike
-/

namespace ContentIndex

open Text (ZeroFree)

/-- A sequence of steps that all succeed succeeds. -/
theorem exists_mapM_eq_ok {ε α β : Type} {f : α → Except ε β} {P : α → β → Prop} {l : List α}
    (h : ∀ a ∈ l, ∃ b, f a = .ok b ∧ P a b) : ∃ bs, l.mapM f = .ok bs ∧ List.Forall₂ P l bs := by
  induction l with
  | nil => exact ⟨[], rfl, .nil⟩
  | cons a l ih =>
    obtain ⟨b, hb, hP⟩ := h a (List.mem_cons_self ..)
    obtain ⟨bs, hbs, hall⟩ := ih fun a ha => h a (List.mem_cons_of_mem _ ha)
    refine ⟨b :: bs, ?_, .cons hP hall⟩
    rw [List.mapM_cons, hb, hbs]
    rfl

/-! ### Sources in keys -/

namespace Backlink

variable {a b x y : Bytes} {s : Backlink}

theorem splitPart?_append (hx : 0 ∉ x) : splitPart? (x ++ 0 :: y) = some (x, y) := by
  induction x with
  | nil => rfl
  | cons c x ih =>
    rw [List.mem_cons, not_or] at hx
    rw [List.cons_append, splitPart?, if_neg fun hc => hx.1 hc.symm, ih hx.2]
    rfl

theorem eq_of_splitPart? (h : splitPart? b = some (x, y)) : b = x ++ 0 :: y ∧ 0 ∉ x := by
  induction b generalizing x with
  | nil => cases h
  | cons c b ih =>
    rw [splitPart?] at h
    split at h
    · next hc =>
      cases h
      exact ⟨by rw [hc, List.nil_append], List.not_mem_nil⟩
    · next hc =>
      obtain ⟨⟨x', y'⟩, hx', heq⟩ := Option.map_eq_some_iff.mp h
      cases heq
      obtain ⟨rfl, hzero⟩ := ih hx'
      exact ⟨rfl, by simp [hzero, Ne.symm hc]⟩

/-- A source is read from its bytes and from no others. -/
theorem ofSuffix?_eq_some_iff : ofSuffix? b = some s ↔
    b = Key.sourceBytes s ∧ ZeroFree s.collection ∧ ZeroFree s.path := by
  obtain ⟨c, p, f⟩ := s
  have hbytes : Key.sourceBytes ⟨c, p, f⟩ =
      Bytes.ofText c ++ 0 :: (Bytes.ofText p ++ 0 :: Bytes.ofText f) := by
    simp [Key.sourceBytes, Key.part]
  rw [hbytes]
  constructor
  · intro h
    obtain ⟨⟨x, r⟩, hx, h⟩ := Option.bind_eq_some_iff.mp h
    obtain ⟨⟨y, z⟩, hy, h⟩ := Option.bind_eq_some_iff.mp h
    obtain ⟨c', hc, h⟩ := Option.bind_eq_some_iff.mp h
    obtain ⟨p', hp, h⟩ := Option.bind_eq_some_iff.mp h
    obtain ⟨f', hf, h⟩ := Option.bind_eq_some_iff.mp h
    cases h
    obtain ⟨rfl, hzx⟩ := eq_of_splitPart? hx
    obtain ⟨rfl, hzy⟩ := eq_of_splitPart? hy
    obtain rfl := Bytes.text?_eq_some_iff.mp hc
    obtain rfl := Bytes.text?_eq_some_iff.mp hp
    obtain rfl := Bytes.text?_eq_some_iff.mp hf
    exact ⟨rfl, fun h => hzx (Bytes.zero_mem_ofText.mpr h),
      fun h => hzy (Bytes.zero_mem_ofText.mpr h)⟩
  · rintro ⟨rfl, hc, hp⟩
    simp [ofSuffix?, splitPart?_append hc.zero_notMem, splitPart?_append hp.zero_notMem]

/-- **A source is read from what follows the prefix in the key of its reference exactly if its
collection and its path have no zero byte.** The bytes of a source are its collection, its path and
the path of its field with a zero byte between them. Whatever bytes a source is read from, they are
the bytes of that source, and the first two of its parts have no zero byte. -/
theorem ofSuffix?_exact (g : Generation) (c p : String) (s : Backlink) (b : Bytes) :
    Key.backlinkPrefix g c p <+: (Key.backlink g c p s).encode ∧
    (ofSuffix? ((Key.backlink g c p s).encode.drop (Key.backlinkPrefix g c p).length) = some s ↔
      0 ∉ Bytes.ofText s.collection ∧ 0 ∉ Bytes.ofText s.path) ∧
    Key.sourceBytes s =
      Bytes.ofText s.collection ++ [0] ++ Bytes.ofText s.path ++ [0] ++ Bytes.ofText s.field ∧
    (ofSuffix? b = some s ↔
      Key.sourceBytes s = b ∧ 0 ∉ Bytes.ofText s.collection ∧ 0 ∉ Bytes.ofText s.path) := by
  simp only [← Text.zeroFree_iff]
  refine ⟨List.prefix_append _ _, ?_, ?_, ?_⟩
  · have hdrop : (Key.backlink g c p s).encode.drop (Key.backlinkPrefix g c p).length =
        Key.sourceBytes s := List.drop_left
    rw [hdrop, ofSuffix?_eq_some_iff]
    exact and_iff_right rfl
  · simp [Key.sourceBytes, Key.part]
  · rw [ofSuffix?_eq_some_iff, eq_comm]

/-- The source in a key after the given start. -/
def ofKey (start k : Bytes) : Except StorageError Backlink :=
  match ofSuffix? (k.drop start.length) with
  | some source => .ok source
  | none => .error (.corrupt k.textLossy .malformedReference)

theorem ofKey_eq_ok_iff {start k : Bytes} :
    ofKey start k = .ok s ↔ ofSuffix? (k.drop start.length) = some s := by
  unfold ofKey
  cases ofSuffix? (k.drop start.length) <;> simp

/-- The sources in keys. -/
def ofKeys (start : Bytes) (ks : List Bytes) : Except StorageError (List Backlink) :=
  ks.mapM (ofKey start)

end Backlink

/-- What a lookup makes of the keys that it goes through. -/
theorem Database.on_backlinks {s : Store} {start : Bytes} {rounds : Nat} {scan : Scan}
    {es : List Entry} (hrest : scan.rest s = es) (hrounds : es.length < rounds) :
    (backlinks start rounds scan).on s = some (Backlink.ofKeys start (es.map (·.1))) := by
  induction es generalizing rounds scan with
  | nil =>
    obtain ⟨rounds, rfl⟩ := Nat.exists_eq_add_one.mpr hrounds
    rw [backlinks, Failing.on_bind_ok (Scan.on_next_nil hrest)]
    rfl
  | cons e es ih =>
    obtain ⟨rounds, rfl⟩ := Nat.exists_eq_add_one.mpr (Nat.zero_lt_of_lt hrounds)
    obtain ⟨scan', hnext, hrest'⟩ := Scan.on_next_cons hrest
    have htail := ih hrest' (Nat.lt_of_succ_lt_succ hrounds)
    rw [backlinks, Failing.on_bind_ok hnext, List.map_cons, Backlink.ofKeys, List.mapM_cons, Backlink.ofKey]
    dsimp only
    cases Backlink.ofSuffix? (e.1.drop start.length) with
    | none => rfl
    | some source =>
      show Failing.on s (backlinks start rounds scan' >>= fun rest => pure (source :: rest)) = _
      rw [Failing.on_bind, htail]
      show _ = some (Backlink.ofKeys start (es.map (·.1)) >>= fun rest => pure (source :: rest))
      cases Backlink.ofKeys start (es.map (·.1)) <;> rfl

/-! ### References to a document -/

namespace Record

/-- The source is that of a reference to a document from one of the records. -/
def Refers (D : Set Record) (c p : String) (b : Backlink) : Prop :=
  ∃ r ∈ D, b.collection = r.collection ∧ b.path = r.path ∧ (b.field, ⟨some c, p⟩) ∈ r.references

/-- A reference to another document of the collection has a key that begins like those of the
references to the document. -/
def Clashes (D : Set Record) (c p : String) : Prop :=
  ∃ t b, Refers D c t b ∧ t ≠ p ∧ Key.part p <+: Key.part t ++ Key.sourceBytes b

variable {D : Set Record} {c p : String}

/-- Paths without zeros do not clash. -/
theorem not_clashes_of_zeroFree (hp : ZeroFree p)
    (hD : ∀ r ∈ D, ∀ x ∈ r.references, ZeroFree x.2.path) : ¬ Clashes D c p := by
  rintro ⟨t, b, ⟨r, hr, -, -, hmem⟩, hne, x, hx⟩
  simp only [Key.part, List.append_assoc, List.cons_append, List.nil_append] at hx
  obtain ⟨heq, -⟩ := Key.append_zero_inj hp.zero_notMem (hD r hr _ hmem).zero_notMem hx
  exact hne (Bytes.ofText_inj.mp heq).symm

end Record

namespace FieldValue

/-- The references in the value go to collections of the graph, or to none. -/
def PointsInto (G : Graph) (v : FieldValue) : Prop :=
  ∀ path, ∀ x ∈ v.references path, ∀ c ∈ x.2.collection, ∃ d ∈ G.collections, d.name = c

end FieldValue

/-- The targets of references are found in the graph. -/
theorem Graph.keeps_pointsInto (G : Graph) : G.Keeps (FieldValue.PointsInto G) where
  leaf v hv path x hx := by
    rw [FieldValue.references_of_isLeaf hv] at hx
    cases hx
  reference targets target points path x hx c hc := by
    rw [FieldValue.references, List.mem_singleton] at hx
    subst hx
    obtain ⟨-, -, -, ⟨d, hd, -⟩, -⟩ := points.collection c hc
    exact ⟨d, List.mem_of_find?_eq_some hd, eq_of_find?_name hd⟩
  list items h path x hx := by
    obtain ⟨v, hv, hx⟩ := FieldValue.mem_references_list.mp hx
    exact h v hv path x hx
  object template fields _ h path x hx := by
    obtain ⟨f, hf, hx⟩ := FieldValue.mem_references_object.mp hx
    exact (h f hf).2 _ x hx

/-- The keys of the references of a record. -/
theorem Graph.mem_keys_iff_of_backlink {G : Graph} (hG : G.IsCompiled) {r : Record}
    (hr : G.Locates r) {g : Generation} {k : Bytes} (hk : Key.Family.start g .backlink <+: k) :
    (∃ v, (k, v) ∈ G.entries g r) ↔ ∃ f c t, (f, ⟨some c, t⟩) ∈ r.references ∧
      k = (Key.backlink g c t ⟨r.collection, r.path, f⟩).encode := by
  obtain ⟨col, hcol, hname⟩ := hr.collection
  have hdocument : k ≠ r.key g := fun heq =>
    nomatch Key.Family.eq_of_start hk (Key.document_starts r.collection r.path) heq
  have hmap : (∃ v, (k, v) ∈ G.entries g r) ↔ k ∈ (r.entries g col).map (·.1) := by
    simp [Graph.entries_eq hG hcol hname]
  rw [hmap, Record.mem_keys_iff_of_outlined (Or.inr hk), or_iff_right hdocument,
    Record.backlinkEntries]
  simp only [List.mem_map, List.mem_filterMap, Option.map_eq_some_iff]
  constructor
  · rintro ⟨_, ⟨⟨f, ⟨_, t⟩⟩, href, c, rfl, rfl⟩, rfl⟩
    exact ⟨f, c, t, href, rfl⟩
  · rintro ⟨f, c, t, href, rfl⟩
    exact ⟨_, ⟨_, href, c, rfl, rfl⟩, rfl⟩

namespace Database

variable {db : Database} {U : Set Bytes} {s : Store} {g : Generation} {D : Set Record}
  {c : Graph.Collection} {p : String} {b : Backlink} {k : Bytes} {r : Record}

/-- The collections that a record refers to have names without zeros. -/
theorem Makes.zeroFree_of_target (hG : db.graph.IsCompiled) (h : db.Makes U r) {f c t : String}
    (hx : (f, ⟨some c, t⟩) ∈ r.references) : ZeroFree c := by
  obtain ⟨-, col, hcol, content, -, ws, hrecord⟩ := h
  have hfields := (fields_of_record hG hcol db.graph.keeps_pointsInto hrecord).2
  obtain ⟨f, hf, hx⟩ := List.mem_flatMap.mp hx
  obtain ⟨d, hd, rfl⟩ := (hfields f hf).2 _ _ hx c rfl
  exact (hG.names.1 d hd).1

namespace Tells

/-- What refers to a document has names without zeros. -/
theorem zeroFree_of_refers (hG : db.graph.IsCompiled) (h : db.Tells U s g D) {c : String}
    (hb : Record.Refers D c p b) : ZeroFree b.collection ∧ ZeroFree b.path ∧ ZeroFree b.field := by
  obtain ⟨r, hr, hc, hp, hmem⟩ := hb
  have hlocates := (h.makes r hr).locates hG
  exact ⟨hc ▸ hlocates.zeroFree hG, hp ▸ hlocates.path, hlocates.fields _ hmem⟩

/-- **The keys that a lookup goes through** are those of references to the collection that begin
like the ones of references to the document. -/
theorem mem_backlinkKeys_iff (hG : db.graph.IsCompiled) (h : db.Tells U s g D)
    (hc : c ∈ db.graph.collections) :
    k ∈ (s.within (.ofPrefix (Key.backlinkPrefix g c.name p)) .forward).map (·.1) ↔
      ∃ t b, Record.Refers D c.name t b ∧ Key.part p <+: Key.part t ++ Key.sourceBytes b ∧
        k = (Key.backlink g c.name t b).encode := by
  have hkey (c' t : String) (b : Backlink) : (Key.backlink g c' t b).encode =
      Key.generationPrefix g ++ Bytes.ofText "ref/" ++
        (Key.part c' ++ (Key.part t ++ Key.sourceBytes b)) := by
    simp [Key.encode, Key.backlinkPrefix]
  have hprefix : Key.backlinkPrefix g c.name p =
      Key.generationPrefix g ++ Bytes.ofText "ref/" ++ (Key.part c.name ++ Key.part p) := by
    simp [Key.backlinkPrefix]
  have hmem : k ∈ (s.within (.ofPrefix (Key.backlinkPrefix g c.name p)) .forward).map (·.1) ↔
      Key.backlinkPrefix g c.name p <+: k ∧ ∃ v, s.get? k = some v := by
    simp [Store.mem_within, KeyRange.contains_ofPrefix_iff, and_comm]
  rw [hmem]
  constructor
  · rintro ⟨hstarts, v, hv⟩
    have hfamily : Key.Family.start g .backlink <+: k := by
      refine List.IsPrefix.trans ?_ hstarts
      simp [Key.Family.start, Key.backlinkPrefix]
    obtain ⟨r, hr, hentry⟩ := (h.outlines k (Or.inr hfamily) v).mp hv
    obtain ⟨f, c', t, href, rfl⟩ :=
      (Graph.mem_keys_iff_of_backlink hG ((h.makes r hr).locates hG) hfamily).mp ⟨v, hentry⟩
    rw [hkey, hprefix, List.prefix_append_right_inj] at hstarts
    -- names of collections have no zeros, so the keys begin with the same one
    have hc' := (h.makes r hr).zeroFree_of_target hG href
    obtain ⟨x, hx⟩ := hstarts
    simp only [Key.part, List.append_assoc, List.cons_append, List.nil_append] at hx
    obtain ⟨hname, hx⟩ := Key.append_zero_inj (hG.names.1 c hc).1.zero_notMem hc'.zero_notMem hx
    obtain rfl := Bytes.ofText_inj.mp hname
    exact ⟨t, _, ⟨r, hr, rfl, rfl, href⟩, ⟨x, by simpa [Key.part] using hx⟩, rfl⟩
  · rintro ⟨t, b, ⟨r, hr, hbc, hbp, href⟩, hstarts, rfl⟩
    refine ⟨?_, ?_⟩
    · rw [hkey, hprefix]
      exact (List.prefix_append_right_inj _).mpr ((List.prefix_append_right_inj _).mpr hstarts)
    · obtain ⟨v, hv⟩ := (Graph.mem_keys_iff_of_backlink hG ((h.makes r hr).locates hG)
        (Key.backlink_starts c.name t b)).mpr ⟨b.field, c.name, t, href, by rw [← hbc, ← hbp]⟩
      exact ⟨v, (h.outlines _ (Or.inr (Key.backlink_starts c.name t b)) v).mpr ⟨r, hr, hv⟩⟩

/-- A key is read as a source if it is the key of a reference to the document. -/
theorem eq_of_ofSuffix? (hG : db.graph.IsCompiled) (h : db.Tells U s g D) {c t : String}
    {b b' : Backlink} (hb : Record.Refers D c t b) (hstarts : Key.part p <+: Key.part t ++
      Key.sourceBytes b) (hfield : ZeroFree b'.field)
    (hread : Backlink.ofSuffix? ((Key.backlink g c t b).encode.drop
      (Key.backlinkPrefix g c p).length) = some b') : t = p ∧ b' = b := by
  obtain ⟨x, hx⟩ := hstarts
  have hkey : (Key.backlink g c t b).encode = Key.backlinkPrefix g c p ++ x := by
    simp only [Key.encode, Key.backlinkPrefix, List.append_assoc, hx]
  rw [hkey, List.drop_left] at hread
  obtain ⟨rfl, hcollection, hpath⟩ := Backlink.ofSuffix?_eq_some_iff.mp hread
  simp only [Key.part, List.append_assoc, List.cons_append, List.nil_append] at hx
  obtain ⟨htext, rfl⟩ := Key.sourceBytes_append_inj ⟨hcollection, hpath, hfield⟩
    (h.zeroFree_of_refers hG hb) hx
  exact ⟨(Bytes.ofText_inj.mp htext).symm, rfl⟩

/-- **The keys are read as what they are** if and only if none of another document begins alike. -/
theorem exists_ofKeys_iff (hG : db.graph.IsCompiled) (h : db.Tells U s g D)
    (hc : c ∈ db.graph.collections) :
    (∃ bs, Backlink.ofKeys (Key.backlinkPrefix g c.name p)
        ((s.within (.ofPrefix (Key.backlinkPrefix g c.name p)) .forward).map (·.1)) = .ok bs ∧
      bs.Nodup ∧ ∀ b, b ∈ bs ↔ Record.Refers D c.name p b) ↔ ¬ Record.Clashes D c.name p := by
  have hmem (k : Bytes) := h.mem_backlinkKeys_iff (k := k) (p := p) hG hc
  have hnodup : ((s.within (.ofPrefix (Key.backlinkPrefix g c.name p)) .forward).map (·.1)).Nodup :=
    Direction.Before.nodup (f := id) (List.pairwise_map.mpr (Store.pairwise_within s _ _))
  generalize (s.within (.ofPrefix (Key.backlinkPrefix g c.name p)) .forward).map (·.1) = ks
    at hmem hnodup
  constructor
  · rintro ⟨bs, hbs, -, hright⟩ ⟨t, b, hb, hne, hstarts⟩
    -- the key that begins alike is read as a source, and no reference to the document has that one
    have hread := forall_of_mapM_eq_ok (P := fun k b' =>
      Backlink.ofSuffix? (k.drop (Key.backlinkPrefix g c.name p).length) = some b')
      (fun k _ b' hb' => Backlink.ofKey_eq_ok_iff.mp hb') hbs
    obtain ⟨b', hb', hsuffix⟩ :=
      exists_of_forall₂ hread.flip ((hmem _).mpr ⟨t, b, hb, hstarts, rfl⟩)
    have hfield := (h.zeroFree_of_refers hG ((hright b').mp hb')).2.2
    exact hne (h.eq_of_ofSuffix? hG hb hstarts hfield hsuffix).1
  · intro hclash
    have hone : ∀ k ∈ ks, ∃ b, Record.Refers D c.name p b ∧ k = (Key.backlink g c.name p b).encode := by
      intro k hk
      obtain ⟨t, b, hb, hstarts, rfl⟩ := (hmem k).mp hk
      obtain rfl : t = p := by
        by_contra hne
        exact hclash ⟨t, b, hb, hne, hstarts⟩
      exact ⟨b, hb, rfl⟩
    obtain ⟨bs, hbs, hall⟩ := exists_mapM_eq_ok (f := Backlink.ofKey (Key.backlinkPrefix g c.name p))
      (P := fun k b => Record.Refers D c.name p b ∧ (Key.backlink g c.name p b).encode = k) <| by
        intro k hk
        obtain ⟨b, hb, rfl⟩ := hone k hk
        obtain ⟨hcollection, hpath, -⟩ := h.zeroFree_of_refers hG hb
        refine ⟨b, Backlink.ofKey_eq_ok_iff.mpr ?_, hb, rfl⟩
        rw [Key.encode, List.drop_left]
        exact Backlink.ofSuffix?_eq_some_iff.mpr ⟨rfl, hcollection, hpath⟩
    have hmap : bs.map (fun b => (Key.backlink g c.name p b).encode) = ks.map id :=
      map_eq_of_forall₂ hall fun _ _ hkb => hkb.2
    rw [List.map_id] at hmap
    refine ⟨bs, hbs, List.Nodup.of_map _ (hmap ▸ hnodup), fun b => ⟨fun hb => ?_, fun hb => ?_⟩⟩
    · obtain ⟨-, -, hrefers, -⟩ := exists_of_forall₂ hall hb
      exact hrefers
    · have hk := (hmem _).mpr ⟨p, b, hb, List.prefix_append .., rfl⟩
      rw [← hmap] at hk
      obtain ⟨b', hb', heq⟩ := List.mem_map.mp hk
      obtain ⟨-, -, hrefers, -⟩ := exists_of_forall₂ hall hb'
      rwa [← Key.backlink_inj (h.zeroFree_of_refers hG hrefers) (h.zeroFree_of_refers hG hb) heq]

end Tells

namespace Tells

/-- The references from documents are the keys that say so. -/
theorem refers_iff (hG : db.graph.IsCompiled) (h : db.Tells U s g D)
    (hc : c ∈ db.graph.collections) (hb : ZeroFree b.collection ∧ ZeroFree b.path ∧ ZeroFree b.field) :
    Record.Refers D c.name p b ↔ s.get? (Key.backlink g c.name p b).encode ≠ none := by
  have hmem := h.mem_backlinkKeys_iff (k := (Key.backlink g c.name p b).encode) (p := p) hG hc
  have hkey : (Key.backlink g c.name p b).encode ∈
      (s.within (.ofPrefix (Key.backlinkPrefix g c.name p)) .forward).map (·.1) ↔
        s.get? (Key.backlink g c.name p b).encode ≠ none := by
    have hstarts : Key.backlinkPrefix g c.name p <+: (Key.backlink g c.name p b).encode :=
      List.prefix_append ..
    simp [Store.mem_within, KeyRange.contains_ofPrefix_iff, hstarts, Option.ne_none_iff_exists']
  rw [← hkey, hmem]
  constructor
  · exact fun h => ⟨p, b, h, List.prefix_append .., rfl⟩
  · rintro ⟨t, b', hrefers, hstarts, heq⟩
    obtain rfl := Key.backlink_inj hb (h.zeroFree_of_refers hG hrefers) heq
    simp only [Key.encode, Key.backlinkPrefix, List.append_cancel_right_eq,
      List.append_cancel_left_eq, Key.part, Bytes.ofText_inj] at heq
    rwa [heq]

/-- What a lookup of references returns. -/
theorem run_referencedBy (hG : db.graph.IsCompiled) {host : Host} (h : db.Tells U host.store g D)
    (hc : c ∈ db.graph.collections) (p : String) {rounds : Nat}
    (hrounds : host.store.entries.length < rounds) :
    Host.run (db.referencedBy rounds c.name p).run host =
      (some ((Backlink.ofKeys (Key.backlinkPrefix g c.name p) ((host.store.within
        (.ofPrefix (Key.backlinkPrefix g c.name p)) .forward).map (·.1))).mapError .storage),
        host) := by
  have hcollection : db.collection c.name = .ok c := by
    rw [collection, hG.collection?_eq hc]
  have hlength := Nat.lt_of_le_of_lt (host.store.length_within_le
    (.ofPrefix (Key.backlinkPrefix g c.name p)) .forward) hrounds
  rw [(db.reads_referencedBy rounds c.name p).run_eq, referencedBy, hcollection]
  show (Failing.on host.store (db.snapshot? >>= _), host) = _
  rw [on_snapshot?_bind h.presents, Failing.on_storage,
    on_backlinks (Scan.rest_ofRange ..) hlength]
  rfl

/-- The references to a document are found, each once and no others, if and only if no keys of
references to another one begin alike. -/
theorem exists_references_iff (hG : db.graph.IsCompiled) {host : Host}
    (h : db.Tells U host.store g D) (hc : c ∈ db.graph.collections) (p : String) {rounds : Nat}
    (hrounds : host.store.entries.length < rounds) :
    (∃ bs, Host.run (db.referencedBy rounds c.name p).run host = (some (.ok bs), host) ∧
      bs.Nodup ∧ ∀ b, b ∈ bs ↔ Record.Refers D c.name p b) ↔ ¬ Record.Clashes D c.name p := by
  rw [← h.exists_ofKeys_iff hG hc, h.run_referencedBy hG hc p hrounds]
  cases Backlink.ofKeys (Key.backlinkPrefix g c.name p) ((host.store.within
    (.ofPrefix (Key.backlinkPrefix g c.name p)) .forward).map (·.1)) with
  | ok bs => simp [Except.mapError]
  | error e => simp [Except.mapError]

end Tells

/-- **A lookup of references is exact unless keys begin alike.** In an index that was built by
rebuilds and updates, the references to a document are found, each once and no others, if and only
if no reference to another document of the collection has a key that begins like theirs. If there is
such a reference, then the lookup fails, or it tells of a source that there is not. -/
theorem referencedBy_exact_iff (hG : db.graph.IsCompiled) {host : Host}
    (h : db.Built U host.store) : ∃ g D, db.Tells U host.store g D ∧
      ∀ c ∈ db.graph.collections, ∀ p rounds, host.store.entries.length < rounds →
        ((∃ bs, Host.run (db.referencedBy rounds c.name p).run host = (some (.ok bs), host) ∧
          bs.Nodup ∧ ∀ b, b ∈ bs ↔ Record.Refers D c.name p b) ↔ ¬ Record.Clashes D c.name p) := by
  obtain ⟨g, D, htells⟩ := h.exists_tells hG
  exact ⟨g, D, htells, fun c hc p _ hrounds => htells.exists_references_iff hG hc p hrounds⟩

/-! ### Posts that follow each other -/

/-- A collection of posts, each of which may name the next one. -/
def posts : Graph.Collection :=
  ⟨"posts", "posts", none, none, false, none,
    [⟨"posts", [⟨"next", .reference ["posts"], false, false⟩]⟩]⟩

/-- A database of posts. -/
def thread : Database := ⟨.ofCollections [posts], {}, "body"⟩

theorem thread_compiled : thread.graph.IsCompiled :=
  ⟨⟨[⟨"posts", "posts", none, none, false, none,
    [.mk "next" (.mk .reference false none ["posts"] none [] [])], []⟩]⟩, rfl⟩

/-- Two posts. The second one names a post by a path with a zero in it. -/
def threadFiles : Source.Files :=
  (OrderedMap.empty.insert "posts/a.json"
    (Bytes.ofText "\x7b\"next\":\"posts/c.json\"\x7d")).insert "posts/c.json"
    (Bytes.ofText "\x7b\"next\":\"posts/b.json\\u0000posts\"\x7d")

/-- The index of the two posts. -/
@[irreducible] def threadStore : Store :=
  (thread.rebuild 4).leaves threadFiles 0 OrderedMap.empty

theorem threadStore_built : thread.Built Set.univ threadStore := by
  obtain ⟨report, h⟩ : ∃ report, (thread.rebuild 4).Succeeds threadFiles OrderedMap.empty report
      threadStore := by
    unfold threadStore
    exact Failing.exists_succeeds 0 (by decide +kernel)
  refine .rebuild Store.reachable_empty (fun p b hb => ⟨?_, Set.mem_univ b⟩) h
  have hpaths : ∀ p ∈ threadFiles.keys, ZeroFree p := by decide
  exact hpaths p (Source.Files.mem_keys_of_get? hb)

/-- The second post, which refers. -/
def threadSource : Backlink := ⟨"posts", "posts/c.json", "next"⟩

theorem threadStore_keys :
    threadStore.get? Key.active.encode = some (Generation.toBytes 1) ∧
      threadStore.entries.length < 8 ∧
      threadStore.get? (Key.backlink 1 posts.name "posts/b.json\x00posts" threadSource).encode ≠
        none ∧
      (threadStore.within (.ofPrefix (Key.backlinkPrefix 1 posts.name "posts/b.json\x00posts"))
        .forward).map (·.1) =
        [(Key.backlink 1 posts.name "posts/b.json\x00posts" threadSource).encode] := by
  unfold threadStore
  decide +kernel

/-- A host of the index of the two posts. -/
def threadHost : Host := ⟨threadStore, .files threadFiles, 0, 0, false⟩

/-- The path before the zero clashes with the path of the reference, and not the other way round. -/
theorem thread_clashes {D : Set Record} (h : thread.Tells Set.univ threadStore g D) :
    Record.Clashes D posts.name "posts/b.json" ∧
      ¬ Record.Clashes D posts.name "posts/b.json\x00posts" := by
  obtain ⟨hactive, -, hkey, hwithin⟩ := threadStore_keys
  obtain rfl : g = 1 :=
    Generation.toBytes_injective (Option.some.inj (h.presents.active.symm.trans hactive))
  have hposts : posts ∈ thread.graph.collections := List.mem_singleton_self _
  have hsource : ZeroFree threadSource.collection ∧ ZeroFree threadSource.path ∧
      ZeroFree threadSource.field := by decide
  have hrefers := (h.refers_iff thread_compiled hposts hsource).mpr hkey
  refine ⟨⟨_, _, hrefers, by decide, by decide⟩, ?_⟩
  rintro ⟨t, b, hb, hne, hstarts⟩
  have hmem := (h.mem_backlinkKeys_iff thread_compiled hposts).mpr ⟨t, b, hb, hstarts, rfl⟩
  rw [hwithin, List.mem_singleton] at hmem
  obtain rfl := Key.backlink_inj (h.zeroFree_of_refers thread_compiled hb) hsource hmem
  simp only [Key.encode, Key.backlinkPrefix, List.append_cancel_right_eq,
    List.append_cancel_left_eq, Key.part, Bytes.ofText_inj] at hmem
  exact hne hmem

/-- The references to the path with the zero are found, and those to the path before the zero are
not. -/
theorem referencedBy_exact_iff_thread : ∃ g D, thread.Tells Set.univ threadStore g D ∧
    (∃ bs, Host.run (thread.referencedBy 8 "posts" "posts/b.json\x00posts").run threadHost =
      (some (.ok bs), threadHost) ∧ bs.Nodup ∧
        ∀ b, b ∈ bs ↔ Record.Refers D "posts" "posts/b.json\x00posts" b) ∧
    ¬ ∃ bs, Host.run (thread.referencedBy 8 "posts" "posts/b.json").run threadHost =
      (some (.ok bs), threadHost) ∧ bs.Nodup ∧
        ∀ b, b ∈ bs ↔ Record.Refers D "posts" "posts/b.json" b := by
  obtain ⟨g, D, htells, hexact⟩ :=
    @referencedBy_exact_iff thread Set.univ thread_compiled threadHost threadStore_built
  obtain ⟨hclash, hfree⟩ := thread_clashes htells
  have hlength : threadStore.entries.length < 8 := threadStore_keys.2.1
  have hposts : posts ∈ thread.graph.collections := List.mem_singleton_self _
  refine ⟨g, D, htells, (hexact posts hposts _ 8 hlength).mpr hfree, fun hfound => ?_⟩
  exact (hexact posts hposts _ 8 hlength).mp hfound hclash

/-- **A lookup of references can be wrong** about a document that was indexed. -/
theorem exists_misread : ∃ (db : Database) (host : Host) (c : Graph.Collection) (p : String)
    (rounds : Nat), db.graph.IsCompiled ∧ db.Built Set.univ host.store ∧
      c ∈ db.graph.collections ∧ host.store.entries.length < rounds ∧
      ∀ g D, db.Tells Set.univ host.store g D →
        ¬ ∃ bs, Host.run (db.referencedBy rounds c.name p).run host = (some (.ok bs), host) ∧
          bs.Nodup ∧ ∀ b, b ∈ bs ↔ Record.Refers D c.name p b := by
  refine ⟨thread, threadHost, posts, "posts/b.json", 8, thread_compiled, threadStore_built,
    List.mem_singleton_self _, threadStore_keys.2.1, fun g D htells hfound => ?_⟩
  exact (htells.exists_references_iff thread_compiled (List.mem_singleton_self _) _
    threadStore_keys.2.1).mp hfound (thread_clashes htells).1

end Database

end ContentIndex
