import ContentIndex.Proofs.Names
import ContentIndex.Proofs.RecordEntries
import ContentIndex.Proofs.StoredValues

/-!
# Reading records again

A record that is read from its bytes need not be the one that was written: its numbers may be
others, and if it is nested too deep then it is not read at all. But what is read has the collection,
the path, the template, the hash, the names and the references of what was written. So it tells
which keys of documents and of references were written with it, and where it refers to others.

## Main definitions

* `FieldValue.Ordered`: the fields of all objects in a value are in order
* `FieldValue.Echoes`: values that differ in texts, numbers and the like only
* `Record.Resembles`: records that differ in such values only

## Main results

* `FieldValue.echoes_of_ofDraft?`: what is read of a value echoes it
* `Record.resembles_of_ofBytes?`: **what is read of a record resembles it**
* `Database.ordered_of_record`: the records of documents are in order
-/

namespace ContentIndex

open Json (Draft MemberName Value)

/-! ### Lists in order -/

namespace Entries

variable {κ α : Type} [DecidableEq κ] [LT κ] [DecidableLT κ]

omit [DecidableEq κ] [DecidableLT κ] in
/-- The order is one of the keys. -/
theorem sorted_of_names {β : Type} {l : List (κ × α)} {m : List (κ × β)}
    (h : l.map (·.1) = m.map (·.1)) (hm : Sorted m) : Sorted l := by
  have hsorted : (m.map (·.1)).Pairwise (· < ·) := List.pairwise_map.mpr hm
  exact List.pairwise_map.mp (h ▸ hsorted)

theorem insert_of_forall_lt {k : κ} {v : α} {l : List (κ × α)} (h : ∀ e ∈ l, e.1 < k) :
    insert k v l = l ++ [(k, v)] := by
  induction l with
  | nil => rfl
  | cons e l ih =>
    have hlt : e.1 < k := h e (List.mem_cons_self ..)
    simp [insert, hlt, ih fun e he => h e (List.mem_cons_of_mem _ he)]

/-- A list in order is a map as it is. -/
theorem ofList_eq_self {l : List (κ × α)} (h : Sorted l) : ofList l = l := by
  induction l using List.reverseRecOn with
  | nil => rfl
  | append_singleton l e ih =>
    obtain ⟨hl, -, hlast⟩ := List.pairwise_append.mp h
    rw [ofList_concat, ih hl, insert_of_forall_lt fun d hd => hlast d hd e (List.mem_singleton_self _)]

end Entries

/-! ### Values -/

namespace FieldValue

mutual

/-- The fields of all objects in the value are in order. -/
def Ordered : FieldValue → Prop
  | .list items => ItemsOrdered items
  | .object _ fields => Entries.Sorted fields ∧ FieldsOrdered fields
  | _ => True

/-- The fields of all objects in the items are in order. -/
def ItemsOrdered : List FieldValue → Prop
  | [] => True
  | v :: r => v.Ordered ∧ ItemsOrdered r

/-- The fields of all objects in the values of the fields are in order. -/
def FieldsOrdered : List (String × FieldValue) → Prop
  | [] => True
  | (_, v) :: r => v.Ordered ∧ FieldsOrdered r

end

/-- The fields are in order, and so are those of all objects in them. -/
def InOrder (fields : List (String × FieldValue)) : Prop :=
  Entries.Sorted fields ∧ FieldsOrdered fields

theorem itemsOrdered_iff {items : List FieldValue} : ItemsOrdered items ↔ ∀ v ∈ items, v.Ordered := by
  induction items with
  | nil => simp [ItemsOrdered]
  | cons v items ih => simp [ItemsOrdered, ih]

theorem fieldsOrdered_iff {fields : List (String × FieldValue)} :
    FieldsOrdered fields ↔ ∀ f ∈ fields, f.2.Ordered := by
  induction fields with
  | nil => simp [FieldsOrdered]
  | cons f fields ih =>
    obtain ⟨name, v⟩ := f
    simp [FieldsOrdered, ih]

mutual

/-- The values have the same tags, names and references, in the same places. -/
inductive Echoes : FieldValue → FieldValue → Prop
  | reference (t : Target) : Echoes (.reference t) (.reference t)
  | list {vs ws : List FieldValue} (items : ItemsEcho vs ws) : Echoes (.list vs) (.list ws)
  | object (template : String) {fs gs : List (String × FieldValue)} (fields : FieldsEcho fs gs) :
      Echoes (.object template fs) (.object template gs)
  | plain {v w : FieldValue} (tag : v.tag = w.tag)
      (other : v.tag ≠ "list" ∧ v.tag ≠ "object" ∧ v.tag ≠ "reference") : Echoes v w

/-- The items echo each other. -/
inductive ItemsEcho : List FieldValue → List FieldValue → Prop
  | nil : ItemsEcho [] []
  | cons {v w : FieldValue} {vs ws : List FieldValue} (first : Echoes v w)
      (rest : ItemsEcho vs ws) : ItemsEcho (v :: vs) (w :: ws)

/-- The fields have the same names, and values that echo each other. -/
inductive FieldsEcho : List (String × FieldValue) → List (String × FieldValue) → Prop
  | nil : FieldsEcho [] []
  | cons (name : String) {v w : FieldValue} {fs gs : List (String × FieldValue)}
      (first : Echoes v w) (rest : FieldsEcho fs gs) :
      FieldsEcho ((name, v) :: fs) ((name, w) :: gs)

end

/-- Only lists, objects and references have references. -/
theorem references_of_tag {v : FieldValue}
    (h : v.tag ≠ "list" ∧ v.tag ≠ "object" ∧ v.tag ≠ "reference") (path : String) :
    v.references path = [] := by
  cases v with
  | list items => exact absurd rfl h.1
  | object template fields => exact absurd rfl h.2.1
  | reference t => exact absurd rfl h.2.2
  | _ => rfl

mutual

/-- Values that echo each other have the same references. -/
theorem Echoes.references_eq : ∀ {v w : FieldValue}, v.Echoes w → ∀ path,
    v.references path = w.references path
  | _, _, .reference _, _ => rfl
  | _, _, .list items, path => items.references_eq path
  | _, _, .object _ fields, path => fields.references_eq path
  | _, _, .plain tag other, path => by
    rw [references_of_tag other, references_of_tag (tag ▸ other)]

theorem ItemsEcho.references_eq : ∀ {vs ws : List FieldValue}, ItemsEcho vs ws → ∀ path,
    itemReferences path vs = itemReferences path ws
  | _, _, .nil, _ => rfl
  | _, _, .cons hv h, path => by
    rw [itemReferences, itemReferences, hv.references_eq path, h.references_eq path]

theorem FieldsEcho.references_eq : ∀ {fs gs : List (String × FieldValue)}, FieldsEcho fs gs →
    ∀ path, memberReferences path fs = memberReferences path gs
  | _, _, .nil, _ => rfl
  | _, _, .cons _ hv h, path => by
    rw [memberReferences, memberReferences, hv.references_eq, h.references_eq path]

end

variable {fs gs : List (String × FieldValue)}

theorem FieldsEcho.flatMap_references_eq (h : FieldsEcho fs gs) :
    (fs.flatMap fun (name, v) => v.references name) =
      gs.flatMap fun (name, v) => v.references name := by
  induction fs generalizing gs with
  | nil =>
    cases h
    rfl
  | cons f fs ih =>
    cases h with
    | cons name hv h =>
      rw [List.flatMap_cons, List.flatMap_cons, ih h]
      exact congrArg (· ++ _) (hv.references_eq name)

/-- An item has an echo. -/
theorem ItemsEcho.exists_of_mem {vs ws : List FieldValue} (h : ItemsEcho vs ws) {v : FieldValue}
    (hv : v ∈ vs) : ∃ w ∈ ws, v.Echoes w := by
  induction vs generalizing ws with
  | nil => cases hv
  | cons v' vs ih =>
    cases h with
    | @cons _ w _ ws first rest =>
      rcases List.mem_cons.mp hv with rfl | hv
      · exact ⟨w, List.mem_cons_self .., first⟩
      · obtain ⟨w, hw, hecho⟩ := ih rest hv
        exact ⟨w, List.mem_cons_of_mem _ hw, hecho⟩

/-- A field that is set has an echo. -/
theorem FieldsEcho.exists_of_find? (h : FieldsEcho fs gs) {name : String} {v : FieldValue}
    (hv : Entries.find? name fs = some v) : ∃ w, Entries.find? name gs = some w ∧ v.Echoes w := by
  induction fs generalizing gs with
  | nil => cases hv
  | cons f fs ih =>
    cases h with
    | @cons name' v' w' _ gs first rest =>
      rw [Entries.find?] at hv ⊢
      split at hv
      · next hname =>
        cases hv
        exact ⟨w', if_pos hname, first⟩
      · next hname =>
        rw [if_neg hname]
        exact ih rest hv

/-- Fields of the same names are in the same order. -/
theorem FieldsEcho.sorted (h : FieldsEcho fs gs) (hgs : Entries.Sorted gs) :
    Entries.Sorted fs := by
  have hnames : fs.map (·.1) = gs.map (·.1) := by
    clear hgs
    induction fs generalizing gs with
    | nil =>
      cases h
      rfl
    | cons f fs ih =>
      cases h with
      | cons name first rest => rw [List.map_cons, List.map_cons, ih rest]
  exact Entries.sorted_of_names hnames hgs

/-! ### Reading values -/

/-- What is read of a tag and its content. -/
theorem ofDraft?_echo_tagged (tag : String) (v : Value) (depth : Nat) :
    ofDraft? false ((tagged tag v).echo depth) =
      if depth < Json.Parser.maxDepth then content? false tag (v.echo (depth + 1)) else none := by
  rw [tagged, Value.echo]
  split
  · simp [Value.memberEchoes, Value.echo, ofDraft?, Draft.members?, Draft.namedMember?,
      Draft.uniqueMember?, Draft.bareName?, Draft.bareVariant?, Draft.variant?, MemberName.text?,
      contentFirst, contentIn?]
  · rfl

/-- What is read of the content of a tag has the tag, unless that stands for other values or for a
reference. -/
theorem tag_of_content? {tag : String} {d : Draft} {w : FieldValue}
    (htag : tag ≠ "list" ∧ tag ≠ "object" ∧ tag ≠ "reference")
    (h : content? false tag d = some w) : w.tag = tag := by
  have hleaf {d : Draft} (h : leaf? tag d = some w) : w.tag = tag := by
    unfold leaf? at h
    split at h
    · obtain ⟨s, -, rfl⟩ := Option.map_eq_some_iff.mp h
      rfl
    · obtain ⟨x, -, rfl⟩ := Option.map_eq_some_iff.mp h
      rfl
    · obtain ⟨b, -, rfl⟩ := Option.map_eq_some_iff.mp h
      rfl
    · obtain ⟨s, -, rfl⟩ := Option.map_eq_some_iff.mp h
      rfl
    · obtain ⟨v, -, rfl⟩ := Option.map_eq_some_iff.mp h
      rfl
    · exact absurd rfl htag.2.2
    · cases h
  cases d with
  | array items =>
    rw [content?.eq_def] at h
    simp only [if_neg htag.1, if_neg htag.2.1] at h
    exact hleaf h
  | object members =>
    rw [content?, if_neg htag.2.1] at h
    exact hleaf h
  | _ => exact hleaf h

/-- A target is read as it was written, if it is read. -/
theorem eq_of_target {t : Target} {depth : Nat} {w : FieldValue}
    (h : content? false "reference" (Value.echo depth (.object
      [("collection", .optionalString t.collection), ("path", .string t.path)])) = some w) :
    w = .reference t := by
  rw [Value.echo] at h
  split at h
  · obtain ⟨collection, path⟩ := t
    cases collection <;>
      simp [Value.memberEchoes, Value.echo, Value.optionalString, content?, leaf?, target?,
        Draft.fields?, Draft.members?, Draft.fieldsAmong?, Draft.uniqueMember?, MemberName.names,
        Draft.optional, Draft.nullable?, Draft.string?] at h <;>
      exact h.symm
  · cases h

mutual

/-- **What is read of a value echoes it.** -/
theorem echoes_of_ofDraft? : ∀ (v : FieldValue) (depth : Nat) (w : FieldValue), v.Ordered →
    ofDraft? false (v.toValue.echo depth) = some w → w.Echoes v
  | .list items, depth, w, hv, h => by
    rw [toValue, ofDraft?_echo_tagged] at h
    split at h
    · rw [Value.echo] at h
      split at h
      · rw [content?.eq_def] at h
        simp only [if_true] at h
        obtain ⟨ws, hws, rfl⟩ := Option.map_eq_some_iff.mp h
        exact .list (echoes_of_itemsOf? items _ ws hv hws)
      · cases h
    · cases h
  | .object template fields, depth, w, hv, h => by
    rw [toValue, ofDraft?_echo_tagged] at h
    split at h
    · rw [Value.echo] at h
      split at h
      · obtain ⟨fs, hfs, rfl⟩ : ∃ fs, fieldMap? false
            (Value.echo (depth + 1 + 1) (.object (fieldsToValue fields))) = some fs ∧
              .object template fs = w := by
          simpa [Value.memberEchoes, content?, Draft.members?, Draft.namedMember?,
            Draft.uniqueMember?, Value.echo.eq_4, Draft.string?, fieldsIn?,
            Option.bind_eq_some_iff] using h
        exact .object template (echoes_of_fieldMap? fields _ fs hv.1 hv.2 hfs)
      · cases h
    · cases h
  | .reference t, depth, w, _, h => by
    rw [toValue, ofDraft?_echo_tagged] at h
    split at h
    · rw [eq_of_target h]
      exact .reference t
    · cases h
  | .string _, _, _, _, h | .number _, _, _, _, h | .boolean _, _, _, _, h
  | .datetime _, _, _, _, h | .richText _, _, _, _, h => by
    rw [toValue, ofDraft?_echo_tagged] at h
    split at h
    · have htag := tag_of_content? (by decide) h
      exact .plain htag (by rw [htag]; decide)
    · cases h

/-- What is read of items echoes each. -/
theorem echoes_of_itemsOf? : ∀ (items : List FieldValue) (depth : Nat) (ws : List FieldValue),
    ItemsOrdered items →
    itemsOf? false (Value.itemEchoes depth (itemsToValue items)) = some ws →
    ItemsEcho ws items
  | [], _, _, _, h => by
    cases h
    exact .nil
  | v :: r, depth, ws, hv, h => by
    rw [itemsToValue, Value.itemEchoes, itemsOf?] at h
    obtain ⟨w, hw, h⟩ := Option.bind_eq_some_iff.mp h
    obtain ⟨ws', hws, h⟩ := Option.bind_eq_some_iff.mp h
    cases h
    exact .cons (echoes_of_ofDraft? v depth w hv.1 hw)
      (echoes_of_itemsOf? r depth ws' hv.2 hws)

/-- What is read of a field map echoes its fields. -/
theorem echoes_of_fieldMap? (fields : List (String × FieldValue)) (depth : Nat)
    (fs : List (String × FieldValue)) (hsorted : Entries.Sorted fields)
    (hordered : FieldsOrdered fields)
    (h : fieldMap? false (Value.echo depth (.object (fieldsToValue fields))) = some fs) :
    FieldsEcho fs fields := by
  rw [Value.echo] at h
  split at h
  · obtain ⟨es, hes, rfl⟩ := Option.map_eq_some_iff.mp h
    have hechoes := echoes_of_entriesOf? fields _ es hordered hes
    rwa [Entries.ofList_eq_self (hechoes.sorted hsorted)]
  · cases h

/-- What is read of the entries of a field map echoes them. -/
theorem echoes_of_entriesOf? : ∀ (fields : List (String × FieldValue)) (depth : Nat)
    (es : List (String × FieldValue)), FieldsOrdered fields →
    entriesOf? false (Value.memberEchoes depth (fieldsToValue fields)) = some es →
    FieldsEcho es fields
  | [], _, _, _, h => by
    cases h
    exact .nil
  | (name, v) :: r, depth, es, hv, h => by
    rw [fieldsToValue, Value.memberEchoes, entriesOf?] at h
    obtain ⟨name', hname, h⟩ := Option.bind_eq_some_iff.mp h
    obtain ⟨w, hw, h⟩ := Option.bind_eq_some_iff.mp h
    obtain ⟨es', hes, h⟩ := Option.bind_eq_some_iff.mp h
    cases h
    cases hname
    exact .cons name (echoes_of_ofDraft? v depth w hv.1 hw)
      (echoes_of_entriesOf? r depth es' hv.2 hes)

end

end FieldValue

/-! ### Records -/

namespace Record

/-- The fields of the record are in order, and so are those of all objects in them. -/
def Ordered (r : Record) : Prop := FieldValue.InOrder r.fields

/-- The records are of one document and of one content, and their fields echo each other. -/
structure Resembles (r r' : Record) : Prop where
  /-- The collection. -/
  collection : r.collection = r'.collection
  /-- The path. -/
  path : r.path = r'.path
  /-- The template. -/
  template : r.template = r'.template
  /-- The hash of the content. -/
  contentHash : r.contentHash = r'.contentHash
  /-- The fields. -/
  fields : FieldValue.FieldsEcho r.fields r'.fields

variable {r r' : Record}

/-- The records have the same references. -/
theorem Resembles.references (h : r.Resembles r') : r.references = r'.references :=
  h.fields.flatMap_references_eq

/-- **What is read of a record resembles it.** -/
theorem resembles_of_ofBytes? (h : ofBytes? r.toBytes = some r') (hr : r.Ordered) :
    r'.Resembles r := by
  rw [ofBytes?, toBytes, Draft.ofBytes?_bytes, Option.bind_some, toValue, Value.echo,
    if_pos (by decide)] at h
  obtain ⟨collection, path, template, fields, contentHash⟩ := r
  obtain ⟨fs, hfs, rfl⟩ : ∃ fs, FieldValue.fieldMap? false
      (Value.echo 1 (.object (FieldValue.fieldsToValue fields))) = some fs ∧
        ⟨collection, path, template, fs, contentHash⟩ = r' := by
    simpa [Value.memberEchoes, ofDraft?, Draft.fields?, Draft.members?, Draft.fieldsAmong?,
      Draft.uniqueMember?, MemberName.names, Draft.string?, Value.echo.eq_4,
      Option.bind_eq_some_iff] using h
  exact ⟨rfl, rfl, rfl, rfl, FieldValue.echoes_of_fieldMap? fields _ fs hr.1 hr.2 hfs⟩

end Record

/-! ### Records of documents -/

namespace Graph

/-- The fields of objects are in order. -/
theorem keeps_ordered (G : Graph) : G.Keeps FieldValue.Ordered where
  leaf v hv := by
    cases v <;> trivial
  reference _ _ _ := trivial
  list _ h := FieldValue.itemsOrdered_iff.mpr h
  object _ _ hsorted h := ⟨hsorted, FieldValue.fieldsOrdered_iff.mpr fun f hf => (h f hf).2⟩

end Graph

/-- **The records of documents are in order.** -/
theorem Database.ordered_of_record {db : Database} {c : Graph.Collection} {path : String}
    {content : Bytes} {r : Record} {ws : List Warning} (hG : db.graph.IsCompiled)
    (hc : c ∈ db.graph.collections) (h : db.record c path content = .ok (r, ws)) :
    r.Ordered := by
  obtain ⟨hsorted, hfields⟩ := fields_of_record hG hc db.graph.keeps_ordered h
  exact ⟨hsorted, FieldValue.fieldsOrdered_iff.mpr fun f hf => (hfields f hf).2⟩

end ContentIndex
