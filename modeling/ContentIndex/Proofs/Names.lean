import ContentIndex.Database
import ContentIndex.Proofs.Conformance
import ContentIndex.Proofs.RecordEntries

/-!
# Names in keys

Keys are split at zero bytes, so the names that are written into them must have none. A schema that
compiles has proper names only, and the fields of a record are those of its template.

## Main definitions

* `Graph.Kind.ZeroFree`: the fields of objects have names without zero
* `Graph.ZeroFree`: all names of a graph are without zero
* `FieldValue.FieldsZeroFree`: the paths of the references in a value are without zero
* `Graph.Keeps`: properties that the values of documents have, whatever they are made of

## Main results

* `Graph.IsCompiled.names`: **compiled graphs have no zero in a name**
* `FieldValue.Conforms.kept`: conforming values have the properties that are kept
* `Database.fields_of_record`: what holds of all values that documents are made of
* `Database.fields_zeroFree_of_record`: **neither have the records of such a graph**
-/

namespace ContentIndex

open Text (ZeroFree)

/-! ### Graphs -/

namespace Graph

mutual

/-- The fields of the objects of the kind have names without zero. -/
def Kind.ZeroFree : Kind → Prop
  | .list items => items.ZeroFree
  | .object templates => Template.AllZeroFree templates
  | _ => True

/-- The fields of the templates have names without zero. -/
def Template.AllZeroFree : List Template → Prop
  | [] => True
  | ⟨_, fields⟩ :: r => Field.AllZeroFree fields ∧ Template.AllZeroFree r

/-- The fields have names without zero. -/
def Field.AllZeroFree : List Field → Prop
  | [] => True
  | ⟨name, kind, _, _⟩ :: r => Text.ZeroFree name ∧ kind.ZeroFree ∧ Field.AllZeroFree r

end

/-- No name of the graph has a zero in it. -/
def ZeroFree (g : Graph) : Prop :=
  ∀ c ∈ g.collections, Text.ZeroFree c.name ∧ Template.AllZeroFree c.templates

theorem zeroFree_of_isName {name : String} (h : isName name) : Text.ZeroFree name := by
  simp only [isName, Bool.and_eq_true, List.all_eq_true] at h
  intro hmem
  have := h.2 _ hmem
  revert this
  decide

mutual

theorem Kind.Declared.zeroFree {names : List String} {k : Kind} (h : k.Declared names) :
    k.ZeroFree := by
  match k with
  | .list items => exact Kind.Declared.zeroFree (k := items) h
  | .object templates => exact Template.allZeroFree_of_declared h.2
  | .string | .number | .boolean | .datetime | .richText | .reference _ => trivial

theorem Template.allZeroFree_of_declared {names : List String} {ts : List Template}
    (h : Template.AllDeclared names ts) : Template.AllZeroFree ts := by
  match ts with
  | [] => trivial
  | ⟨_, fields⟩ :: r =>
    exact ⟨Field.allZeroFree_of_declared h.2.1, Template.allZeroFree_of_declared h.2.2⟩

theorem Field.allZeroFree_of_declared {names : List String} {fs : List Field}
    (h : Field.AllDeclared names fs) : Field.AllZeroFree fs := by
  match fs with
  | [] => trivial
  | ⟨_, kind, _, _⟩ :: r =>
    exact ⟨zeroFree_of_isName h.1.name, h.2.1.zeroFree, Field.allZeroFree_of_declared h.2.2⟩

end

/-- **A compiled graph has proper names, and its collections have different ones.** -/
theorem IsCompiled.names {g : Graph} (h : g.IsCompiled) :
    g.ZeroFree ∧ (g.collections.map (·.name)).Nodup := by
  refine ⟨fun c hc => ?_, h.declared.1⟩
  have hdeclared := h.declared.2 c hc
  exact ⟨zeroFree_of_isName hdeclared.name,
    Template.allZeroFree_of_declared hdeclared.templates⟩

/-- The sortable fields of a collection are fields of its templates. -/
theorem mem_sortableFields {c : Collection} {f : Field} (h : f ∈ c.sortableFields) :
    ∃ t ∈ c.templates, f ∈ t.fields := by
  suffices ∀ (fs acc : List Field), f ∈ fs.foldl Collection.addSortable acc →
      f ∈ acc ∨ f ∈ fs by
    rcases this _ [] h with h | h
    · cases h
    · exact List.mem_flatMap.mp h
  intro fs
  induction fs with
  | nil => exact fun acc h => Or.inl h
  | cons d fs ih =>
    intro acc h
    rcases ih _ h with h | h
    · unfold Collection.addSortable at h
      split at h
      · rcases List.mem_append.mp h with h | h
        · exact Or.inl h
        · exact Or.inr (List.mem_singleton.mp h ▸ List.mem_cons_self ..)
      · exact Or.inl h
    · exact Or.inr (List.mem_cons_of_mem _ h)

theorem zeroFree_of_mem_fields {fs : List Field} (h : Field.AllZeroFree fs) {f : Field}
    (hf : f ∈ fs) : Text.ZeroFree f.name ∧ f.kind.ZeroFree := by
  induction fs with
  | nil => cases hf
  | cons d fs ih =>
    obtain ⟨name, kind, required, indexed⟩ := d
    rcases List.mem_cons.mp hf with rfl | hf
    · exact ⟨h.1, h.2.1⟩
    · exact ih h.2.2 hf

theorem zeroFree_of_mem_templates {ts : List Template} (h : Template.AllZeroFree ts)
    {t : Template} (ht : t ∈ ts) : Field.AllZeroFree t.fields := by
  induction ts with
  | nil => cases ht
  | cons d ts ih =>
    obtain ⟨name, fields⟩ := d
    rcases List.mem_cons.mp ht with rfl | ht
    · exact h.1
    · exact ih h.2 ht

theorem zeroFree_of_sortable {c : Collection} (h : Template.AllZeroFree c.templates) {f : Field}
    (hf : f ∈ c.sortableFields) : Text.ZeroFree f.name := by
  obtain ⟨t, ht, hf⟩ := mem_sortableFields hf
  exact (zeroFree_of_mem_fields (zeroFree_of_mem_templates h ht) hf).1

end Graph

/-! ### Field values -/

/-- The value is neither a reference nor made of others. -/
def FieldValue.IsLeaf : FieldValue → Prop
  | .reference _ | .list _ | .object _ _ => False
  | _ => True

/-- The paths of the references in the value are without zero, if the path to the value is. -/
def FieldValue.FieldsZeroFree (v : FieldValue) : Prop :=
  ∀ path, ZeroFree path → ∀ x ∈ v.references path, ZeroFree x.1

namespace FieldValue

theorem references_of_isLeaf {v : FieldValue} {path : String} (h : v.IsLeaf) :
    v.references path = [] := by
  cases v <;> first | rfl | exact h.elim

theorem mem_references_list {items : List FieldValue} {path : String} {x : String × Target} :
    x ∈ (list items).references path ↔ ∃ v ∈ items, x ∈ v.references path := by
  rw [references]
  induction items with
  | nil => simp [itemReferences]
  | cons v items ih => simp [itemReferences, ih]

theorem mem_references_object {template : String} {fields : List (String × FieldValue)}
    {path : String} {x : String × Target} : x ∈ (object template fields).references path ↔
      ∃ f ∈ fields, x ∈ f.2.references (path ++ "." ++ f.1) := by
  rw [references]
  induction fields with
  | nil => simp [memberReferences]
  | cons f fields ih =>
    obtain ⟨name, v⟩ := f
    simp [memberReferences, ih]

theorem fieldsZeroFree_list {items : List FieldValue} (h : ∀ v ∈ items, v.FieldsZeroFree) :
    (list items).FieldsZeroFree := by
  intro path hpath x hx
  obtain ⟨v, hv, hx⟩ := mem_references_list.mp hx
  exact h v hv path hpath x hx

theorem fieldsZeroFree_object {template : String} {fields : List (String × FieldValue)}
    (h : ∀ f ∈ fields, ZeroFree f.1 ∧ f.2.FieldsZeroFree) :
    (object template fields).FieldsZeroFree := by
  intro path hpath x hx
  obtain ⟨f, hf, hx⟩ := mem_references_object.mp hx
  obtain ⟨hname, hv⟩ := h f hf
  refine hv _ ((hpath.append ?_).append hname) x hx
  decide

end FieldValue

/-! ### Values of documents -/

namespace Graph

/-- The fields have names without zero, and so have their values. -/
def FieldsNamed (fields : List (String × FieldValue)) : Prop :=
  ∀ f ∈ fields, Text.ZeroFree f.1 ∧ f.2.FieldsZeroFree

/-- Whatever values of documents are made of, they have the property. The names of the fields of
objects are without zero. -/
structure Keeps (G : Graph) (P : FieldValue → Prop) : Prop where
  /-- Values that are not made of others have it. -/
  leaf : ∀ v : FieldValue, v.IsLeaf → P v
  /-- References have it. -/
  reference : ∀ targets t, G.Points targets t → P (.reference t)
  /-- Lists of values that have it have it. -/
  list : ∀ items, (∀ v ∈ items, P v) → P (.list items)
  /-- Objects of values that have it have it. -/
  object : ∀ template fields, Entries.Sorted fields →
    (∀ f ∈ fields, Text.ZeroFree f.1 ∧ P f.2) → P (.object template fields)

/-- The paths of references have no zero. -/
theorem keeps_fieldsZeroFree (G : Graph) : G.Keeps FieldValue.FieldsZeroFree where
  leaf v hv path _ x hx := by
    rw [FieldValue.references_of_isLeaf hv] at hx
    cases hx
  reference targets target _ path hpath x hx := by
    rw [FieldValue.references, List.mem_singleton] at hx
    rw [hx]
    exact hpath
  list _ h := FieldValue.fieldsZeroFree_list h
  object _ _ _ h := FieldValue.fieldsZeroFree_object h

end Graph

/-- **Values that conform to a kind have what is kept.** -/
theorem FieldValue.Conforms.kept {G : Graph} {P : FieldValue → Prop} (hP : G.Keeps P)
    {v : FieldValue} {k : Graph.Kind} (h : v.Conforms G k) (hk : k.ZeroFree) : P v := by
  induction h with
  | string | number | boolean | datetime | richText => exact hP.leaf _ trivial
  | reference points => exact hP.reference _ _ points
  | list all ih => exact hP.list _ fun v hv => ih v hv hk
  | object template sorted declared required values ih =>
    refine hP.object _ _ sorted fun x hx => ?_
    obtain ⟨f, hf⟩ := Option.isSome_iff_exists.mp (declared x hx)
    obtain ⟨hname, hkind⟩ := Graph.zeroFree_of_mem_fields
      (Graph.zeroFree_of_mem_templates hk template) (List.mem_of_find?_eq_some hf)
    exact ⟨eq_of_find?_name hf ▸ hname, ih x hx f hf hkind⟩

/-! ### Records -/

/-- A record is of the collection and the path that it is made for. -/
theorem Graph.Collection.eq_of_record {G : Graph} {c : Graph.Collection} {policy : TemplatePolicy}
    {path contentHash : String} {document : Json.Value} {r : Record} {ws : List Warning}
    (h : c.record G policy path contentHash document = .ok (r, ws)) :
    r.collection = c.name ∧ r.path = path ∧ r.contentHash = contentHash := by
  unfold record at h
  cases document with
  | object members =>
    obtain ⟨t, -, h⟩ := exists_of_bind_eq_ok h
    obtain ⟨⟨fields, warnings⟩, -, h⟩ := exists_of_bind_eq_ok h
    cases h
    exact ⟨rfl, rfl, rfl⟩
  | _ => cases h

namespace Database

variable {db : Database} {c : Graph.Collection} {path : String} {content : Bytes} {r : Record}
  {ws : List Warning}

/-- A record is made of the members of an object. -/
theorem exists_members_of_record (h : db.record c path content = .ok (r, ws)) :
    ∃ members, c.record db.graph db.settings.templatePolicy path (Sha256.hex content)
      (.object members) = .ok (r, ws) := by
  unfold record at h
  obtain ⟨members, -, h⟩ := exists_of_bind_eq_ok h
  exact ⟨members, h⟩

/-- A record is of the path and the collection that it was asked for, and it names the hash of the
content. -/
theorem eq_of_record (h : db.record c path content = .ok (r, ws)) :
    r.collection = c.name ∧ r.path = path ∧ r.contentHash = Sha256.hex content := by
  obtain ⟨members, h⟩ := exists_members_of_record h
  exact Graph.Collection.eq_of_record h

/-- Records conform to their collections. -/
theorem conforms_of_record (hG : db.graph.IsCompiled) (hc : c ∈ db.graph.collections)
    (h : db.record c path content = .ok (r, ws)) : r.Conforms db.graph c := by
  obtain ⟨members, h⟩ := exists_members_of_record h
  exact Graph.Collection.conforms_of_record (hG.declared.2 c hc) h

/-- **The fields of a record are made of values of documents**, and so have all that such values
have. They are in order. -/
theorem fields_of_record {P : FieldValue → Prop} (hG : db.graph.IsCompiled)
    (hc : c ∈ db.graph.collections) (hP : db.graph.Keeps P)
    (h : db.record c path content = .ok (r, ws)) :
    Entries.Sorted r.fields ∧ ∀ f ∈ r.fields, ZeroFree f.1 ∧ P f.2 := by
  have hconforms := conforms_of_record hG hc h
  refine ⟨hconforms.sorted, fun x hx => ?_⟩
  obtain ⟨t, ht, f, hf, hvalue⟩ := hconforms.exists_field hx
  obtain ⟨hname, hkind⟩ := Graph.zeroFree_of_mem_fields
    (Graph.zeroFree_of_mem_templates (hG.names.1 c hc).2 ht) (List.mem_of_find?_eq_some hf)
  exact ⟨eq_of_find?_name hf ▸ hname, hvalue.kept hP hkind⟩

/-- **The references in a record have paths without zero.** -/
theorem fields_zeroFree_of_record (hG : db.graph.IsCompiled) (hc : c ∈ db.graph.collections)
    (h : db.record c path content = .ok (r, ws)) : ∀ x ∈ r.references, ZeroFree x.1 := by
  have hnamed : Graph.FieldsNamed r.fields :=
    (fields_of_record hG hc db.graph.keeps_fieldsZeroFree h).2
  intro x hx
  obtain ⟨f, hf, hx⟩ := List.mem_flatMap.mp hx
  exact (hnamed f hf).2 _ (hnamed f hf).1 x hx

end Database

end ContentIndex
