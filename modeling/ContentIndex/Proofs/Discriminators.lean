import ContentIndex.Proofs.Answers
import ContentIndex.Proofs.LostUpdates

/-!
# Templates in answers

A document or an object that has a choice of templates is shown with the template that it has, whether
or not the template is selected. But if nothing in particular is selected of something, then what is
in it is shown as it is stored, and there the objects have no templates. So an object is shown with its
template, if and only if it is not inside of something that is shown as a whole.

## Main definitions

* `FieldValue.Suits`, `Store.Suits`: stored values of a kind, and documents of a generation
* `Manner`: whether something is shown by a selection, or inside of something that is shown as a whole
* `Manner.Leads`: how the fields of something are shown
* `Query.Exhibits`: what is shown at each place of an answer, and how

## Main results

* `Graph.suits_of_interleaving`: the documents of an index suit their collections
* `Query.appears_of_exhibits`: what is shown at a place mirrors the selection there
* `Database.discriminates_iff_not_buried`: **objects are shown with their templates unless they are
  inside of something that is shown as a whole**
-/

namespace ContentIndex

open Graph (Kind Template Reserved systemTemplate)
open Json (Value)

/-! ### Stored values -/

/-- What is stored echoes a value that conforms to its kind, and the kind is well declared. -/
def FieldValue.Suits (G : Graph) (k : Kind) (v : FieldValue) : Prop :=
  ∃ w, v.Echoes w ∧ w.Conforms G k ∧ k.Declared (G.collections.map (·.name))

/-- A field that an object has is stored with it. -/
theorem Composite.find?_of_field? {d : Composite} {name : String} {k : Kind} {v : FieldValue}
    (h : d.field? name = some (k, v)) : Entries.find? name d.fields = some v := by
  obtain ⟨u, -, h⟩ := Option.bind_eq_some_iff.mp h
  obtain ⟨f, -, h⟩ := Option.bind_eq_some_iff.mp h
  obtain ⟨fv, hfv, h⟩ := Option.bind_eq_some_iff.mp h
  cases h
  exact hfv

namespace FieldValue.Suits

variable {G : Graph} {templates : List Template} {template name : String}
  {fields : List (String × FieldValue)} {k : Kind} {v : FieldValue}

theorem item {items : Kind} {vs : List FieldValue} (h : (FieldValue.list vs).Suits G (.list items))
    (hv : v ∈ vs) : v.Suits G items := by
  obtain ⟨w, hecho, hconforms, hdeclared⟩ := h
  cases hecho with
  | list hitems =>
    cases hconforms with
    | list all =>
      obtain ⟨w, hw, hecho⟩ := hitems.exists_of_mem hv
      exact ⟨w, hecho, all w hw, hdeclared⟩
  | plain _ other => exact absurd rfl other.1

/-- The fields of an object are in order. -/
theorem sorted (h : (FieldValue.object template fields).Suits G (.object templates)) :
    Entries.Sorted fields := by
  obtain ⟨w, hecho, hconforms, -⟩ := h
  cases hecho with
  | object _ hfields =>
    cases hconforms with
    | object _ hsorted _ _ _ => exact hfields.sorted hsorted
  | plain _ other => exact absurd rfl other.2.1

/-- Each of them is declared by the template, and its name is not that of a system field. -/
theorem of_find? (h : (FieldValue.object template fields).Suits G (.object templates))
    (hv : Entries.find? name fields = some v) : ¬ Reserved name ∧
      ∃ k, (Composite.ofObject templates template fields).field? name = some (k, v) ∧ v.Suits G k := by
  obtain ⟨w, hecho, hconforms, hdeclared⟩ := h
  cases hecho with
  | object _ hfields =>
    cases hconforms with
    | @object _ u _ hu hsorted hnames required hvalues =>
      obtain ⟨w, hw, hecho⟩ := hfields.exists_of_find? hv
      have hmem := (Entries.find?_eq_some_iff hsorted).mp hw
      obtain ⟨f, hf⟩ := Option.isSome_iff_exists.mp (hnames _ hmem)
      have hproper := Graph.Field.allDeclared_iff.mp
        (Template.allDeclared_iff.mp hdeclared.2 u hu).2 f (List.mem_of_find?_eq_some hf)
      have hname : f.name = name := eq_of_find?_name hf
      refine ⟨hname ▸ hproper.1.free, f.kind, ?_, w, hecho, hvalues _ hmem f hf, hproper.2⟩
      have hfound := find?_name_eq hdeclared.1.names hu
      exact Option.bind_eq_some_iff.mpr ⟨u, hfound, Option.bind_eq_some_iff.mpr ⟨f, hf,
        Option.bind_eq_some_iff.mpr ⟨v, hv, rfl⟩⟩⟩
  | plain _ other => exact absurd rfl other.2.1

/-- So the value of a field suits the kind of the field. -/
theorem of_field? (h : (FieldValue.object template fields).Suits G (.object templates))
    (hfield : (Composite.ofObject templates template fields).field? name = some (k, v)) :
    ¬ Reserved name ∧ v.Suits G k := by
  obtain ⟨hfree, k', hfield', hsuits⟩ := h.of_find? (Composite.find?_of_field? hfield)
  rw [hfield] at hfield'
  cases hfield'
  exact ⟨hfree, hsuits⟩

end FieldValue.Suits

/-- What is read of a record that was made for a document suits the collection. -/
theorem Graph.Makes.suits {G : Graph} (hG : G.IsCompiled) {c : Graph.Collection}
    (hc : c ∈ G.collections) {r r₀ : Record} (hmakes : G.Makes c r₀) {k : Bytes}
    (hr : Record.ofStored? k (some r₀.toBytes) = .ok (some r)) :
    (FieldValue.object r.template r.fields).Suits G (.object c.templates) := by
  obtain ⟨db, rfl, content, ws, hrecord⟩ := hmakes.made
  have hresembles : r.Resembles r₀ := by
    rw [Record.ofStored?] at hr
    split at hr
    · next r' hr' =>
      cases hr
      exact Record.resembles_of_ofBytes? hr' (Database.ordered_of_record hG hc hrecord)
    · cases hr
  have hdeclared := hG.declared.2 c hc
  refine ⟨_, .object r.template hresembles.fields, ?_, hdeclared.union, hdeclared.templates⟩
  rw [hresembles.template]
  exact Database.conforms_of_record hG hc hrecord

/-! ### What is shown where -/

/-- How something is shown. -/
inductive Manner
  /-- By a selection of its own. -/
  | selected (sel : Selection)
  /-- As it is stored, inside of something of which nothing in particular is selected. -/
  | buried

/-- How a field of something is shown, if it is. -/
inductive Manner.Leads (name : String) : Manner → Manner → Prop
  /-- Of what is shown as a whole all fields are shown as they are stored. -/
  | whole : Leads name (.selected (.mk [])) .buried
  /-- A selected field is shown by the selection for it. -/
  | selected {fields : List (String × Selection)} {inner : Selection} (h : (name, inner) ∈ fields) :
    Leads name (.selected (.mk fields)) (.selected inner)
  /-- What is inside stays inside. -/
  | buried : Leads name .buried .buried

namespace Query

/-- The documents that a query shows, each with what is shown of it. -/
inductive Shows (x : Snapshot) (s : Store) : Query → Value → Graph.Collection → Record → Value → Prop
  /-- The document that is asked for. -/
  | lookup {c : Graph.Collection} {path : String} {sel : Selection} {r : Record} {v : Value}
    (h : x.stored? s c.name path = .ok (some r)) : Shows x s (.lookup c path sel) v c r v
  /-- The first records that meet the condition, in order. -/
  | page {q : PageQuery} {values : List Value} {r : Record} {v : Value}
    (h : (r, v) ∈ (((q.entries x s).filterMap (q.accepted? x s)).take q.size).zip values) :
    Shows x s (.page q) (.array values) q.collection r v

/-- What is shown at the places of an answer, with its kind, and how. A document is shown like an
object that has one of the templates of its collection. -/
inductive Exhibits (x : Snapshot) (s : Store) (q : Query) (data : Value) :
    Kind → FieldValue → Manner → Value → Prop
  /-- A document of the query. -/
  | document {c : Graph.Collection} {r : Record} {v : Value} (h : q.Shows x s data c r v) :
    Exhibits x s q data (.object c.templates) (.object r.template r.fields) (.selected q.selection) v
  /-- A field of a document or an object. -/
  | member {templates : List Template} {template name : String} {fields : List (String × FieldValue)}
    {m m' : Manner} {members : List (String × Value)} {k : Kind} {fv : FieldValue} {v : Value}
    (h : Exhibits x s q data (.object templates) (.object template fields) m (.object members))
    (hfield : (Composite.ofObject templates template fields).field? name = some (k, fv))
    (hleads : m.Leads name m') (hv : (name, v) ∈ members) : Exhibits x s q data k fv m' v
  /-- An item of a list. -/
  | item {items : Kind} {vs : List FieldValue} {m : Manner} {values : List Value} {fv : FieldValue}
    {v : Value} (h : Exhibits x s q data (.list items) (.list vs) m (.array values))
    (hv : (fv, v) ∈ vs.zip values) : Exhibits x s q data items fv m v
  /-- The document of a reference that is selected into. -/
  | target {allowed : List String} {t : Target} {inner : Selection} {c : Graph.Collection} {r : Record}
    {v : Value} (h : Exhibits x s q data (.reference allowed) (.reference t) (.selected inner) v)
    (hinner : inner.isEmpty = false) (hbound : x.bound? allowed t = some c)
    (hstored : x.stored? s c.name t.path = .ok (some r)) :
    Exhibits x s q data (.object c.templates) (.object r.template r.fields) (.selected inner) v

end Query

/-! ### What is shown mirrors its selection -/

/-- The system fields have reserved names, and the template is one of them. -/
structure Composite.Titled (d : Composite) : Prop where
  /-- No other name is that of a system field. -/
  free : ∀ name, ¬ Reserved name → Entries.find? name d.system = none
  /-- The template is one. -/
  template : Entries.find? systemTemplate d.system = some (.string d.template)

theorem Composite.titled_ofRecord (c : Graph.Collection) (r : Record) : (ofRecord c r).Titled where
  free name h := by
    have hne (system : String) (hsystem : Reserved system) : name ≠ system := fun heq =>
      h (heq ▸ hsystem)
    simp only [ofRecord, Entries.find?, if_neg (hne Graph.systemCollection rfl),
      if_neg (hne Graph.systemPath rfl), if_neg (hne systemTemplate rfl)]
  template := by rfl

theorem Composite.titled_ofObject (templates : List Template) (template : String)
    (fields : List (String × FieldValue)) : (ofObject templates template fields).Titled where
  free name h := by
    have hne : name ≠ systemTemplate := fun heq => h (heq ▸ rfl)
    simp only [ofObject, Entries.find?, if_neg hne]
  template := by rfl

/-- What is shown of a value in the manner. -/
inductive Manner.Appears (x : Snapshot) (s : Store) : Kind → FieldValue → Manner → Value → Prop
  /-- Documents and objects mirror their selections. -/
  | composite {d : Composite} {here : String} {sel : Selection} {v : Value} {ws : List Dangling}
    (htitled : d.Titled) (h : sel.Mirrors x s d here v ws) :
    Appears x s (.object d.templates) (.object d.template d.fields) (.selected sel) v
  /-- So do values. -/
  | value {k : Kind} {fv : FieldValue} {here : String} {sel : Selection} {v : Value}
    {ws : List Dangling} (h : sel.ValueMirrors x s k fv here v ws) :
    Appears x s k fv (.selected sel) v
  /-- What is inside is shown as it is stored. -/
  | buried {k : Kind} {fv : FieldValue} : Appears x s k fv .buried fv.toJson

namespace FieldValue

theorem itemsToJson_eq_map (vs : List FieldValue) : itemsToJson vs = vs.map toJson := by
  induction vs with
  | nil => rw [itemsToJson, List.map_nil]
  | cons v vs ih => rw [itemsToJson, ih, List.map_cons]

theorem find?_fieldsToJson (fields : List (String × FieldValue)) (name : String) :
    Entries.find? name (fieldsToJson fields) = (Entries.find? name fields).map toJson := by
  induction fields with
  | nil => rfl
  | cons f fields ih =>
    rw [fieldsToJson, Entries.find?, Entries.find?, ih]
    split
    · rfl
    · rfl

theorem sorted_fieldsToJson {fields : List (String × FieldValue)} (h : Entries.Sorted fields) :
    Entries.Sorted (fieldsToJson fields) := by
  refine Entries.sorted_of_names ?_ h
  induction fields with
  | nil => rfl
  | cons f fields ih => rw [fieldsToJson, List.map_cons, ih (List.Pairwise.of_cons h), List.map_cons]

end FieldValue

namespace Composite

variable {G : Graph} {d : Composite}

/-- What is stored of a document or an object suits its templates. -/
def Suits (G : Graph) (d : Composite) : Prop :=
  (FieldValue.object d.template d.fields).Suits G (.object d.templates)

/-- What is shown of something as a whole: its fields as they are stored, with the template among them
if there is a choice. -/
theorem Suits.whole (h : d.Suits G) : ∃ members,
    d.withTemplate (FieldValue.fieldsToJson d.fields) = .object members ∧ Entries.Sorted members ∧
      ∀ name, Entries.find? name members =
        if name = systemTemplate ∧ 1 < d.templates.length then some (.string d.template)
        else (Entries.find? name d.fields).map FieldValue.toJson := by
  obtain ⟨members, hobject, hsorted, hfind⟩ :=
    d.exists_withTemplate (FieldValue.sorted_fieldsToJson h.sorted)
  refine ⟨members, hobject, hsorted, fun name => ?_⟩
  rw [hfind, FieldValue.find?_fieldsToJson]
  split
  · next hname =>
    -- no field has the name of a system field
    cases hfound : Entries.find? name d.fields with
    | none => rfl
    | some fv => exact absurd (hname.1 ▸ rfl) (h.of_find? hfound).1
  · exact Option.or_none

end Composite

namespace Selection

variable {x : Snapshot} {s : Store} {G : Graph} {d : Composite} {here : String} {ws : List Dangling}

theorem FieldsMirror.exists_of_mem {fields : List (String × Selection)} {name : String}
    {inner : Selection} {values : List (String × Value)} (h : FieldsMirror x s d here fields values ws)
    (hmem : (name, inner) ∈ fields) :
    ∃ v ws', (name, v) ∈ values ∧ FieldMirrors x s d here name inner v ws' := by
  induction fields generalizing values ws with
  | nil => cases hmem
  | cons f fields ih =>
    cases h with
    | cons hfirst hrest =>
      rcases List.mem_cons.mp hmem with heq | hmem
      · cases heq
        exact ⟨_, _, List.mem_cons_self .., hfirst⟩
      · obtain ⟨v, ws', hv, hmirrors⟩ := ih hrest hmem
        exact ⟨v, ws', List.mem_cons_of_mem _ hv, hmirrors⟩

theorem ItemsMirror.exists_of_mem {items : Kind} {i : Nat} {inner : Selection} {vs : List FieldValue}
    {values : List Value} (h : ItemsMirror x s items here i vs inner values ws) {fv : FieldValue}
    {v : Value} (hmem : (fv, v) ∈ vs.zip values) :
    ∃ here' ws', ValueMirrors x s items fv here' inner v ws' := by
  induction vs generalizing i values ws with
  | nil => cases hmem
  | cons fv' vs ih =>
    cases h with
    | cons hfirst hrest =>
      rcases List.mem_cons.mp hmem with heq | hmem
      · cases heq
        exact ⟨_, _, hfirst⟩
      · exact ih hrest hmem

variable {sel : Selection}

/-- The fields of a document or an object appear in the manner to which its selection leads. -/
theorem Mirrors.appears_of_leads {members : List (String × Value)} (hd : d.Titled) (hsuits : d.Suits G)
    (h : sel.Mirrors x s d here (.object members) ws) {name : String} {k : Kind} {fv : FieldValue}
    (hfield : d.field? name = some (k, fv)) {m : Manner} (hleads : Manner.Leads name (.selected sel) m)
    {v : Value} (hv : (name, v) ∈ members) : Manner.Appears x s k fv m v := by
  have hfree : ¬ Reserved name := (hsuits.of_field? hfield).1
  generalize hobject : Value.object members = o at h
  cases h with
  | whole =>
    cases hleads with
    | whole =>
      obtain ⟨_, hwhole, hsorted, hfind⟩ := hsuits.whole
      cases hobject.trans hwhole
      -- the name is not that of a system field, so what is stored is shown under it
      have hvalue := hfind name
      have hname : ¬ (name = systemTemplate ∧ 1 < d.templates.length) := fun h => hfree (h.1 ▸ rfl)
      rw [(Entries.find?_eq_some_iff hsorted).mpr hv, if_neg hname,
        Composite.find?_of_field? hfield] at hvalue
      cases hvalue
      exact .buried
    | selected hinner => cases hinner
  | selected hne hvalues hsorted hkeys hmembers htemplate =>
    cases hobject
    cases hleads with
    | whole => exact absurd rfl hne
    | selected hinner =>
      -- a member has one value, and that mirrors the field
      obtain ⟨v', ws', hmem, hmirrors⟩ := hvalues.exists_of_mem hinner
      have hv' := (Entries.find?_eq_some_iff hsorted).mpr (hmembers _ hmem)
      rw [(Entries.find?_eq_some_iff hsorted).mpr hv] at hv'
      cases hv'
      cases hmirrors with
      | system hsystem =>
        rw [hd.free name hfree] at hsystem
        cases hsystem
      | unset _ hnone =>
        rw [hnone] at hfield
        cases hfield
      | value _ hfield' hvalue =>
        rw [hfield] at hfield'
        cases hfield'
        exact .value hvalue

/-- What has a choice of templates is shown with the one that it has. -/
theorem Mirrors.template_mem (hd : d.Titled) (hsuits : d.Suits G) {v : Value}
    (h : sel.Mirrors x s d here v ws) (hmany : 1 < d.templates.length) :
    ∃ members, v = .object members ∧ (systemTemplate, .string d.template) ∈ members := by
  cases h with
  | whole =>
    obtain ⟨members, hobject, hsorted, hfind⟩ := hsuits.whole
    refine ⟨members, hobject, (Entries.find?_eq_some_iff hsorted).mp ?_⟩
    rw [hfind, if_pos ⟨rfl, hmany⟩]
  | @selected _ _ fields values members _ hne hvalues hsorted hkeys hmembers htemplate =>
    refine ⟨members, rfl, ?_⟩
    by_cases hselected : systemTemplate ∈ fields.map (·.1)
    · -- the template is selected itself
      obtain ⟨⟨name, inner⟩, hinner, rfl⟩ := List.mem_map.mp hselected
      obtain ⟨v, ws', hmem, hmirrors⟩ := hvalues.exists_of_mem hinner
      cases hmirrors with
      | system hsystem =>
        rw [hd.template] at hsystem
        cases hsystem
        exact hmembers _ hmem
      | unset hsystem _ =>
        rw [hd.template] at hsystem
        cases hsystem
      | value hsystem _ _ =>
        rw [hd.template] at hsystem
        cases hsystem
    · exact htemplate hselected hmany

end Selection

theorem PageQuery.ItemsMirror.exists_of_mem {q : PageQuery} {x : Snapshot} {s : Store} {n : Nat}
    {rs : List Record} {values : List Value} {ws : List Dangling} (h : q.ItemsMirror x s n rs values ws)
    {r : Record} {v : Value} (hmem : (r, v) ∈ rs.zip values) :
    ∃ (i : Nat) (ws' : List Dangling), q.selection.Mirrors x s (.ofRecord q.collection r)
      ("[" ++ toString i ++ "]") v ws' := by
  induction h with
  | nil => cases hmem
  | cons hfirst _ ih =>
    rcases List.mem_cons.mp hmem with heq | hmem
    · cases heq
      exact ⟨_, _, hfirst⟩
    · exact ih hmem

namespace Manner.Appears

variable {x : Snapshot} {s : Store} {G : Graph} {m : Manner} {v : Value} {templates : List Template}
  {template : String} {fields : List (String × FieldValue)}

/-- A field of what appears appears. -/
theorem member {members : List (String × Value)}
    (h : Appears x s (.object templates) (.object template fields) m (.object members))
    (hsuits : (FieldValue.object template fields).Suits G (.object templates)) {name : String} {k : Kind}
    {fv : FieldValue} {m' : Manner}
    (hfield : (Composite.ofObject templates template fields).field? name = some (k, fv))
    (hleads : m.Leads name m') (hv : (name, v) ∈ members) : Appears x s k fv m' v := by
  generalize hobject : Value.object members = o at h
  cases h with
  | composite htitled h =>
    subst hobject
    exact h.appears_of_leads htitled hsuits hfield hleads hv
  | value h =>
    cases h with
    | object h =>
      subst hobject
      exact h.appears_of_leads (Composite.titled_ofObject ..) hsuits hfield hleads hv
    | plain h => exact h.elim
  | buried =>
    cases hleads with
    | buried =>
      rw [FieldValue.toJson] at hobject
      cases hobject
      have hvalue := FieldValue.find?_fieldsToJson fields name
      have hstored : Entries.find? name fields = some fv := Composite.find?_of_field? hfield
      rw [(Entries.find?_eq_some_iff (FieldValue.sorted_fieldsToJson hsuits.sorted)).mpr hv,
        hstored] at hvalue
      cases hvalue
      exact .buried

/-- So does an item of a list. -/
theorem item {items : Kind} {vs : List FieldValue} {values : List Value}
    (h : Appears x s (.list items) (.list vs) m (.array values)) {fv : FieldValue}
    (hv : (fv, v) ∈ vs.zip values) : Appears x s items fv m v := by
  generalize harray : Value.array values = o at h
  cases h with
  | value h =>
    cases h with
    | list h =>
      cases harray
      obtain ⟨here, ws, h⟩ := h.exists_of_mem hv
      exact .value h
    | plain h => exact h.elim
  | buried =>
    rw [FieldValue.toJson, FieldValue.itemsToJson_eq_map] at harray
    cases harray
    have hzip : vs.zip (vs.map FieldValue.toJson) = vs.map fun fv => (fv, fv.toJson) := by
      simpa using List.zip_map' (f := id) (g := FieldValue.toJson) (l := vs)
    rw [hzip] at hv
    obtain ⟨_, -, heq⟩ := List.mem_map.mp hv
    cases heq
    exact .buried

/-- So does the document of a reference that is selected into. -/
theorem target {allowed : List String} {t : Target} {inner : Selection}
    (h : Appears x s (.reference allowed) (.reference t) (.selected inner) v)
    (hinner : inner.isEmpty = false) {c : Graph.Collection} (hbound : x.bound? allowed t = some c)
    {r : Record} (hstored : x.stored? s c.name t.path = .ok (some r)) :
    Appears x s (.object c.templates) (.object r.template r.fields) (.selected inner) v := by
  cases h with
  | value h =>
    cases h with
    | path hempty =>
      rw [hempty] at hinner
      cases hinner
    | followed _ hbound' hstored' h =>
      rw [hbound] at hbound'
      cases hbound'
      rw [hstored] at hstored'
      cases hstored'
      exact .composite (Composite.titled_ofRecord ..) h
    | dangling _ hbound' hstored' =>
      rw [hbound] at hbound'
      cases hbound'
      rw [hstored] at hstored'
      cases hstored'
    | plain h => exact h.elim

/-- **What appears with a choice of templates has its template, unless it is inside of something that is
shown as a whole.** -/
theorem discriminates (h : Appears x s (.object templates) (.object template fields) m v)
    (hsuits : (FieldValue.object template fields).Suits G (.object templates))
    (hmany : 1 < templates.length) :
    ∃ members, v = .object members ∧ ((systemTemplate, .string template) ∈ members ↔ m ≠ .buried) := by
  cases h with
  | composite htitled h =>
    obtain ⟨members, rfl, hmem⟩ := h.template_mem htitled hsuits hmany
    exact ⟨members, rfl, iff_of_true hmem nofun⟩
  | value h =>
    cases h with
    | object h =>
      obtain ⟨members, rfl, hmem⟩ := h.template_mem (Composite.titled_ofObject ..) hsuits hmany
      exact ⟨members, rfl, iff_of_true hmem nofun⟩
    | plain h => exact h.elim
  | buried =>
    refine ⟨FieldValue.fieldsToJson fields, by rw [FieldValue.toJson], iff_of_false ?_ (· rfl)⟩
    rw [← Entries.find?_eq_some_iff (FieldValue.sorted_fieldsToJson hsuits.sorted),
      FieldValue.find?_fieldsToJson, Option.map_eq_some_iff]
    rintro ⟨fv, hfv, -⟩
    exact absurd rfl (hsuits.of_find? hfv).1

end Manner.Appears

/-! ### Stores -/

/-- What is read of the documents of a generation suits the graph. -/
def Store.Suits (s : Store) (g : Generation) (G : Graph) : Prop :=
  ∀ c ∈ G.collections, ∀ (k v : Bytes) (r : Record), Key.documentPrefix g c.name <+: k →
    s.get? k = some v → Record.ofStored? k (some v) = .ok (some r) →
      (FieldValue.object r.template r.fields).Suits G (.object c.templates)

/-- **The documents of an index suit their collections**, whatever rebuilds and updates of databases of
the graph have shared the store. -/
theorem Graph.suits_of_interleaving {ι : Type} [DecidableEq ι] {runs : ι → Run} {trace : Trace ι}
    {w : World ι (Except IndexError Report)} {G : Graph} (hG : G.IsCompiled)
    (hruns : ∀ i, (runs i).database.graph = G)
    (run : Interleaving (fun i => (runs i).program) OrderedMap.empty trace w) (g : Generation) :
    w.store.Suits g G := by
  intro c hc k v r hstart hv hr
  have hfamily : Key.Family.start g .document <+: k := Key.start_documentPrefix.trans hstart
  have hgeneration : Key.generationPrefix g <+: k := (Key.Family.starts_start _).trans hfamily
  -- what a generation has was put there with a record, but for its information
  rcases exists_entry_of_get? hG hruns run (Key.starts_of_generationPrefix hgeneration) hv with
    ⟨col, hcol, r₀, n, hname, hmakes, hmem⟩ | ⟨i, rfl, -⟩
  · obtain rfl : n = g :=
      Key.eq_of_generationPrefix (Record.starts_of_mem_entries hmem) hgeneration
    rw [← Graph.entries_eq hG hcol hname] at hmem
    have hlisting : c.listing none = .ok (.byPath false) := rfl
    obtain ⟨hname', heq⟩ := Listing.eq_entry_of_mem hG hc hlisting ⟨col, hcol, hname⟩ hmem hstart
    obtain rfl : col = c := List.inj_on_of_nodup_map hG.names.2 hcol hc (hname.symm.trans hname')
    cases heq
    exact hmakes.suits hG hc hr
  · have hinfo : Key.generationPrefix i.generation <+: (Key.info i.generation).encode :=
      Key.info_starts
    obtain rfl := Key.eq_of_generationPrefix hgeneration hinfo
    exact absurd hfamily Key.not_start_info

namespace Snapshot

variable {x : Snapshot} {s : Store}

/-- A document that is found suits its collection. -/
theorem suits_of_stored (h : s.Suits x.generation x.graph) {c : Graph.Collection}
    (hc : c ∈ x.graph.collections) {path : String} {r : Record}
    (hr : x.stored? s c.name path = .ok (some r)) :
    (FieldValue.object r.template r.fields).Suits x.graph (.object c.templates) := by
  unfold stored? at hr
  cases hv : s.get? (x.key c.name path) with
  | none =>
    rw [hv] at hr
    cases hr
  | some v =>
    rw [hv] at hr
    exact h c hc _ v r (List.prefix_append _ _) hv hr

end Snapshot

/-! ### Answers -/

namespace Query

variable {x : Snapshot} {s : Store} {q : Query} {data v : Value} {ws : List Dangling}

/-- A document that a query shows suits its collection. -/
theorem Shows.suits {c : Graph.Collection} {r : Record} (h : q.Shows x s data c r v)
    (hsuits : s.Suits x.generation x.graph) (hc : q.collection ∈ x.graph.collections) :
    (FieldValue.object r.template r.fields).Suits x.graph (.object c.templates) := by
  cases h with
  | lookup hr => exact Snapshot.suits_of_stored hsuits hc hr
  | @page q values r v h =>
    obtain ⟨e, he, haccepted⟩ := List.mem_filterMap.mp (List.mem_of_mem_take (List.of_mem_zip h).1)
    obtain ⟨found, hfound, hfilter⟩ := Option.bind_eq_some_iff.mp haccepted
    obtain ⟨rfl, -⟩ := Option.filter_eq_some_iff.mp hfilter
    obtain ⟨hget, hcontains⟩ := Store.mem_within.mp he
    have hstart := (Listing.contains_range_iff.mp hcontains).1
    have hread : q.recordAt x s e = .ok (some r) := by
      cases hr : q.recordAt x s e with
      | error fault =>
        rw [hr] at hfound
        cases hfound
      | ok found =>
        rw [hr] at hfound
        cases hfound
        rfl
    -- an entry by path holds the document itself, and an entry by a field the path of the document
    unfold PageQuery.recordAt at hread
    cases hlisting : q.listing with
    | byPath descending =>
      rw [hlisting] at hread hstart
      exact hsuits q.collection hc e.1 e.2 r hstart hget hread
    | byField field descending =>
      rw [hlisting] at hread
      dsimp only at hread
      split at hread
      · exact Snapshot.suits_of_stored hsuits hc hread
      · cases hread

/-- What is shown of a document mirrors the selection of the query. -/
theorem Shows.appears {c : Graph.Collection} {r : Record} (h : q.Shows x s data c r v)
    (hmirrors : q.Mirrors x s data ws) :
    Manner.Appears x s (.object c.templates) (.object r.template r.fields) (.selected q.selection) v := by
  cases h with
  | lookup hr =>
    obtain ⟨r', hr', hmirrors⟩ := hmirrors
    rw [hr] at hr'
    cases hr'
    exact .composite (Composite.titled_ofRecord ..) hmirrors
  | page h =>
    obtain ⟨values, hdata, hitems⟩ := hmirrors
    cases hdata
    obtain ⟨n, ws', hitem⟩ := hitems.exists_of_mem h
    exact .composite (Composite.titled_ofRecord ..) hitem

/-- **What is shown at a place of an answer mirrors the selection there**, and what is stored of it
suits its kind. -/
theorem appears_of_exhibits (hsuits : s.Suits x.generation x.graph)
    (hc : q.collection ∈ x.graph.collections) (hmirrors : q.Mirrors x s data ws) {k : Kind}
    {fv : FieldValue} {m : Manner} (h : q.Exhibits x s data k fv m v) :
    fv.Suits x.graph k ∧ m.Appears x s k fv v := by
  -- the two go together, since what is stored decides which kind the next thing has
  induction h with
  | document hshows => exact ⟨hshows.suits hsuits hc, hshows.appears hmirrors⟩
  | member _ hfield hleads hv ih => exact ⟨(ih.1.of_field? hfield).2, ih.2.member ih.1 hfield hleads hv⟩
  | item _ hv ih => exact ⟨ih.1.item (List.of_mem_zip hv).1, ih.2.item hv⟩
  | target _ hinner hbound hstored ih =>
    obtain ⟨n, -, hfound⟩ := Option.bind_eq_some_iff.mp hbound
    exact ⟨Snapshot.suits_of_stored hsuits (List.mem_of_find?_eq_some hfound) hstored,
      ih.2.target hinner hbound hstored⟩

end Query

namespace Database

/-- **Objects are shown with their templates unless they are inside of something that is shown as a
whole.** Whatever rebuilds and updates of databases of the graph have shared a store, let a request be
answered from there, and let a document or an object be shown in the answer that has a choice of
templates. It is shown as an object, and its template is a member of that, if and only if it is not
inside of something of which nothing in particular is selected. -/
theorem discriminates_iff_not_buried {ι : Type} [DecidableEq ι] {runs : ι → Run} {trace : Trace ι}
    {w : World ι (Except IndexError Report)} {db : Database} (hG : db.graph.IsCompiled)
    (hruns : ∀ i, (runs i).database.graph = db.graph)
    (run : Interleaving (fun i => (runs i).program) OrderedMap.empty trace w) {x : Snapshot}
    (hx : db.snapshot?.on w.store = some (.ok (some x))) {r : Request} {q : Query}
    (hquery : db.query r = .ok q) (hdistinct : r.selection.Distinct) {rounds : Nat}
    (hrounds : w.store.entries.length < rounds) {answer : Answer}
    (hanswer : (db.resolve rounds r).on w.store = some (.ok answer)) {templates : List Template}
    {template : String} {fields : List (String × FieldValue)} {m : Manner} {v : Value}
    (hshown : q.Exhibits x w.store answer.data (.object templates) (.object template fields) m v)
    (hmany : 1 < templates.length) :
    ∃ members, v = .object members ∧ ((systemTemplate, .string template) ∈ members ↔ m ≠ .buried) := by
  obtain ⟨hselection, hc⟩ := selection_of_query hquery
  have hgraph := graph_of_snapshot? hx
  rw [resolve_of_query hquery] at hanswer
  have hmirrors := Query.mirrors_of_answer hx (hselection ▸ hdistinct) hrounds hanswer
  have hsuits := Graph.suits_of_interleaving hG hruns run x.generation
  rw [← hgraph] at hsuits hc
  obtain ⟨hstored, happears⟩ := Query.appears_of_exhibits hsuits hc hmirrors hshown
  exact happears.discriminates hstored hmany

end Database

/-! ### Blocks of a page -/

namespace Blocks

/-- Quotations and images. -/
def kinds : List Template :=
  [⟨"quote", [⟨"text", .string, true, true⟩]⟩, ⟨"image", [⟨"source", .string, true, true⟩]⟩]

/-- Pages of such blocks. -/
def pages : Graph.Collection :=
  ⟨"pages", "pages", none, none, false, none, [⟨"pages", [⟨"blocks", .list (.object kinds), false, false⟩]⟩]⟩

/-- A database of pages. -/
def book : Database := ⟨.ofCollections [pages], {}, "body"⟩

theorem book_compiled : book.graph.IsCompiled :=
  ⟨⟨[⟨"pages", "pages", none, none, false, none,
    [.mk "blocks" (.mk .list false none [] (some (.shaped (.mk .object false none [] none []
      [.mk "quote" [.mk "text" (.mk .string true none [] none [] [])],
        .mk "image" [.mk "source" (.mk .string true none [] none [] [])]]))) [] [])], []⟩]⟩, rfl⟩

/-- A page that is one quotation. -/
def quotation : Bytes := Bytes.ofText "\x7b\"blocks\":[\x7b\"text\":\"hi\"\x7d]\x7d"

/-- The page. -/
def bookFiles : Source.Files := OrderedMap.empty.insert "pages/a.json" quotation

/-- The index of the page. -/
@[irreducible] def bookStore : Store := (book.rebuild 4).leaves bookFiles 0 OrderedMap.empty

theorem exists_succeeds_book : ∃ report,
    (book.rebuild 4).Succeeds bookFiles OrderedMap.empty report bookStore := by
  unfold bookStore
  exact Failing.exists_succeeds 0 (by decide +kernel)

/-- The quotation. -/
def quote : FieldValue := .object "quote" [("text", .string "hi")]

/-- The block of a record with one block, if it is a quotation. -/
def text? (r : Record) : Option String :=
  match r.fields with
  | [("blocks", .list [.object "quote" [("text", .string text)]])] => some text
  | _ => none

theorem exists_quotation : ∃ r ∈ Rebuild.records book bookFiles, r.collection = pages.name ∧
    r.path = "pages/a.json" ∧ r.template = "pages" ∧ r.fields = [("blocks", .list [quote])] := by
  have hcheck : (book.record pages "pages/a.json" quotation).toOption.any fun x =>
      x.1.template = "pages" ∧ text? x.1 = some "hi" := by
    decide +kernel
  cases hr : book.record pages "pages/a.json" quotation with
  | error skip =>
    rw [hr] at hcheck
    cases hcheck
  | ok x =>
    obtain ⟨r, ws⟩ := x
    rw [hr] at hcheck
    obtain ⟨htemplate, htext⟩ : r.template = "pages" ∧ text? r = some "hi" := by
      simpa [Except.toOption] using hcheck
    obtain ⟨hname, hpath, -⟩ := Database.eq_of_record hr
    refine ⟨r, (Rebuild.mem_records_iff book_compiled).mpr ⟨"pages/a.json", pages, ?_⟩, hname, hpath,
      htemplate, ?_⟩
    · refine Database.document?_eq_ok_iff.mpr ⟨by rfl, quotation, ws, ?_, hr⟩
      rfl
    · unfold text? at htext
      split at htext
      · next hfields =>
        cases htext
        exact hfields
      · cases htext

/-- The page is found in its index. -/
theorem exists_index : ∃ (trace : Trace Unit) (w : World Unit (Except IndexError Report))
    (g : Generation) (r : Record),
    Interleaving (fun _ => (Run.rebuild book 4).program) OrderedMap.empty trace w ∧
      w.store.Presents g book.graph ∧ r.template = "pages" ∧ r.fields = [("blocks", .list [quote])] ∧
      Snapshot.stored? ⟨book.graph, g⟩ w.store pages.name "pages/a.json" = .ok (some r) := by
  obtain ⟨report, h⟩ := exists_succeeds_book
  have hpaths : ∀ p ∈ bookFiles.keys, Text.ZeroFree p := by decide
  have htells := Database.tells_of_rebuild (U := Set.univ) book_compiled Store.reachable_empty
    (fun p b hb => ⟨hpaths p (Source.Files.mem_keys_of_get? hb), trivial⟩) h
  obtain ⟨trace, w, run, -, -, hstore⟩ := Database.exists_interleaving_of_succeeds book_compiled h
  obtain ⟨r, hr, hname, hpath, htemplate, hfields⟩ := exists_quotation
  have hread : Record.ofBytes? r.toBytes = some r :=
    Record.ofBytes?_toBytes_of_fields (by rw [hfields]; rfl)
  rw [← hstore] at htells
  exact ⟨trace, w, report.generation, r, run, htells.presents, htemplate, hfields,
    hname ▸ hpath ▸ htells.stored?_eq book_compiled hr hread⟩

theorem blocks_field : (Composite.ofObject pages.templates "pages"
    [("blocks", .list [quote])]).field? "blocks" = some (.list (.object kinds), .list [quote]) := rfl

/-- Asks for the page as a whole. -/
def wholePage : Request := .get "pages" "pages/a.json" .empty

/-- Asks for the texts of the blocks. -/
def blockTexts : Request := .get "pages" "pages/a.json" (.mk [("blocks", .mk [("text", .empty)])])

/-- The query of a request for the page. -/
def asked (r : Request) : Query := .lookup pages "pages/a.json" r.selection

theorem query_wholePage : book.query wholePage = .ok (asked wholePage) := by
  rfl

theorem query_blockTexts : book.query blockTexts = .ok (asked blockTexts) := by
  rfl

theorem wholePage_distinct : wholePage.selection.Distinct := ⟨List.nodup_nil, List.forall_mem_nil _⟩

theorem blockTexts_distinct : blockTexts.selection.Distinct := by
  refine ⟨List.nodup_singleton _, List.forall_mem_singleton.mpr ⟨List.nodup_singleton _, ?_⟩⟩
  exact List.forall_mem_singleton.mpr ⟨List.nodup_nil, List.forall_mem_nil _⟩

/-- A request that meets no reference is answered. -/
theorem exists_answer {s : Store} {g : Generation} (hpresents : s.Presents g book.graph) {r : Request}
    (hquery : book.query r = .ok (asked r)) (hdistinct : r.selection.Distinct)
    (htour : (asked r).tour ⟨book.graph, g⟩ s = []) :
    ∃ answer, (book.resolve (s.entries.length + 1) r).on s = some (.ok answer) ∧
      (asked r).Mirrors ⟨book.graph, g⟩ s answer.data answer.warnings := by
  obtain ⟨answer, hanswer, hmirrors, -⟩ := (Query.on_answer (q := asked r)
    (Database.on_snapshot? hpresents) hdistinct (Nat.lt_succ_self s.entries.length)).2
      (by rw [htour]; rfl)
  rw [← Database.resolve_of_query hquery] at hanswer
  exact ⟨answer, hanswer, hmirrors⟩

/-- The block of the page is selected into. -/
theorem exists_selected {x : Snapshot} {s : Store} {r : Record} {data : Value} {ws : List Dangling}
    (htemplate : r.template = "pages") (hfields : r.fields = [("blocks", .list [quote])])
    (hstored : x.stored? s pages.name "pages/a.json" = .ok (some r))
    (h : (asked blockTexts).Mirrors x s data ws) :
    ∃ v, (asked blockTexts).Exhibits x s data (.object kinds) quote
      (.selected (.mk [("text", .empty)])) v := by
  obtain ⟨r', hr', hmirrors⟩ := h
  rw [hstored] at hr'
  cases hr'
  have hshows : (asked blockTexts).Shows x s data pages r data := .lookup hstored
  have hdocument := Query.Exhibits.document hshows
  rw [hfields, htemplate] at hdocument
  generalize hsel : blockTexts.selection = sel at hmirrors
  cases hmirrors with
  | whole => cases hsel
  | selected _ hvalues _ _ hmembers _ =>
    cases hsel
    obtain ⟨v, ws', hmem, hmirrors⟩ := hvalues.exists_of_mem (List.mem_singleton_self _)
    have hblocks := Query.Exhibits.member hdocument blocks_field
      (.selected (List.mem_singleton_self _)) (hmembers _ hmem)
    cases hmirrors with
    | system hsystem =>
      have hfree : ¬ "blocks".toList.head? = some '_' := by decide
      rw [(Composite.titled_ofRecord pages r).free "blocks" hfree] at hsystem
      cases hsystem
    | unset _ hnone =>
      rw [Composite.ofRecord, hfields, htemplate] at hnone
      cases blocks_field.symm.trans hnone
    | value _ hsome hvalue =>
      rw [Composite.ofRecord, hfields, htemplate] at hsome
      cases blocks_field.symm.trans hsome
      cases hvalue with
      | list hitems =>
        cases hitems with
        | cons => exact ⟨_, .item hblocks (List.mem_cons_self ..)⟩
      | plain h => exact h.elim

end Blocks

open Blocks

/-- The block of a page is shown with its template if its text is selected. -/
theorem Database.discriminates_iff_not_buried_quote : ∃ (trace : Trace Unit)
    (w : World Unit (Except IndexError Report)) (x : Snapshot) (answer : Answer) (v : Value),
    Interleaving (fun _ => (Run.rebuild book 4).program) OrderedMap.empty trace w ∧
      (book.resolve (w.store.entries.length + 1) blockTexts).on w.store = some (.ok answer) ∧
      (asked blockTexts).Exhibits x w.store answer.data (.object kinds) quote
        (.selected (.mk [("text", .empty)])) v ∧
      ∃ members, v = .object members ∧ (systemTemplate, .string "quote") ∈ members := by
  obtain ⟨trace, w, g, r, run, hpresents, htemplate, hfields, hstored⟩ := exists_index
  have htour : (asked blockTexts).tour ⟨book.graph, g⟩ w.store = [] := by
    rw [asked, Query.tour, hstored]
    show Selection.tour _ _ (.ofRecord pages r) _ blockTexts.selection = _
    rw [Composite.ofRecord, htemplate, hfields]
    rfl
  obtain ⟨answer, hanswer, hmirrors⟩ := exists_answer hpresents query_blockTexts blockTexts_distinct htour
  obtain ⟨v, hshown⟩ := exists_selected htemplate hfields hstored hmirrors
  obtain ⟨members, hobject, hiff⟩ := discriminates_iff_not_buried book_compiled (fun _ => rfl) run
    (on_snapshot? hpresents) query_blockTexts blockTexts_distinct
    (Nat.lt_succ_self w.store.entries.length) hanswer hshown (by decide)
  refine ⟨trace, w, _, answer, v, run, hanswer, hshown, members, hobject, hiff.mpr ?_⟩
  rintro ⟨⟩

/-- **A whole page is shown without the templates of its blocks.** -/
theorem Database.exists_buried : ∃ (trace : Trace Unit)
    (w : World Unit (Except IndexError Report)) (x : Snapshot) (answer : Answer),
    book.graph.IsCompiled ∧
      Interleaving (fun _ => (Run.rebuild book 4).program) OrderedMap.empty trace w ∧
      book.snapshot?.on w.store = some (.ok (some x)) ∧
      (book.resolve (w.store.entries.length + 1) wholePage).on w.store = some (.ok answer) ∧
      answer.data = .object [("blocks", .array [.object [("text", .string "hi")]])] ∧
      (asked wholePage).Exhibits x w.store answer.data (.object kinds) quote .buried
        (.object [("text", .string "hi")]) ∧ 1 < kinds.length ∧
      (systemTemplate, Value.string "quote") ∉ [("text", Value.string "hi")] := by
  obtain ⟨trace, w, g, r, run, hpresents, htemplate, hfields, hstored⟩ := exists_index
  have htour : (asked wholePage).tour ⟨book.graph, g⟩ w.store = [] := by
    rw [asked, Query.tour, hstored]
    show Selection.tour _ _ _ _ (.mk []) = _
    rw [Selection.tour, Selection.tourFields]
  obtain ⟨answer, hanswer, r', hr', hmirrors⟩ :=
    exists_answer hpresents query_wholePage wholePage_distinct htour
  rw [hstored] at hr'
  cases hr'
  have hdata : answer.data = .object [("blocks", .array [.object [("text", .string "hi")]])] := by
    generalize answer.data = data, answer.warnings = ws at hmirrors
    cases hmirrors with
    | whole =>
      rw [Composite.ofRecord, htemplate, hfields]
      rfl
    | selected hne => exact absurd rfl hne
  refine ⟨trace, w, _, answer, book_compiled, run, on_snapshot? hpresents, hanswer, hdata, ?_,
    by decide, by simp [systemTemplate]⟩
  have hshows : (asked wholePage).Shows ⟨book.graph, g⟩ w.store answer.data pages r answer.data :=
    .lookup hstored
  have hdocument := Query.Exhibits.document hshows
  rw [hdata, hfields, htemplate] at hdocument
  rw [hdata]
  have hblocks := Query.Exhibits.member hdocument blocks_field .whole (List.mem_singleton_self _)
  exact .item hblocks (List.mem_singleton_self _)

end ContentIndex
