import ContentIndex.Proofs.Rereading

/-!
# Canonical values

A reader of documents puts the members of objects in order, and so does a reader of records. So what
has come from a document does not change its order when its record is read again. The numbers in a
record are finite, for they were written in a document.

## Main definitions

* `Json.Value.IsCanonical`: the members of all objects in a value are in order
* `FieldValue.Regular`: field values as they come from documents

## Main results

* `Json.Value.canonical_eq_self`: canonical values are their own canonical form
* `Document.isCanonical_of_parse`: **documents are canonical**
* `Database.regular_of_record`: **the values in a record are regular**
-/

namespace ContentIndex

open Json (Value)

/-! ### JSON values -/

namespace Json.Value

mutual

/-- The members of all objects in the value are in order. -/
def IsCanonical : Value → Prop
  | .array items => ItemsCanonical items
  | .object members => Entries.Sorted members ∧ MembersCanonical members
  | _ => True

/-- The members of all objects in the items are in order. -/
def ItemsCanonical : List Value → Prop
  | [] => True
  | v :: r => v.IsCanonical ∧ ItemsCanonical r

/-- The members of all objects in the values of the members are in order. -/
def MembersCanonical : List (String × Value) → Prop
  | [] => True
  | (_, v) :: r => v.IsCanonical ∧ MembersCanonical r

end

theorem itemsCanonical_iff {items : List Value} :
    ItemsCanonical items ↔ ∀ v ∈ items, v.IsCanonical := by
  induction items with
  | nil => simp [ItemsCanonical]
  | cons v items ih => simp [ItemsCanonical, ih]

theorem membersCanonical_iff {members : List (String × Value)} :
    MembersCanonical members ↔ ∀ m ∈ members, m.2.IsCanonical := by
  induction members with
  | nil => simp [MembersCanonical]
  | cons m members ih =>
    obtain ⟨name, v⟩ := m
    simp [MembersCanonical, ih]

/-- An object of canonical values is canonical once its members are in order. -/
theorem isCanonical_ofList {members : List (String × Value)}
    (h : ∀ m ∈ members, m.2.IsCanonical) : (object (Entries.ofList members)).IsCanonical :=
  ⟨Entries.sorted_ofList members, membersCanonical_iff.mpr fun m hm =>
    h m (Entries.mem_of_mem_ofList hm)⟩

/-- The members of a canonical object are canonical. -/
theorem IsCanonical.member {members : List (String × Value)} (h : (object members).IsCanonical)
    {name : String} {v : Value} (hv : Entries.find? name members = some v) : v.IsCanonical :=
  membersCanonical_iff.mp h.2 (name, v) ((Entries.find?_eq_some_iff h.1).mp hv)

mutual

/-- What is put in order is in order. -/
theorem isCanonical_canonical : ∀ v : Value, v.canonical.IsCanonical
  | .null | .bool _ | .number _ | .string _ => trivial
  | .array items => itemsCanonical_canonicalItems items
  | .object members =>
    isCanonical_ofList (membersCanonical_iff.mp (membersCanonical_canonicalMembers members))

theorem itemsCanonical_canonicalItems : ∀ items : List Value, ItemsCanonical (canonicalItems items)
  | [] => trivial
  | v :: r => ⟨isCanonical_canonical v, itemsCanonical_canonicalItems r⟩

theorem membersCanonical_canonicalMembers :
    ∀ members : List (String × Value), MembersCanonical (canonicalMembers members)
  | [] => trivial
  | (_, v) :: r => ⟨isCanonical_canonical v, membersCanonical_canonicalMembers r⟩

end

mutual

/-- **What is in order stays as it is.** -/
theorem canonical_eq_self : ∀ {v : Value}, v.IsCanonical → v.canonical = v
  | .null, _ | .bool _, _ | .number _, _ | .string _, _ => rfl
  | .array _, h => by rw [canonical, canonicalItems_eq_self h]
  | .object _, h => by rw [canonical, canonicalMembers_eq_self h.2, Entries.ofList_eq_self h.1]

theorem canonicalItems_eq_self : ∀ {items : List Value}, ItemsCanonical items →
    canonicalItems items = items
  | [], _ => rfl
  | _ :: _, h => by rw [canonicalItems, canonical_eq_self h.1, canonicalItems_eq_self h.2]

theorem canonicalMembers_eq_self : ∀ {members : List (String × Value)}, MembersCanonical members →
    canonicalMembers members = members
  | [], _ => rfl
  | (_, _) :: _, h => by rw [canonicalMembers, canonical_eq_self h.1, canonicalMembers_eq_self h.2]

end

end Json.Value

/-! ### YAML -/

namespace Yaml

theorem isCanonical_wrapTagged {tag : Option Bytes} {v : Value} (h : v.IsCanonical) :
    (wrapTagged tag v).IsCanonical := by
  unfold wrapTagged
  split
  · exact ⟨List.pairwise_singleton _ _, h, trivial⟩
  · exact h

theorem isCanonical_of_resolved {r : Resolved} {v : Value} (h : r.toJson? = some v) :
    v.IsCanonical := by
  cases r with
  | null | bool b | text cs =>
    cases h
    trivial
  | int i =>
    obtain ⟨n, -, rfl⟩ := Option.map_eq_some_iff.mp h
    trivial
  | wide => cases h
  | float x =>
    cases h
    unfold Value.float
    split <;> trivial

/-- The values of members are those of the entries that they are named for. -/
theorem exists_of_mapM_memberName {entries : List (Value × Value)} {members : List (String × Value)}
    (h : entries.mapM (fun (k, v) => return (← memberName? k, v)) = some members) :
    ∀ m ∈ members, ∃ e ∈ entries, m.2 = e.2 := by
  induction entries generalizing members with
  | nil =>
    cases h
    nofun
  | cons e entries ih =>
    rw [List.mapM_cons] at h
    obtain ⟨m, hm, h⟩ := Option.bind_eq_some_iff.mp h
    obtain ⟨ms, hms, h⟩ := Option.bind_eq_some_iff.mp h
    obtain ⟨name, -, hname⟩ := Option.bind_eq_some_iff.mp hm
    cases h
    cases hname
    rintro x hx
    rcases List.mem_cons.mp hx with rfl | hx
    · exact ⟨e, List.mem_cons_self .., rfl⟩
    · obtain ⟨d, hd, heq⟩ := ih hms x hx
      exact ⟨d, List.mem_cons_of_mem _ hd, heq⟩

mutual

/-- The values of nodes are canonical. -/
theorem Node.isCanonical_of_toJson? : ∀ (n : Node) {v : Value}, n.toJson? = some v → v.IsCanonical
  | .alias _, _, h => by cases h
  | .scalar tag style text, v, h => by
    rw [toJson?] at h
    obtain ⟨r, -, h⟩ := Option.bind_eq_some_iff.mp h
    obtain ⟨u, hu, h⟩ := Option.bind_eq_some_iff.mp h
    cases h
    exact isCanonical_wrapTagged (isCanonical_of_resolved hu)
  | .sequence tag items, v, h => by
    rw [toJson?] at h
    obtain ⟨vs, hvs, h⟩ := Option.bind_eq_some_iff.mp h
    cases h
    exact isCanonical_wrapTagged (Node.itemsCanonical_of_itemsToJson? items hvs)
  | .mapping tag entries, v, h => by
    rw [toJson?] at h
    obtain ⟨es, hes, h⟩ := Option.bind_eq_some_iff.mp h
    split at h
    · cases h
    · obtain ⟨ms, hms, h⟩ := Option.bind_eq_some_iff.mp h
      cases h
      refine isCanonical_wrapTagged (Value.isCanonical_ofList fun m hm => ?_)
      obtain ⟨e, he, heq⟩ := exists_of_mapM_memberName hms m hm
      exact heq ▸ Node.isCanonical_of_entriesToJson? entries hes e he

theorem Node.itemsCanonical_of_itemsToJson? : ∀ (items : List Node) {vs : List Value},
    Node.itemsToJson? items = some vs → Value.ItemsCanonical vs
  | [], _, h => by
    cases h
    trivial
  | n :: r, _, h => by
    rw [Node.itemsToJson?] at h
    obtain ⟨v, hv, h⟩ := Option.bind_eq_some_iff.mp h
    obtain ⟨vs, hvs, h⟩ := Option.bind_eq_some_iff.mp h
    cases h
    exact ⟨n.isCanonical_of_toJson? hv, Node.itemsCanonical_of_itemsToJson? r hvs⟩

theorem Node.isCanonical_of_entriesToJson? : ∀ (entries : List (Node × Node))
    {es : List (Value × Value)}, Node.entriesToJson? entries = some es → ∀ e ∈ es, e.2.IsCanonical
  | [], _, h => by
    cases h
    nofun
  | (k, n) :: r, _, h => by
    rw [Node.entriesToJson?] at h
    obtain ⟨key, -, h⟩ := Option.bind_eq_some_iff.mp h
    obtain ⟨v, hv, h⟩ := Option.bind_eq_some_iff.mp h
    obtain ⟨es, hes, h⟩ := Option.bind_eq_some_iff.mp h
    cases h
    intro e he
    rcases List.mem_cons.mp he with rfl | he
    · exact n.isCanonical_of_toJson? hv
    · exact Node.isCanonical_of_entriesToJson? r hes e he

end

/-- What a document is read as is canonical. -/
theorem Document.isCanonical_of_read? {d : Document} {v : Value} (h : d.read? Node.toJson = some v) :
    v.IsCanonical := by
  unfold read? at h
  obtain ⟨⟨u, n⟩, hrun, rfl⟩ := Option.map_eq_some_iff.mp h
  obtain ⟨⟨m, k⟩, -, hrun⟩ := Option.bind_eq_some_iff.mp hrun
  obtain ⟨w, hw, hrun⟩ := Option.bind_eq_some_iff.mp hrun
  cases hrun
  exact m.isCanonical_of_toJson? hw

end Yaml

/-! ### Documents -/

namespace Document

variable {bodyField path : String} {cs : List Char} {ms : List (String × Value)}

theorem isCanonical_of_yamlMembers (h : yamlMembers cs = .ok ms) : (Value.object ms).IsCanonical := by
  unfold yamlMembers at h
  split at h
  · cases h
  · cases h
    exact ⟨List.Pairwise.nil, trivial⟩
  · next hread =>
    cases h
    obtain ⟨d, -, hread⟩ := Option.bind_eq_some_iff.mp hread
    exact Yaml.Document.isCanonical_of_read? hread
  · cases h

theorem isCanonical_of_markdownMembers (h : markdownMembers bodyField cs = .ok ms) :
    (Value.object ms).IsCanonical := by
  have hbody {front : List (String × Value)} {body : List Char}
      (hfront : (Value.object front).IsCanonical)
      (h : (if body.all Text.isBlank then front
        else Entries.insert bodyField (.string (String.ofList body)) front) = ms) :
      (Value.object ms).IsCanonical := by
    split at h
    · exact h ▸ hfront
    · subst h
      refine ⟨Entries.sorted_insert _ _ hfront.1, Value.membersCanonical_iff.mpr fun m hm => ?_⟩
      rcases Entries.mem_insert hm with rfl | hm
      · trivial
      · exact Value.membersCanonical_iff.mp hfront.2 m hm
  unfold markdownMembers at h
  split at h
  next front body _ =>
    cases front with
    | none => exact hbody ⟨List.Pairwise.nil, trivial⟩ (Except.ok.inj h)
    | some yaml =>
      obtain ⟨front, hfront, h⟩ := exists_of_bind_eq_ok h
      exact hbody (isCanonical_of_yamlMembers hfront) (Except.ok.inj h)

/-- **The documents in files are canonical.** -/
theorem isCanonical_of_parse {content : Bytes} (h : parse bodyField path content = .ok ms) :
    (Value.object ms).IsCanonical := by
  have h := eq_ok_of_mapError h
  split at h
  · next format _ =>
    split at h
    · next text _ =>
      have h : members bodyField text.toList format = .ok ms := h
      cases format with
      | markdown => exact isCanonical_of_markdownMembers h
      | yaml => exact isCanonical_of_yamlMembers h
      | json =>
        rw [members] at h
        split at h
        · next v hv =>
          obtain ⟨u, -, rfl⟩ := Option.map_eq_some_iff.mp hv
          have hcanonical := u.isCanonical_canonical
          unfold object at h
          split at h
          · next heq =>
            cases h
            exact heq ▸ hcanonical
          · cases h
        · cases h
    · cases h
  · cases h

end Document

/-! ### Values of documents -/

namespace FieldValue

mutual

/-- The value is as it comes from a document: its numbers are finite, the values that it takes over
are canonical, and the fields of its objects are in order. -/
def Regular : FieldValue → Prop
  | .number x => x.isFinite
  | .richText v => v.IsCanonical
  | .list items => ItemsRegular items
  | .object _ fields => Entries.Sorted fields ∧ FieldsRegular fields
  | _ => True

/-- The items are as they come from a document. -/
def ItemsRegular : List FieldValue → Prop
  | [] => True
  | v :: r => v.Regular ∧ ItemsRegular r

/-- The values of the fields are as they come from a document. -/
def FieldsRegular : List (String × FieldValue) → Prop
  | [] => True
  | (_, v) :: r => v.Regular ∧ FieldsRegular r

end

theorem itemsRegular_iff {items : List FieldValue} : ItemsRegular items ↔ ∀ v ∈ items, v.Regular := by
  induction items with
  | nil => simp [ItemsRegular]
  | cons v items ih => simp [ItemsRegular, ih]

theorem fieldsRegular_iff {fields : List (String × FieldValue)} :
    FieldsRegular fields ↔ ∀ f ∈ fields, f.2.Regular := by
  induction fields with
  | nil => simp [FieldsRegular]
  | cons f fields ih =>
    obtain ⟨name, v⟩ := f
    simp [FieldsRegular, ih]

end FieldValue

open FieldValue (FieldsRegular Regular)

namespace Graph

variable {rules : Rules} {location : String}

theorem yields_regular_checkNumber (n : Json.Number) : (checkNumber location n).Yields Regular :=
  fun w v w' h => by
    have hconforms := yields_checkNumber (G := .ofCollections []) n w v w' h
    cases hconforms with
    | number finite => exact finite

theorem yields_regular_checkReference {collections : List String} (s : String) :
    (checkReference rules location collections s).Yields Regular := by
  unfold checkReference
  dsimp only
  split
  · exact .refuse
  · exact .pure trivial

mutual

/-- **What is made of canonical values is regular.** -/
theorem Kind.yields_regular {location : String} : ∀ (k : Kind) {v : Value}, v.IsCanonical →
    (k.normalize rules location v).Yields Regular := by
  intro k v hv
  rw [Kind.normalize.eq_def]
  cases k with
  | string | boolean => cases v <;> first | exact .refuse | exact .pure trivial
  | richText => exact .pure hv
  | number =>
    cases v with
    | number n => exact yields_regular_checkNumber n
    | _ => exact .refuse
  | datetime =>
    cases v with
    | string s =>
      show Checked.Yields (match Instant.canonical? s with
        | some d => _
        | none => _) _
      split
      · exact .pure trivial
      · exact .refuse
    | _ => exact .refuse
  | reference targets =>
    cases v with
    | string s => exact yields_regular_checkReference s
    | _ => exact .refuse
  | list items =>
    cases v with
    | array vs =>
      refine .bind (.mapM fun x hx => ?_) fun values hvalues =>
        .pure (FieldValue.itemsRegular_iff.mpr hvalues)
      show Checked.Yields (if _ then _ else _) _
      split
      · exact .refuse
      · refine Kind.yields_regular items (Json.Value.itemsCanonical_iff.mp hv x.1 ?_)
        exact List.fst_mem_of_mem_zipIdx hx
    | _ => exact .refuse
  | object templates =>
    cases v with
    | object members =>
      show Checked.Yields (match selectTemplate rules.policy templates members with
        | .error fault => _
        | .ok t => _) _
      split
      · exact .refuse
      · exact .bind (Template.yields_regular templates hv) fun _ hfields => .pure hfields
    | _ => exact .refuse

/-- What is made of the fields of a canonical object is regular. -/
theorem Template.yields_regular {location name : String} {members : List (String × Value)} :
    ∀ ts : List Template, (Value.object members).IsCanonical →
      (Template.normalizeAs rules location name members ts).Yields fun fields =>
        Entries.Sorted fields ∧ FieldsRegular fields
  | [], _ => .pure ⟨List.Pairwise.nil, trivial⟩
  | ⟨n, fs⟩ :: r, h => by
    rw [Template.normalizeAs]
    split
    · refine .bind .any fun _ _ => .bind (Field.yields_regular fs h) fun l hl => .pure ?_
      exact ⟨Entries.sorted_ofList l, FieldValue.fieldsRegular_iff.mpr fun f hf =>
        hl f (Entries.mem_of_mem_ofList hf)⟩
    · exact Template.yields_regular r h

theorem Field.yields_regular {location template : String} {members : List (String × Value)} :
    ∀ fs : List Field, (Value.object members).IsCanonical →
      (Field.normalizeAll rules location template members fs).Yields fun l => ∀ f ∈ l, f.2.Regular
  | [], _ => .pure nofun
  | ⟨name, kind, required, _⟩ :: r, h => by
    rw [Field.normalizeAll]
    split
    · next v hv =>
      obtain ⟨hfind, -⟩ := Option.filter_eq_some_iff.mp hv
      refine .bind (Kind.yields_regular kind (h.member hfind)) fun value hvalue => ?_
      exact .bind (Field.yields_regular r h) fun l hl => .pure (List.forall_mem_cons.mpr ⟨hvalue, hl⟩)
    · split
      · exact .refuse
      · exact Field.yields_regular r h

end

end Graph

/-- **The values in the records of documents are regular.** -/
theorem Database.regular_of_record {db : Database} {c : Graph.Collection} {path : String}
    {content : Bytes} {r : Record} {ws : List Warning} (h : db.record c path content = .ok (r, ws)) :
    Entries.Sorted r.fields ∧ FieldsRegular r.fields := by
  unfold record at h
  obtain ⟨members, hparse, h⟩ := exists_of_bind_eq_ok h
  unfold Graph.Collection.record at h
  obtain ⟨t, -, h⟩ := exists_of_bind_eq_ok h
  obtain ⟨⟨fields, warnings⟩, hfields, h⟩ := exists_of_bind_eq_ok h
  cases h
  have hcanonical := Document.isCanonical_of_parse (eq_ok_of_mapError hparse)
  exact Graph.Template.yields_regular c.templates hcanonical [] _ _ (eq_ok_of_mapError hfields)

end ContentIndex
