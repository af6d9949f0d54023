import ContentIndex.Proofs.MapEntries
import ContentIndex.Proofs.Traversals

/-!
# Projections mirror selections

What a projection shows has the shape of its selection. An object is shown for every document and every
object that is selected into, with the selected names as its keys, and each of its values mirrors the
selection for its name. The notes of a projection come from the references in it that lead nowhere, one
from each, in order.

## Main definitions

* `Selection.Distinct`: selections that select a name once
* `Selection.Mirrors`: a value with notes that mirrors a selection

## Main results

* `Selection.takes_project`: **a projection shows what mirrors its selection**, unless something that
  it meets cannot be passed
-/

namespace ContentIndex

open Graph (Kind systemTemplate)
open Json (Value)

/-! ### Selections that select a name once -/

/-- No name is selected twice, at any depth. Selections are maps, so all are like that; only lists of
pairs that stand for no map are not. -/
inductive Selection.Distinct : Selection → Prop
  | mk {fields : List (String × Selection)} (hnodup : (fields.map (·.1)).Nodup)
    (h : ∀ f ∈ fields, f.2.Distinct) : Distinct (.mk fields)

namespace Selection

theorem Distinct.nodup {fields : List (String × Selection)} (h : Distinct (.mk fields)) :
    (fields.map (·.1)).Nodup := by
  cases h with
  | mk hnodup _ => exact hnodup

theorem Distinct.inner {fields : List (String × Selection)} (h : Distinct (.mk fields)) :
    ∀ f ∈ fields, f.2.Distinct := by
  cases h with
  | mk _ h => exact h

mutual

/-- A selection that is read has no name twice. -/
theorem distinct_of_ofDraft? : ∀ (d : Json.Draft) {sel : Selection},
    ofDraft? d = some sel → sel.Distinct
  | .object members, sel, h => by
    rw [ofDraft?] at h
    obtain ⟨fields, hfields, h⟩ := Option.bind_eq_some_iff.mp h
    cases h
    have hnodup : ((Entries.ofList fields).map (·.1)).Nodup :=
      List.pairwise_map.mpr ((Entries.sorted_ofList fields).imp Std.ne_of_lt)
    refine ⟨hnodup, fun f hf => ?_⟩
    exact distinct_of_ofMembers? members hfields f (Entries.mem_of_mem_ofList hf)
  | .null, _, h | .bool _, _, h | .number _, _, h | .string _, _, h | .array _, _, h
  | .unreadable, _, h => by
    rw [ofDraft?] at h
    · cases h
    · nofun

theorem distinct_of_ofMembers? : ∀ (members : List (Json.MemberName × Json.Draft))
    {fields : List (String × Selection)}, ofMembers? members = some fields →
      ∀ f ∈ fields, f.2.Distinct
  | [], fields, h => by
    rw [ofMembers?] at h
    cases h
    exact nofun
  | (name, d) :: rest, fields, h => by
    rw [ofMembers?] at h
    obtain ⟨text, -, h⟩ := Option.bind_eq_some_iff.mp h
    obtain ⟨inner, hinner, h⟩ := Option.bind_eq_some_iff.mp h
    obtain ⟨others, hothers, h⟩ := Option.bind_eq_some_iff.mp h
    cases h
    exact List.forall_mem_cons.mpr
      ⟨distinct_of_ofDraft? d hinner, distinct_of_ofMembers? rest hothers⟩

end

end Selection

/-! ### Mirrors -/

/-- A selection cannot go into the value: it is no list, no object and no reference that its kind knows
as one. -/
def Graph.Kind.IsPlain : Kind → FieldValue → Prop
  | .list _, .list _ | .object _, .object _ _ | .reference _, .reference _ => False
  | _, _ => True

namespace Selection

variable (x : Snapshot) (s : Store)

mutual

/-- A document or an object at a place, a selection, what is shown of it, and the notes on it. -/
inductive Mirrors : Composite → String → Selection → Value → List Dangling → Prop
  /-- If nothing in particular is selected then all of it is shown, and nothing is noted. -/
  | whole {d here} : Mirrors d here (.mk []) (d.withTemplate (FieldValue.fieldsToJson d.fields)) []
  /-- Otherwise an object is shown. Its keys are the selected names, and the template if there is a
  choice of templates. Its notes are those of its fields, in order. -/
  | selected {d here fields values members ws} (hne : fields ≠ [])
      (hvalues : FieldsMirror d here fields values ws) (hsorted : Entries.Sorted members)
      (hkeys : ∀ name, name ∈ members.map (·.1) ↔
        name ∈ fields.map (·.1) ∨ name = systemTemplate ∧ 1 < d.templates.length)
      (hmembers : ∀ e ∈ values, e ∈ members)
      (htemplate : systemTemplate ∉ fields.map (·.1) → 1 < d.templates.length →
        (systemTemplate, .string d.template) ∈ members) :
    Mirrors d here (.mk fields) (.object members) ws

/-- Selected fields, each with its value. -/
inductive FieldsMirror : Composite → String → List (String × Selection) → List (String × Value) →
    List Dangling → Prop
  | nil {d here} : FieldsMirror d here [] [] []
  | cons {d here name inner v ws fields values ws'} (h : FieldMirrors d here name inner v ws)
      (hrest : FieldsMirror d here fields values ws') :
    FieldsMirror d here ((name, inner) :: fields) ((name, v) :: values) (ws ++ ws')

/-- One selected field. -/
inductive FieldMirrors : Composite → String → String → Selection → Value → List Dangling → Prop
  /-- A system field has its own value. -/
  | system {d here name inner v} (h : Entries.find? name d.system = some v) :
    FieldMirrors d here name inner v []
  /-- A field that is not set, or not declared by the template, is shown as nothing, and that is not
  noted. -/
  | unset {d here name inner} (hsystem : Entries.find? name d.system = none)
      (h : d.field? name = none) : FieldMirrors d here name inner .null []
  /-- What is set is shown. -/
  | value {d here name inner k fv v ws} (hsystem : Entries.find? name d.system = none)
      (h : d.field? name = some (k, fv))
      (hvalue : ValueMirrors k fv (Graph.memberLocation here name) inner v ws) :
    FieldMirrors d here name inner v ws

/-- A value of a kind at a place. -/
inductive ValueMirrors : Kind → FieldValue → String → Selection → Value → List Dangling → Prop
  /-- A list is shown value by value. -/
  | list {items vs here inner values ws} (h : ItemsMirror items here 0 vs inner values ws) :
    ValueMirrors (.list items) (.list vs) here inner (.array values) ws
  /-- An object is shown like a document. -/
  | object {templates template fields here inner v ws}
      (h : Mirrors (.ofObject templates template fields) here inner v ws) :
    ValueMirrors (.object templates) (.object template fields) here inner v ws
  /-- A reference that is not selected into is its path. -/
  | path {allowed t here inner} (hinner : inner.isEmpty) :
    ValueMirrors (.reference allowed) (.reference t) here inner (.string t.path) []
  /-- A reference that is selected into is its document, if that is there. -/
  | followed {allowed t here inner c r v ws} (hinner : inner.isEmpty = false)
      (hbound : x.bound? allowed t = some c) (hstored : x.stored? s c.name t.path = .ok (some r))
      (h : Mirrors (.ofRecord c r) here inner v ws) :
    ValueMirrors (.reference allowed) (.reference t) here inner v ws
  /-- If it is not there then nothing is shown, and one note is made, with the place. -/
  | dangling {allowed t here inner c} (hinner : inner.isEmpty = false)
      (hbound : x.bound? allowed t = some c) (hstored : x.stored? s c.name t.path = .ok none) :
    ValueMirrors (.reference allowed) (.reference t) here inner .null [⟨here, c.name, t.path⟩]
  /-- Anything else is shown as it is. -/
  | plain {k fv here inner} (h : k.IsPlain fv) : ValueMirrors k fv here inner fv.toJson []

/-- The values of a list, from a number on. -/
inductive ItemsMirror : Kind → String → Nat → List FieldValue → Selection → List Value →
    List Dangling → Prop
  | nil {items here i inner} : ItemsMirror items here i [] inner [] []
  | cons {items here i fv vs inner v values ws ws'}
      (h : ValueMirrors items fv (here ++ "[" ++ toString i ++ "]") inner v ws)
      (hrest : ItemsMirror items here (i + 1) vs inner values ws') :
    ItemsMirror items here i (fv :: vs) inner (v :: values) (ws ++ ws')

end

variable {x s} {d : Composite} {here : String}

/-- The values are those of the selected names, in order. -/
theorem FieldsMirror.names {fields : List (String × Selection)} {values : List (String × Value)}
    {ws : List Dangling} (h : FieldsMirror x s d here fields values ws) :
    values.map (·.1) = fields.map (·.1) := by
  induction fields generalizing values ws with
  | nil =>
    cases h
    rfl
  | cons f fields ih =>
    cases h with
    | cons _ hrest => rw [List.map_cons, List.map_cons, ih hrest]

end Selection

/-- A list of pairs with different keys has the entries of the map it becomes. -/
theorem Entries.mem_ofList_iff {α : Type} {l : List (String × α)} (h : (l.map (·.1)).Nodup)
    {e : String × α} : e ∈ Entries.ofList l ↔ e ∈ l := by
  refine ⟨Entries.mem_of_mem_ofList, fun he => ?_⟩
  obtain ⟨v, hv⟩ := Entries.exists_mem_ofList he
  have hsame : (e.1, v) = e :=
    List.inj_on_of_nodup_map h (Entries.mem_of_mem_ofList hv) he rfl
  rwa [hsame] at hv

/-- A key is found if there is an entry of it. -/
theorem Entries.isSome_find?_iff {α : Type} {k : String} {l : List (String × α)} :
    (Entries.find? k l).isSome ↔ k ∈ l.map (·.1) := by
  induction l with
  | nil => exact iff_of_false Bool.false_ne_true List.not_mem_nil
  | cons e l ih =>
    rw [Entries.find?, List.map_cons, List.mem_cons]
    split
    · next heq => exact iff_of_true rfl (Or.inl heq)
    · next hne => exact ih.trans (or_iff_right hne).symm

/-- The template is added if there is a choice of templates and nothing else is called so. -/
theorem Composite.exists_withTemplate (d : Composite) {members : List (String × Value)}
    (h : Entries.Sorted members) : ∃ members', d.withTemplate members = .object members' ∧
      Entries.Sorted members' ∧ ∀ name, Entries.find? name members' =
        (Entries.find? name members).or
          (if name = systemTemplate ∧ 1 < d.templates.length then some (.string d.template)
            else none) := by
  unfold withTemplate
  by_cases hadd : 1 < d.templates.length ∧ Entries.find? systemTemplate members = none
  · rw [if_pos (by simp [Entries.contains, hadd])]
    refine ⟨_, rfl, Entries.sorted_insert _ _ h, fun name => ?_⟩
    rw [Entries.find?_insert]
    by_cases hname : name = systemTemplate
    · rw [if_pos hname, if_pos ⟨hname, hadd.1⟩, hname, hadd.2, Option.none_or]
    · rw [if_neg hname, if_neg fun h => hname h.1, Option.or_none]
  · rw [if_neg (by simpa [Entries.contains] using hadd)]
    refine ⟨_, rfl, h, fun name => ?_⟩
    split
    · next hname =>
      -- something is called like the template already
      obtain ⟨rfl, hmany⟩ := hname
      obtain ⟨v, hv⟩ := Option.ne_none_iff_exists'.mp fun hnone => hadd ⟨hmany, hnone⟩
      rw [hv, Option.some_or]
    · rw [Option.or_none]

namespace Selection

variable {x : Snapshot} {s : Store} {d : Composite} {here : String}

/-- The object that is shown for selected fields. -/
theorem mirrors_withTemplate {fields : List (String × Selection)} {values : List (String × Value)}
    {ws : List Dangling} (hne : fields ≠ []) (hnodup : (fields.map (·.1)).Nodup)
    (h : FieldsMirror x s d here fields values ws) :
    Mirrors x s d here (.mk fields) (d.withTemplate (Entries.ofList values)) ws := by
  obtain ⟨members, hobject, hsorted, hfind⟩ := d.exists_withTemplate (Entries.sorted_ofList values)
  have hmem {e : String × Value} : e ∈ Entries.ofList values ↔ e ∈ values :=
    Entries.mem_ofList_iff (h.names ▸ hnodup)
  have hname (name : String) :
      (Entries.find? name (Entries.ofList values)).isSome ↔ name ∈ fields.map (·.1) := by
    rw [Entries.isSome_find?_iff, ← h.names]
    simp only [List.mem_map, hmem]
  rw [hobject]
  refine .selected hne h hsorted (fun name => ?_) (fun e he => ?_) fun hnot hmany => ?_
  · rw [← Entries.isSome_find?_iff, hfind, Option.isSome_or, Bool.or_eq_true, hname]
    refine or_congr_right ?_
    split
    · next htemplate => exact iff_of_true rfl htemplate
    · next htemplate => exact iff_of_false Bool.false_ne_true htemplate
  · have hvalue := (Entries.find?_eq_some_iff (Entries.sorted_ofList values)).mpr (hmem.mpr he)
    rw [← Entries.find?_eq_some_iff hsorted, hfind, hvalue, Option.some_or]
  · -- the template is not selected, so it is the one that is added
    rw [← hname, Option.not_isSome_iff_eq_none] at hnot
    rw [← Entries.find?_eq_some_iff hsorted, hfind, hnot, Option.none_or, if_pos ⟨rfl, hmany⟩]

/-! ### Projections -/

open Projecting (Takes)

variable (x s) {inner : Selection}

/-- What is shown of a value that is in no list. -/
theorem takes_visit (hinner : ∀ d here, Takes x s (inner.project x d here) (inner.tour x s d here)
      (Mirrors x s d here inner)) {k : Kind} {v : FieldValue}
    (hleaf : ∀ items vs, k = .list items → v = .list vs → False) (here : String) :
    Takes x s (inner.visit x k v here) (inner.tourLeaf x s (k, v, here))
      (ValueMirrors x s k v here inner) := by
  unfold visit
  split
  · exact (hinner _ _).mono fun v ws h => .object h
  · next allowed t =>
    rw [tourLeaf]
    split
    · next hempty => exact .pure (.path hempty)
    · next hne =>
      have hselected : inner.isEmpty = false := Bool.not_eq_true _ ▸ hne
      show Takes x s _ ([.reference here allowed t] ++ _) _
      refine Takes.bind (x.takes_follow s allowed t here) ?_
      rintro d ⟨c, found, hbound, hstored, rfl, hnoted⟩
      rw [hnoted, Snapshot.target?_eq hbound hstored]
      cases found with
      | none => exact .pure (.dangling hselected hbound hstored)
      | some r => exact (hinner _ _).mono fun v ws h => .followed hselected hbound hstored h
  · next hobject hreference =>
    have hplain : k.IsPlain v := by
      unfold Kind.IsPlain
      split
      · exact hleaf _ _ rfl rfl
      · exact hobject _ _ _ rfl rfl
      · exact hreference _ _ rfl rfl
      · trivial
    rw [tourLeaf]
    · exact .pure (.plain hplain)
    · rintro _ _ _ _ ⟨⟩
      exact hobject _ _ _ rfl rfl
    · rintro _ _ _ ⟨⟩
      exact hreference _ _ rfl rfl

/-- What is shown of a value, value by value if it is a list. -/
theorem takes_walk (hinner : ∀ d here, Takes x s (inner.project x d here) (inner.tour x s d here)
      (Mirrors x s d here inner)) (k : Kind) (v : FieldValue) (here : String) :
    Takes x s (k.walk (inner.visit x) v here) ((k.leaves v here).flatMap (inner.tourLeaf x s))
      (ValueMirrors x s k v here inner) := by
  induction k, v using Kind.walk_induction generalizing here with
  | list items vs ih =>
    rw [Kind.walk, Kind.leaves, List.flatMap_assoc]
    refine Takes.map ?_ fun values ws h => .list h
    -- the values are shown one after another, whatever number the first has
    generalize 0 = i
    induction vs generalizing i with
    | nil => exact .pure .nil
    | cons v vs ihvs =>
      rw [List.zipIdx_cons, List.mapM_cons, List.flatMap_cons]
      refine (ih v _).bind fun value hvalue => ?_
      exact (ihvs (i + 1)).map fun values ws h => .cons hvalue h
  | leaf k v hleaf =>
    rw [Kind.walk, Kind.leaves, List.flatMap_cons, List.flatMap_nil, List.append_nil]
    · exact takes_visit x s hinner hleaf here
    · exact hleaf
    · exact hleaf

mutual

/-- **A projection shows what mirrors its selection**, unless something that it meets cannot be
passed. -/
theorem takes_project : ∀ sel : Selection, sel.Distinct → ∀ (d : Composite) (here : String),
    Takes x s (sel.project x d here) (sel.tour x s d here) (Mirrors x s d here sel)
  | .mk fields, hdistinct, d, here => by
    rw [project, tour]
    split
    · next hempty =>
      rw [List.isEmpty_iff.mp hempty, tourFields]
      exact .pure .whole
    · next hne =>
      refine (takes_projectFields fields hdistinct.inner d here).map fun values ws h => ?_
      exact mirrors_withTemplate (fun hnil => hne (List.isEmpty_iff.mpr hnil)) hdistinct.nodup h

theorem takes_projectFields : ∀ fields : List (String × Selection),
    (∀ f ∈ fields, f.2.Distinct) → ∀ (d : Composite) (here : String),
      Takes x s (projectFields x d here fields) (tourFields x s d here fields)
        (FieldsMirror x s d here fields)
  | [], _, d, here => by
    rw [projectFields, tourFields]
    exact .pure .nil
  | (name, inner) :: rest, hdistinct, d, here => by
    have hinner := takes_project inner (hdistinct _ (List.mem_cons_self ..))
    have hrest := takes_projectFields rest fun f hf => hdistinct f (List.mem_cons_of_mem _ hf)
    rw [projectFields_cons, tourFields_cons]
    refine Takes.bind (P := FieldMirrors x s d here name inner) ?_ fun v hv =>
      (hrest d here).map fun values ws h => .cons hv h
    unfold projectField Composite.leaves
    split
    · next v hsystem =>
      simp only [hsystem]
      exact .pure (.system hsystem)
    · next hsystem hfield =>
      simp only [hsystem, hfield]
      exact .pure (.unset hsystem hfield)
    · next k v hsystem hfield =>
      simp only [hsystem, hfield]
      exact (takes_walk x s hinner k v _).mono fun value ws h => .value hsystem hfield h

end

end Selection

end ContentIndex
