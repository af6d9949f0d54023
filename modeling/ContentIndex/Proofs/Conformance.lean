import Mathlib.Algebra.Group.Nat.Defs
import ContentIndex.Proofs.Declarations
import ContentIndex.Proofs.MapEntries
import ContentIndex.Record.Normalization

/-!
# Records conform to their collections

What becomes of a document has the shape that its collection declares. The template is one of the
collection, the fields are some of the template with all required ones among them, and each value
is one of the kind of its field, however deep it lies. As templates of one collection agree about
fields that they share, the values of a field have the same tag in all records.

## Main definitions

* `Graph.Points`: the targets that a reference may have
* `FieldValue.Conforms`: the values of a kind
* `Record.Conforms`: the records of a collection
* `Graph.Checked.Yields`: what a check yields unless it fails

## Main results

* `Binary64.isFinite_ofInt`: whole numbers of 64 bits are finite doubles
* `Graph.Kind.yields_normalize`: **values are made to conform to their kind**
* `Graph.Collection.conforms_and_tag_eq`: **records conform, and each field has one tag**
-/

namespace ContentIndex

open Json (Value)

/-! ### Numbers -/

theorem divHalfEven_le (a b : Nat) : divHalfEven a b ≤ a / b + 1 := by
  unfold divHalfEven
  dsimp only
  split_ifs <;> omega

theorem log2_mul_two_pow_lt {n a b s : Nat} (hs : s = 2 ^ b) (h : n < 2 ^ a) (hne : n * s ≠ 0) :
    Nat.log2 (n * s) < a + b := by
  rw [Nat.log2_lt hne, Nat.pow_add, hs]
  exact Nat.mul_lt_mul_of_pos_right h (Nat.two_pow_pos b)

namespace Binary64

theorem magnitude_ofMagnitude {negative : Bool} {m : Nat} (h : m < 2 ^ 63) :
    (ofMagnitude negative m).magnitude = m := by
  unfold ofMagnitude magnitude
  rw [UInt64.toNat_ofNat']
  cases negative <;> simp <;> omega

/-- **A whole number of 64 bits is a finite double.** -/
theorem isFinite_ofInt {i : Int} (h : i.natAbs < 2 ^ 64) : (ofInt i).isFinite := by
  set u := i.natAbs * scale
  set k := Nat.log2 u - 52
  have hexponent : k ≤ 1085 := by
    by_cases hu : u = 0
    · simp [k, hu]
    · have hlog : Nat.log2 u < 64 + 1074 := log2_mul_two_pow_lt (by rw [scale]) h hu
      omega
  have hquotient : u / 2 ^ k < 2 ^ 53 := by
    rw [Nat.div_lt_iff_lt_mul (Nat.two_pow_pos k), ← Nat.pow_add]
    exact Nat.lt_of_lt_of_le Nat.lt_log2_self (Nat.pow_le_pow_right (by decide) (by omega))
  have hround := divHalfEven_le u (2 ^ k)
  have hsize : k * hidden + divHalfEven u (2 ^ k) < infinite := by
    unfold infinite hidden
    omega
  have hofInt : ofInt i =
      ofMagnitude (decide (i < 0)) (min infinite (k * hidden + divHalfEven u (2 ^ k))) := by
    rw [ofInt, ofFraction, Nat.div_one, Nat.one_mul]
  rw [isFinite, hofInt, Nat.min_eq_right (Nat.le_of_lt hsize),
    magnitude_ofMagnitude (Nat.lt_trans hsize (by decide))]
  exact decide_eq_true hsize

end Binary64

namespace Graph

/-- The path belongs to the collection of the given name. -/
def Has (G : Graph) (path name : String) : Prop :=
  ∃ c, G.collection? name = some c ∧ c.containsPath path

/-- A reference into the given collections has a path that is not empty and does not begin with the
current directory. Its collection is the first of them that has the path, if one has it. -/
structure Points (G : Graph) (targets : List String) (t : Target) : Prop where
  /-- The path is not empty. -/
  path_ne : t.path ≠ ""
  /-- It does not begin with the current directory. -/
  bare : ¬ ['.', '/'] <+: t.path.toList
  /-- The collection is one of those given and has the path, and none before it does. -/
  collection : ∀ name ∈ t.collection, ∃ before after, targets = before ++ name :: after ∧
    G.Has t.path name ∧ ∀ n ∈ before, ¬ G.Has t.path n
  /-- Without a collection, none of them has the path. -/
  absent : t.collection = none → ∀ n ∈ targets, ¬ G.Has t.path n

end Graph

open Graph (Kind Template Field)

/-- The value is one of the kind. An object has a template of the kind, some of the fields of the
template with all required ones among them, and in each field a value of its kind. -/
inductive FieldValue.Conforms (G : Graph) : FieldValue → Kind → Prop
  | string (s : String) : Conforms G (.string s) .string
  | number {x : Binary64} (finite : x.isFinite) : Conforms G (.number x) .number
  | boolean (b : Bool) : Conforms G (.boolean b) .boolean
  | datetime (s : String) : Conforms G (.datetime s) .datetime
  | richText (v : Value) : Conforms G (.richText v) .richText
  | reference {t : Target} {targets : List String} (points : G.Points targets t) :
      Conforms G (.reference t) (.reference targets)
  | list {vs : List FieldValue} {items : Kind} (all : ∀ v ∈ vs, Conforms G v items) :
      Conforms G (.list vs) (.list items)
  | object {fields : List (String × FieldValue)} {t : Template} {templates : List Template}
      (template : t ∈ templates) (sorted : Entries.Sorted fields)
      (declared : ∀ x ∈ fields, (t.field? x.1).isSome)
      (required : ∀ f ∈ t.fields, f.required → ∃ v, (f.name, v) ∈ fields)
      (values : ∀ x ∈ fields, ∀ f, t.field? x.1 = some f → Conforms G x.2 f.kind) :
      Conforms G (.object t.name fields) (.object templates)

/-- The template and the fields of the record are those of an object by the templates of the
collection. -/
def Record.Conforms (G : Graph) (c : Graph.Collection) (r : Record) : Prop :=
  (FieldValue.object r.template r.fields).Conforms G (.object c.templates)

/-- Values of a kind have its tag. -/
theorem FieldValue.Conforms.tag_eq {G : Graph} {v : FieldValue} {k : Kind} (h : v.Conforms G k) :
    v.tag = k.label := by
  cases h <;> rfl

/-- A field of a record is declared by a template of the collection, and has a value of its kind. -/
theorem Record.Conforms.exists_field {G : Graph} {c : Graph.Collection} {r : Record}
    (h : r.Conforms G c) {name : String} {v : FieldValue} (hv : (name, v) ∈ r.fields) :
    ∃ t ∈ c.templates, ∃ f, t.field? name = some f ∧ v.Conforms G f.kind := by
  unfold Record.Conforms at h
  generalize hname : r.template = template at h
  cases h with
  | object template sorted declared required values =>
    obtain ⟨f, hf⟩ := Option.isSome_iff_exists.mp (declared _ hv)
    exact ⟨_, template, f, hf, values _ hv f hf⟩

/-- The fields of a record are in order. -/
theorem Record.Conforms.sorted {G : Graph} {c : Graph.Collection} {r : Record}
    (h : r.Conforms G c) : Entries.Sorted r.fields := by
  unfold Record.Conforms at h
  generalize hname : r.template = template at h
  cases h with
  | object template sorted declared required values => exact sorted

namespace Graph

/-! ### Checks -/

variable {α β : Type}

/-- What the check yields, if it does not fail, has the property. -/
def Checked.Yields (t : Checked α) (P : α → Prop) : Prop :=
  ∀ w a w', t.run w = .ok (a, w') → P a

namespace Checked.Yields

variable {P : α → Prop} {Q : β → Prop}

theorem pure {a : α} (h : P a) : (Pure.pure a : Checked α).Yields P := by
  rintro w _ _ ⟨⟩
  exact h

theorem bind {t : Checked α} {f : α → Checked β} (ht : t.Yields P)
    (hf : ∀ a, P a → (f a).Yields Q) : (t >>= f).Yields Q := by
  intro w b w' h
  rw [StateT.run_bind] at h
  obtain ⟨⟨a, w₁⟩, ha, hb⟩ := exists_of_bind_eq_ok h
  exact hf a (ht w a w₁ ha) w₁ b w' hb

theorem refuse {location : String} {fault : FieldFault} :
    (Checked.refuse location fault : Checked α).Yields P := by
  rintro w a w' ⟨⟩

theorem any {t : Checked α} : t.Yields fun _ => True := fun _ _ _ _ => trivial

theorem mono {t : Checked α} {R : α → Prop} (ht : t.Yields P) (h : ∀ a, P a → R a) : t.Yields R :=
  fun w a w' hrun => h a (ht w a w' hrun)

theorem mapM {l : List α} {f : α → Checked β} (h : ∀ a ∈ l, (f a).Yields Q) :
    (l.mapM f).Yields fun bs => ∀ b ∈ bs, Q b := by
  induction l with
  | nil => exact pure nofun
  | cons a l ih =>
    rw [List.mapM_cons]
    refine bind (h a (List.mem_cons_self ..)) fun b hb => ?_
    refine bind (ih fun a ha => h a (List.mem_cons_of_mem _ ha)) fun bs hbs => pure ?_
    intro b' hb'
    rcases List.mem_cons.mp hb' with rfl | hb'
    · exact hb
    · exact hbs b' hb'

end Checked.Yields

theorem toFloat_isFinite (n : Json.Number) : n.toFloat.isFinite := by
  cases n with
  | int i fits => exact Binary64.isFinite_ofInt (by omega)
  | float x finite => exact finite

variable {G : Graph} {rules : Rules} {names : List String}

theorem yields_checkNumber {location : String} (n : Json.Number) :
    (checkNumber location n).Yields fun v => v.Conforms G .number := by
  unfold checkNumber
  have hnumber : (Pure.pure (.number n.toFloat) : Checked FieldValue).Yields
      fun v => v.Conforms G .number := .pure (.number (toFloat_isFinite n))
  cases n with
  | int i fits =>
    show Checked.Yields (if _ then _ else _) _
    split
    · exact .bind .any fun _ _ => hnumber
    · exact hnumber
  | float x finite => exact hnumber

theorem not_prefix_withoutDots (cs : List Char) : ¬ ['.', '/'] <+: withoutDots cs := by
  fun_induction withoutDots cs with
  | case1 r ih => exact ih
  | case2 cs h =>
    rintro ⟨r, rfl⟩
    exact h r rfl

theorem mem_of_matchTemplate? {policy : TemplatePolicy} {ts : List Template}
    {present : List String} {t : Template} (h : matchTemplate? policy ts present = some t) :
    t ∈ ts := by
  have hmet {t : Template} (ht : t ∈ ts.filter (·.isMetBy present)) : t ∈ ts :=
    (List.mem_filter.mp ht).1
  unfold matchTemplate? at h
  cases policy with
  | firstMatch => exact hmet (List.mem_of_head? h)
  | bestFit =>
    rcases Option.or_eq_some_iff.mp h with h | ⟨-, h⟩
    · exact hmet (List.mem_of_find?_eq_some h)
    · exact hmet (List.mem_of_head? h)

theorem mem_of_selectTemplate {policy : TemplatePolicy} {ts : List Template}
    {members : List (String × Value)} {t : Template}
    (h : selectTemplate policy ts members = .ok t) : t ∈ ts := by
  unfold selectTemplate at h
  split at h
  · split at h
    · next hfind =>
      cases h
      exact List.mem_of_find?_eq_some hfind
    · cases h
  · cases h
  · split at h
    · next hmatch =>
      cases h
      exact mem_of_matchTemplate? hmatch
    · cases h

/-- The first of the given collections that has a path. -/
theorem find?_filterMap_collection? {targets : List String} {path : String} :
    (∀ c, (targets.filterMap G.collection?).find? (·.containsPath path) = some c →
      ∃ before after, targets = before ++ c.name :: after ∧ G.Has path c.name ∧
        ∀ n ∈ before, ¬ G.Has path n) ∧
    ((targets.filterMap G.collection?).find? (·.containsPath path) = none →
      ∀ n ∈ targets, ¬ G.Has path n) := by
  induction targets with
  | nil => exact ⟨nofun, fun _ => nofun⟩
  | cons name targets ih =>
    obtain ⟨hsome, hnone⟩ := ih
    have hpass {c : Collection} (hname : ¬ G.Has path name)
        (h : (targets.filterMap G.collection?).find? (·.containsPath path) = some c) :
        ∃ before after, name :: targets = before ++ c.name :: after ∧ G.Has path c.name ∧
          ∀ n ∈ before, ¬ G.Has path n := by
      obtain ⟨before, after, rfl, hhas, hbefore⟩ := hsome c h
      exact ⟨name :: before, after, rfl, hhas, List.forall_mem_cons.mpr ⟨hname, hbefore⟩⟩
    cases hc : G.collection? name with
    | none =>
      have hname : ¬ G.Has path name := by
        rintro ⟨c, hc', -⟩
        rw [hc] at hc'
        cases hc'
      rw [List.filterMap_cons_none hc]
      exact ⟨fun c h => hpass hname h, fun h => List.forall_mem_cons.mpr ⟨hname, hnone h⟩⟩
    | some d =>
      rw [List.filterMap_cons_some hc]
      by_cases hd : d.containsPath path
      · rw [List.find?_cons_of_pos (p := fun c : Collection => c.containsPath path) hd]
        refine ⟨?_, nofun⟩
        rintro _ ⟨⟩
        obtain rfl : d.name = name := eq_of_find?_name hc
        exact ⟨[], targets, rfl, ⟨d, hc, hd⟩, nofun⟩
      · have hname : ¬ G.Has path name := by
          rintro ⟨c, hc', hcontains⟩
          obtain rfl := Option.some.inj (hc.symm.trans hc')
          exact hd hcontains
        rw [List.find?_cons_of_neg (p := fun c : Collection => c.containsPath path) hd]
        exact ⟨fun c h => hpass hname h, fun h => List.forall_mem_cons.mpr ⟨hname, hnone h⟩⟩

theorem yields_checkReference {location : String} {targets : List String} (s : String) :
    (checkReference rules location targets s).Yields
      fun v => v.Conforms rules.graph (.reference targets) := by
  unfold checkReference
  dsimp only
  split
  · exact .refuse
  · next hne =>
    obtain ⟨hsome, hnone⟩ := @find?_filterMap_collection? rules.graph targets
      (String.ofList (withoutDots s.toList))
    refine .pure (.reference ⟨fun hempty => ?_, ?_, fun name hname => ?_, fun h => ?_⟩)
    · have hpath : String.ofList (withoutDots s.toList) = "" := hempty
      exact hne (hpath ▸ rfl)
    · show ¬ _ <+: (String.ofList _).toList
      rw [String.toList_ofList]
      exact not_prefix_withoutDots _
    · obtain ⟨c, hc, rfl⟩ := Option.map_eq_some_iff.mp hname
      exact hsome c hc
    · exact hnone (Option.map_eq_none_iff.mp h)

/-! ### Values -/

mutual

/-- **Values are made to conform to their kind.** -/
theorem Kind.yields_normalize {location : String} {k : Kind} (hk : k.Declared names) (v : Value) :
    (k.normalize rules location v).Yields fun v => v.Conforms rules.graph k := by
  rw [Kind.normalize.eq_def]
  cases k with
  | string => cases v <;> first | exact .refuse | exact .pure (.string _)
  | boolean => cases v <;> first | exact .refuse | exact .pure (.boolean _)
  | richText => exact .pure (.richText _)
  | number =>
    cases v with
    | number n => exact yields_checkNumber n
    | _ => exact .refuse
  | datetime =>
    cases v with
    | string s =>
      show Checked.Yields (match Instant.canonical? s with
        | some d => _
        | none => _) _
      split
      · exact .pure (.datetime _)
      · exact .refuse
    | _ => exact .refuse
  | reference targets =>
    cases v with
    | string s => exact yields_checkReference s
    | _ => exact .refuse
  | list items =>
    cases v with
    | array vs =>
      refine .bind (.mapM fun x _ => ?_) fun values hvalues => .pure (.list hvalues)
      show Checked.Yields (if _ then _ else _) _
      split
      · exact .refuse
      · exact Kind.yields_normalize (k := items) hk x.1
    | _ => exact .refuse
  | object templates =>
    cases v with
    | object members =>
      show Checked.Yields (match selectTemplate rules.policy templates members with
        | .error fault => _
        | .ok t => _) _
      split
      · exact .refuse
      · next t hselect =>
        exact .bind (Template.yields_normalizeAs hk.2 (List.Subset.refl _)
          ⟨t, mem_of_selectTemplate hselect, rfl⟩) fun _ hfields => .pure hfields
    | _ => exact .refuse

/-- The fields of an object are those of the first template of the name. -/
theorem Template.yields_normalizeAs {location name : String} {members : List (String × Value)}
    {ts templates : List Template} (hts : Template.AllDeclared names ts) (hsub : ts ⊆ templates)
    (hname : ∃ t ∈ ts, t.name = name) :
    (Template.normalizeAs rules location name members ts).Yields fun fields =>
      (FieldValue.object name fields).Conforms rules.graph (.object templates) := by
  match ts with
  | [] => exact absurd hname (by simp)
  | ⟨n, fs⟩ :: r =>
    rw [Template.normalizeAs]
    split
    · next heq =>
      subst heq
      refine .bind .any fun _ _ => .bind (Field.yields_normalizeAll hts.2.1) fun l hl => .pure ?_
      obtain ⟨hvalues, hrequired⟩ := hl
      have hfound {x : String × FieldValue} (hx : x ∈ Entries.ofList l) :
          ∃ f, Template.field? ⟨n, fs⟩ x.1 = some f ∧ x.2.Conforms rules.graph f.kind := by
        obtain ⟨f, hf, hname, hconforms⟩ := hvalues x (Entries.mem_of_mem_ofList hx)
        exact ⟨f, hname ▸ find?_name_eq hts.1 hf, hconforms⟩
      refine .object (t := ⟨n, fs⟩) (hsub (List.mem_cons_self ..)) (Entries.sorted_ofList l) ?_ ?_ ?_
      · intro x hx
        obtain ⟨f, hf, -⟩ := hfound hx
        exact hf ▸ rfl
      · intro f hf hreq
        obtain ⟨v, hv⟩ := hrequired f hf hreq
        exact Entries.exists_mem_ofList hv
      · intro x hx f hf
        obtain ⟨g, hg, hconforms⟩ := hfound hx
        exact Option.some.inj (hg.symm.trans hf) ▸ hconforms
    · next hne =>
      refine Template.yields_normalizeAs hts.2.2 (fun t ht => hsub (List.mem_cons_of_mem _ ht)) ?_
      obtain ⟨t, ht, rfl⟩ := hname
      rcases List.mem_cons.mp ht with rfl | ht
      · exact absurd rfl hne
      · exact ⟨t, ht, rfl⟩

theorem Field.yields_normalizeAll {location template : String} {members : List (String × Value)}
    {fs : List Field} (hfs : Field.AllDeclared names fs) :
    (Field.normalizeAll rules location template members fs).Yields fun l =>
      (∀ x ∈ l, ∃ f ∈ fs, f.name = x.1 ∧ x.2.Conforms rules.graph f.kind) ∧
        ∀ f ∈ fs, f.required → ∃ v, (f.name, v) ∈ l := by
  match fs with
  | [] => exact .pure ⟨nofun, nofun⟩
  | ⟨name, kind, required, indexed⟩ :: r =>
    have hrest : (Field.normalizeAll rules location template members r).Yields fun l =>
        (∀ x ∈ l, ∃ f ∈ r, f.name = x.1 ∧ x.2.Conforms rules.graph f.kind) ∧
          ∀ f ∈ r, f.required → ∃ v, (f.name, v) ∈ l :=
      Field.yields_normalizeAll hfs.2.2
    rw [Field.normalizeAll]
    split
    · next v _ =>
      refine .bind (Kind.yields_normalize hfs.2.1 v) fun value hvalue => ?_
      refine .bind hrest fun l hl => .pure ⟨fun x hx => ?_, fun f hf hreq => ?_⟩
      · rcases List.mem_cons.mp hx with rfl | hx
        · exact ⟨_, List.mem_cons_self .., rfl, hvalue⟩
        · obtain ⟨f, hf, h⟩ := hl.1 x hx
          exact ⟨f, List.mem_cons_of_mem _ hf, h⟩
      · rcases List.mem_cons.mp hf with rfl | hf
        · exact ⟨value, List.mem_cons_self ..⟩
        · obtain ⟨v, hv⟩ := hl.2 f hf hreq
          exact ⟨v, List.mem_cons_of_mem _ hv⟩
    · split
      · exact .refuse
      · next hoptional =>
        intro w l w' h
        obtain ⟨hvalues, hrequired⟩ := hrest w l w' h
        refine ⟨fun x hx => ?_, List.forall_mem_cons.mpr ⟨fun hreq => absurd hreq hoptional, hrequired⟩⟩
        obtain ⟨f, hf, h⟩ := hvalues x hx
        exact ⟨f, List.mem_cons_of_mem _ hf, h⟩

end

/-! ### Records -/

section Records

variable {c : Collection} {policy : TemplatePolicy} {path contentHash : String} {document : Value}
  {r : Record} {ws : List Warning}

/-- A record has the fields of an object by the templates of its collection. -/
theorem Collection.conforms_of_record (hc : c.Declared names)
    (h : c.record G policy path contentHash document = .ok (r, ws)) : r.Conforms G c := by
  unfold Collection.record at h
  cases document with
  | object members =>
    obtain ⟨t, ht, h⟩ := exists_of_bind_eq_ok h
    obtain ⟨⟨fields, warnings⟩, hfields, h⟩ := exists_of_bind_eq_ok h
    cases h
    have hselect := mem_of_selectTemplate (eq_ok_of_mapError ht)
    exact Template.yields_normalizeAs hc.templates (List.Subset.refl _) ⟨t, hselect, rfl⟩ _ _ _
      (eq_ok_of_mapError hfields)
  | _ => cases h

/-- **Records conform to their collection, and the values of a field have one tag**, whichever
templates declare the field and whichever one the record has. -/
theorem Collection.conforms_and_tag_eq (hG : G.IsCompiled) (hc : c ∈ G.collections)
    (h : c.record G policy path contentHash document = .ok (r, ws)) :
    r.Conforms G c ∧ ∀ t ∈ c.templates, ∀ f ∈ t.fields, ∀ v, (f.name, v) ∈ r.fields →
      v.tag = f.kind.label := by
  have hdeclared := hG.declared.2 c hc
  have hconforms := conforms_of_record hdeclared h
  refine ⟨hconforms, fun t ht f hf v hv => ?_⟩
  obtain ⟨u, hu, g, hg, hvalue⟩ := hconforms.exists_field hv
  have hfield : t.field? f.name = some f :=
    find?_name_eq (Template.allDeclared_iff.mp hdeclared.templates t ht).1 hf
  rw [hvalue.tag_eq, hdeclared.union.label_eq hu ht hg hfield]

/-- Posts with a text or with a link. -/
def board : Collection :=
  ⟨"posts", "posts", none, none, false, none,
    [⟨"text", [⟨"body", .string, true, true⟩, ⟨"rank", .number, false, true⟩]⟩,
      ⟨"link", [⟨"rank", .number, false, false⟩, ⟨"to", .reference ["posts"], true, false⟩,
        ⟨"tags", .list .string, false, false⟩,
        ⟨"by", .object [⟨"by", [⟨"name", .string, true, true⟩]⟩], false, false⟩]⟩]⟩

theorem board_compiled : (ofCollections [board]).IsCompiled :=
  ⟨⟨[⟨"posts", "posts", none, none, false, none, [],
    [.mk "text" [.mk "body" (.mk .string true none [] none [] []),
        .mk "rank" (.mk .number false none [] none [] [])],
      .mk "link" [.mk "rank" (.mk .number false (some false) [] none [] []),
        .mk "to" (.mk .reference true none ["posts"] none [] []),
        .mk "tags" (.mk .list false none [] (some (.bare .string)) [] []),
        .mk "by" (.mk .object false none [] none
          [.mk "name" (.mk .string true none [] none [] [])] [])]]⟩]⟩, rfl⟩

/-- A post with a link. -/
def linkPost : Value :=
  .object [("rank", .nat 3), ("to", .string "./posts/a.json"), ("tags", .array [.string "new"]),
    ("by", .object [("name", .string "me")])]

/-- The record of the post is one of its second template, and has a rank. -/
theorem exists_linkRecord : ∃ r ws,
    board.record (ofCollections [board]) .bestFit "posts/b.json" "" linkPost = .ok (r, ws) ∧
      r.template = "link" ∧ ∃ v, ("rank", v) ∈ r.fields := by
  have hcheck : (board.record (ofCollections [board]) .bestFit "posts/b.json" ""
      linkPost).toOption.any (fun x => x.1.template = "link" ∧ "rank" ∈ x.1.fields.map (·.1)) := by
    decide +kernel
  generalize board.record (ofCollections [board]) .bestFit "posts/b.json" "" linkPost = made
    at hcheck ⊢
  cases made with
  | error skip => cases hcheck
  | ok x => exact ⟨x.1, x.2, rfl, by simpa [Except.toOption] using hcheck⟩

/-- The rank of a post with a link is a number, as that of a post with a text would be. -/
theorem Collection.conforms_and_tag_eq_linkPost : ∃ r : Record, r.template = "link" ∧
    r.Conforms (ofCollections [board]) board ∧ ∃ v, ("rank", v) ∈ r.fields ∧ v.tag = "number" := by
  obtain ⟨r, ws, hr, htemplate, v, hv⟩ := exists_linkRecord
  obtain ⟨hconforms, htag⟩ := conforms_and_tag_eq board_compiled (List.mem_singleton_self board) hr
  refine ⟨r, htemplate, hconforms, v, hv, ?_⟩
  exact htag _ (List.mem_cons_self ..) ⟨"rank", .number, false, true⟩
    (List.mem_cons_of_mem _ (List.mem_singleton_self _)) v hv

end Records

end Graph

end ContentIndex
