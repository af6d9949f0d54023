import ContentIndex.Graph.Compile
import ContentIndex.Proofs.Text
import Mathlib.Data.List.Nodup
import Mathlib.Data.List.Pairwise

/-!
# What compiled graphs declare

A schema that compiles declares everything under a proper name and once, names targets that exist,
and gives the same kind to the fields of one name in templates that are read as a union. All of that
is found in one walk through the declarations; what other modules ask of a graph follows from it.

## Main definitions

* `Graph.Reserved`: names that begin like those of system fields
* `Graph.IsUnion`: templates that can be told apart, with fields that do not conflict
* `Graph.Kind.Declared`, `Graph.Collection.Declared`: kinds and collections as a schema declares them
* `Graph.IsCompiled`: graphs of schemas

## Main results

* `Graph.declared_of_compileKind`: **a kind that compiles is well declared**
* `Graph.IsCompiled.declared`: so are the collections of a compiled graph, which have different names
-/

namespace ContentIndex

/-- A sequence that succeeds has succeeded step by step. -/
theorem exists_of_bind_eq_ok {ε α β : Type} {x : Except ε α} {f : α → Except ε β} {b : β}
    (h : x >>= f = .ok b) : ∃ a, x = .ok a ∧ f a = .ok b := by
  cases x with
  | ok a => exact ⟨a, rfl, h⟩
  | error e => cases h

theorem eq_ok_of_mapError {ε ε' α : Type} {f : ε → ε'} {x : Except ε α} {a : α}
    (h : x.mapError f = .ok a) : x = .ok a := by
  cases x with
  | ok b => exact congrArg _ (Except.ok.inj h)
  | error e => cases h

theorem eq_ok_of_toOption {ε α : Type} {x : Except ε α} {a : α} (h : x.toOption = some a) :
    x = .ok a := by
  cases x with
  | ok b => exact congrArg _ (Option.some.inj h)
  | error e => cases h

theorem forall_of_mapM_eq_ok {ε α β : Type} {f : α → Except ε β} {P : α → β → Prop} {l : List α}
    (hf : ∀ a ∈ l, ∀ b, f a = .ok b → P a b) {bs : List β} (h : l.mapM f = .ok bs) :
    List.Forall₂ P l bs := by
  induction l generalizing bs with
  | nil =>
    cases h
    exact .nil
  | cons a l ih =>
    rw [List.mapM_cons] at h
    obtain ⟨b, hb, h⟩ := exists_of_bind_eq_ok h
    obtain ⟨bs, hbs, h⟩ := exists_of_bind_eq_ok h
    cases h
    exact .cons (hf a (List.mem_cons_self ..) b hb)
      (ih (fun a ha => hf a (List.mem_cons_of_mem _ ha)) hbs)

theorem exists_of_forall₂ {α β : Type} {P : α → β → Prop} {l : List α} {bs : List β}
    (h : List.Forall₂ P l bs) {b : β} (hb : b ∈ bs) : ∃ a ∈ l, P a b := by
  induction h with
  | nil => cases hb
  | @cons a b' l bs hab _ ih =>
    rcases List.mem_cons.mp hb with rfl | hb
    · exact ⟨a, List.mem_cons_self .., hab⟩
    · obtain ⟨a', ha', hab'⟩ := ih hb
      exact ⟨a', List.mem_cons_of_mem _ ha', hab'⟩

theorem map_eq_of_forall₂ {α β γ : Type} {P : α → β → Prop} {f : α → γ} {g : β → γ} {l : List α}
    {bs : List β} (h : List.Forall₂ P l bs) (hP : ∀ a b, P a b → g b = f a) :
    bs.map g = l.map f := by
  induction h with
  | nil => rfl
  | cons hab _ ih => rw [List.map_cons, List.map_cons, hP _ _ hab, ih]

/-- What is found by its name has the name. -/
theorem eq_of_find?_name {α : Type} {name : α → String} {l : List α} {n : String} {a : α}
    (h : l.find? (fun x => decide (name x = n)) = some a) : name a = n := by
  simpa using List.find?_some h

/-- Where names are different, everything is found by its name. -/
theorem find?_name_eq {α : Type} {name : α → String} {l : List α} (h : (l.map name).Nodup) {a : α}
    (ha : a ∈ l) : l.find? (fun x => decide (name x = name a)) = some a := by
  obtain ⟨b, hb⟩ : ∃ b, l.find? (fun x => decide (name x = name a)) = some b :=
    Option.isSome_iff_exists.mp (List.find?_isSome.mpr ⟨a, ha, by simp⟩)
  rw [hb, List.inj_on_of_nodup_map h (List.mem_of_find?_eq_some hb) ha (eq_of_find?_name hb)]

namespace Graph

/-! ### Well declared kinds -/

/-- The name begins like those of system fields. -/
def Reserved (name : String) : Prop := name.toList.head? = some '_'

/-- The fields of two templates agree: those of one name have kinds that do not conflict. -/
def Template.Agrees (t u : Template) : Prop :=
  ∀ f ∈ t.fields, ∀ g, u.field? f.name = some g → f.kind.conflicts g.kind = false

/-- The templates can be read as a union. -/
structure IsUnion (ts : List Template) : Prop where
  /-- They have different names. -/
  names : (ts.map (·.name)).Nodup
  /-- Their fields agree. -/
  agree : ts.Pairwise Template.Agrees

/-- The field has a proper name of its own, and it can be ordered by only if its values can. -/
structure Field.Proper (f : Field) : Prop where
  /-- The name is one. -/
  name : isName f.name
  /-- It is not that of a system field. -/
  free : ¬ Reserved f.name
  /-- Only scalars are indexed. -/
  indexed : f.indexed → f.kind.isScalar

mutual

/-- References point into collections of the given names, objects have templates that can be read as
a union, and members have proper names and are declared once. -/
def Kind.Declared (names : List String) : Kind → Prop
  | .reference targets => ∀ t ∈ targets, t ∈ names
  | .list items => items.Declared names
  | .object templates => IsUnion templates ∧ Template.AllDeclared names templates
  | _ => True

/-- The templates have well declared fields. -/
def Template.AllDeclared (names : List String) : List Template → Prop
  | [] => True
  | ⟨_, fields⟩ :: r =>
    (fields.map (·.name)).Nodup ∧ Field.AllDeclared names fields ∧ Template.AllDeclared names r

/-- The fields are proper and have well declared kinds. -/
def Field.AllDeclared (names : List String) : List Field → Prop
  | [] => True
  | ⟨name, kind, required, indexed⟩ :: r =>
    Field.Proper ⟨name, kind, required, indexed⟩ ∧ kind.Declared names ∧ Field.AllDeclared names r

end

variable {names : List String}

theorem Template.allDeclared_iff {ts : List Template} : Template.AllDeclared names ts ↔
    ∀ t ∈ ts, (t.fields.map (·.name)).Nodup ∧ Field.AllDeclared names t.fields := by
  induction ts with
  | nil => exact iff_of_true trivial nofun
  | cons t ts ih =>
    obtain ⟨name, fields⟩ := t
    rw [Template.AllDeclared, ih, List.forall_mem_cons, and_assoc]

theorem Field.allDeclared_iff {fs : List Field} : Field.AllDeclared names fs ↔
    ∀ f ∈ fs, f.Proper ∧ f.kind.Declared names := by
  induction fs with
  | nil => exact iff_of_true trivial nofun
  | cons f fs ih =>
    obtain ⟨name, kind, required, indexed⟩ := f
    rw [Field.AllDeclared, ih, List.forall_mem_cons, and_assoc]

/-! ### Unions -/

theorem Kind.label_eq_of_not_conflicts {k l : Kind} (h : k.conflicts l = false) :
    k.label = l.label := by
  cases k with
  | list items =>
    cases l with
    | list items' => rfl
    | _ => simp [Kind.conflicts, Kind.label] at h
  | _ => simpa [Kind.conflicts] using h

/-- **Fields of one name in a union have the same kind of values.** -/
theorem IsUnion.label_eq {ts : List Template} (h : IsUnion ts) {t u : Template} (ht : t ∈ ts)
    (hu : u ∈ ts) {f g : Field} {name : String} (hf : t.field? name = some f)
    (hg : u.field? name = some g) : f.kind.label = g.kind.label := by
  let Same (t u : Template) : Prop := ∀ f g, t.field? name = some f → u.field? name = some g →
    f.kind.label = g.kind.label
  have : Std.Symm Same := ⟨fun t u hsame f g hf hg => (hsame g f hg hf).symm⟩
  have hself : ∀ t ∈ ts, Same t t := fun t _ f g hf hg => by rw [Option.some.inj (hf.symm.trans hg)]
  have hboth : ts.Pairwise Same := by
    refine h.agree.imp fun hagrees f g hf hg => ?_
    refine Kind.label_eq_of_not_conflicts (hagrees f (List.mem_of_find?_eq_some hf) g ?_)
    rwa [eq_of_find?_name hf]
  exact hboth.forall_of_forall hself ht hu f g hf hg

/-! ### Checks -/

theorem isName_of_checkName {role : NameRole} {path name : String} {u : Unit}
    (h : checkName role path name = .ok u) : isName name := by
  unfold checkName at h
  split at h
  · next hname => exact hname
  · cases h

theorem not_reserved_of_checkReserved {path name : String} {u : Unit}
    (h : checkReserved path name = .ok u) : ¬ Reserved name := by
  unfold checkReserved at h
  split at h
  · cases h
  · next hname => exact hname

theorem mem_names_of_compileTargets {path : String} {targets ts : List String}
    (h : compileTargets names path targets = .ok ts) : ∀ t ∈ ts, t ∈ names := by
  unfold compileTargets at h
  split at h
  · cases h
  · split at h
    · cases h
    · next hall =>
      cases h
      have hknown : ∀ t ∈ targets, t ∈ names := by simpa using List.find?_eq_none.mp hall
      have hfold (l : List String) (hl : ∀ t ∈ l, t ∈ names) (acc : List String)
          (hacc : ∀ t ∈ acc, t ∈ names) :
          ∀ t ∈ l.foldl (fun seen t => if seen.contains t then seen else seen ++ [t]) acc,
            t ∈ names := by
        induction l generalizing acc with
        | nil => exact hacc
        | cons x l ih =>
          obtain ⟨hx, hl⟩ := List.forall_mem_cons.mp hl
          refine ih hl _ ?_
          dsimp only
          split
          · exact hacc
          · exact List.forall_mem_append.mpr ⟨hacc, by simpa using hx⟩
      exact hfold targets hknown [] nofun

theorem indexed_of_compileIndexed {path : String} {kind : Kind} {asked : Option Bool}
    {indexed : Bool} (h : compileIndexed path kind asked = .ok indexed) :
    indexed → kind.isScalar := by
  unfold compileIndexed at h
  split at h
  · split at h
    · next hscalar =>
      cases h
      exact fun _ => hscalar
    · cases h
  · cases h
    nofun
  · cases h
    exact id

theorem agrees_of_conflict?_eq_none {owner : String} {t u : Template}
    (h : conflict? owner t u = none) : t.Agrees u := by
  intro f hf g hg
  have hnone := List.findSome?_eq_none_iff.mp h f hf
  rw [hg, Option.bind_some] at hnone
  by_contra hconflicts
  rw [if_pos (by simpa using hconflicts)] at hnone
  cases hnone

/-- Templates that pass are kept as they are, and they agree. -/
theorem agree_of_checkUnion {owner : String} {ts ts' : List Template}
    (h : checkUnion owner ts = .ok ts') : ts = ts' ∧ ts.Pairwise Template.Agrees := by
  have hagree (ts : List Template) (h : firstConflict? owner ts = none) :
      ts.Pairwise Template.Agrees := by
    induction ts with
    | nil => exact .nil
    | cons t r ih =>
      rw [firstConflict?, Option.or_eq_none_iff, List.findSome?_eq_none_iff] at h
      exact .cons (fun u hu => agrees_of_conflict?_eq_none (h.1 u hu)) (ih h.2)
  unfold checkUnion at h
  split at h
  · cases h
  · next hnone =>
    cases h
    exact ⟨rfl, hagree ts hnone⟩

theorem declared_of_compileBare {path : String} {type : Schema.FieldType} {k : Kind}
    (h : compileBare path type = .ok k) : k.Declared names := by
  cases type <;> cases h <;> trivial

/-! ### Kinds that compile -/

mutual

/-- **A kind that compiles is well declared.** -/
theorem declared_of_compileKind {leaf path : String} {shape : Schema.Shape} {k : Kind}
    (h : compileKind names leaf path shape = .ok k) : k.Declared names := by
  obtain ⟨type, required, indexed, targets, items, fields, templates⟩ := shape
  rw [compileKind.eq_def] at h
  cases type with
  | reference =>
    obtain ⟨ts, hts, h⟩ := exists_of_bind_eq_ok h
    cases h
    exact mem_names_of_compileTargets hts
  | list =>
    match items with
    | none => cases h
    | some items =>
      obtain ⟨k, hk, h⟩ := exists_of_bind_eq_ok h
      cases h
      show k.Declared names
      match items with
      | .bare type =>
        rw [compileItems] at hk
        exact declared_of_compileBare hk
      | .shaped shape =>
        rw [compileItems] at hk
        exact declared_of_compileKind hk
  | object =>
    match fields, templates with
    | _ :: _, _ :: _ => cases h
    | [], [] => cases h
    | f :: fields, [] =>
      obtain ⟨-, -, h⟩ := exists_of_bind_eq_ok h
      obtain ⟨fs, hfs, h⟩ := exists_of_bind_eq_ok h
      cases h
      obtain ⟨-, hnodup, hdeclared⟩ := declared_of_compileFields hfs
      exact ⟨⟨List.nodup_singleton _, List.pairwise_singleton _ _⟩, hnodup, hdeclared, trivial⟩
    | [], t :: templates =>
      obtain ⟨ts, hts, h⟩ := exists_of_bind_eq_ok h
      obtain ⟨ts', hts', h⟩ := exists_of_bind_eq_ok h
      cases h
      obtain ⟨rfl, hagree⟩ := agree_of_checkUnion hts'
      obtain ⟨-, hnodup, hdeclared⟩ := declared_of_compileTemplates hts
      exact ⟨⟨hnodup, hagree⟩, hdeclared⟩
  | _ =>
    cases h
    trivial

theorem declared_of_compileTemplates {owner : String} {seen : List String}
    {ts : List Schema.Template} {ts' : List Template}
    (h : compileTemplates names owner seen ts = .ok ts') :
    (∀ t ∈ ts', t.name ∉ seen) ∧ (ts'.map (·.name)).Nodup ∧ Template.AllDeclared names ts' := by
  match ts with
  | [] =>
    cases h
    exact ⟨nofun, List.nodup_nil, trivial⟩
  | .mk name fields :: r =>
    rw [compileTemplates] at h
    obtain ⟨-, -, h⟩ := exists_of_bind_eq_ok h
    split at h
    · cases h
    · next hseen =>
      obtain ⟨fs, hfs, h⟩ := exists_of_bind_eq_ok h
      obtain ⟨rest, hrest, h⟩ := exists_of_bind_eq_ok h
      cases h
      obtain ⟨-, hfields, hdeclared⟩ := declared_of_compileFields hfs
      obtain ⟨hnew, hnodup, hall⟩ := declared_of_compileTemplates hrest
      refine ⟨List.forall_mem_cons.mpr ⟨by simpa using hseen, fun t ht => ?_⟩, ?_, hfields,
        hdeclared, hall⟩
      · exact fun hmem => hnew t ht (List.mem_cons_of_mem _ hmem)
      · refine List.nodup_cons.mpr ⟨fun hmem => ?_, hnodup⟩
        obtain ⟨t, ht, heq⟩ := List.mem_map.mp hmem
        exact hnew t ht (heq ▸ List.mem_cons_self ..)

theorem declared_of_compileFields {owner : String} {seen : List String}
    {fs : List Schema.Field} {fs' : List Field}
    (h : compileFields names owner seen fs = .ok fs') :
    (∀ f ∈ fs', f.name ∉ seen) ∧ (fs'.map (·.name)).Nodup ∧ Field.AllDeclared names fs' := by
  match fs with
  | [] =>
    cases h
    exact ⟨nofun, List.nodup_nil, trivial⟩
  | .mk name (.mk type required indexed targets items fields templates) :: r =>
    rw [compileFields] at h
    obtain ⟨_, hname, h⟩ := exists_of_bind_eq_ok h
    obtain ⟨_, hreserved, h⟩ := exists_of_bind_eq_ok h
    split at h
    · cases h
    · next hseen =>
      obtain ⟨k, hk, h⟩ := exists_of_bind_eq_ok h
      obtain ⟨indexed, hindexed, h⟩ := exists_of_bind_eq_ok h
      obtain ⟨rest, hrest, h⟩ := exists_of_bind_eq_ok h
      cases h
      obtain ⟨hnew, hnodup, hall⟩ := declared_of_compileFields hrest
      refine ⟨List.forall_mem_cons.mpr ⟨by simpa using hseen, fun f hf => ?_⟩, ?_,
        ⟨isName_of_checkName hname, not_reserved_of_checkReserved hreserved,
          indexed_of_compileIndexed hindexed⟩, declared_of_compileKind hk, hall⟩
      · exact fun hmem => hnew f hf (List.mem_cons_of_mem _ hmem)
      · refine List.nodup_cons.mpr ⟨fun hmem => ?_, hnodup⟩
        obtain ⟨f, hf, heq⟩ := List.mem_map.mp hmem
        exact hnew f hf (heq ▸ List.mem_cons_self ..)

end

/-! ### Collections -/

/-- The collection is one that a schema declares, whose collections have the given names. -/
structure Collection.Declared (names : List String) (c : Collection) : Prop where
  /-- It has a proper name. -/
  name : isName c.name
  /-- The name is one of those given. -/
  known : c.name ∈ names
  /-- Its pattern is the one that its text stands for. -/
  pattern : ∀ p ∈ c.pattern, Glob.parse? p.text = some p.glob
  /-- Its templates can be read as a union. -/
  union : IsUnion c.templates
  /-- Its templates have well declared fields. -/
  templates : Template.AllDeclared names c.templates
  /-- Its default order passes. -/
  order : checkDefaultSort c = .ok c

theorem eq_of_checkDefaultSort {c c' : Collection} (h : checkDefaultSort c = .ok c') : c' = c := by
  unfold checkDefaultSort at h
  split at h
  · cases h
    rfl
  · split at h
    · split at h
      · cases h
        rfl
      · cases h
    · cases h

theorem pattern_of_compilePattern {collection : String} {text : Option String}
    {pattern : Option PathPattern} (h : compilePattern collection text = .ok pattern) :
    ∀ p ∈ pattern, Glob.parse? p.text = some p.glob := by
  unfold compilePattern at h
  split at h
  · cases h
    nofun
  · split at h
    · next hparse =>
      cases h
      rintro _ ⟨⟩
      exact hparse
    · cases h

theorem declared_of_compileCollection {c : Schema.Collection} {c' : Collection}
    (hname : isName c.name) (hknown : c.name ∈ names) (h : compileCollection names c = .ok c') :
    c'.name = c.name ∧ c'.Declared names := by
  obtain ⟨path, -, h⟩ := exists_of_bind_eq_ok h
  obtain ⟨pattern, hpattern, h⟩ := exists_of_bind_eq_ok h
  obtain ⟨declared, -, h⟩ := exists_of_bind_eq_ok h
  obtain ⟨ts, hts, h⟩ := exists_of_bind_eq_ok h
  obtain ⟨ts', hts', h⟩ := exists_of_bind_eq_ok h
  obtain ⟨rfl, hagree⟩ := agree_of_checkUnion hts'
  obtain ⟨-, hnodup, hall⟩ := declared_of_compileTemplates hts
  have hsame := eq_of_checkDefaultSort h
  subst hsame
  exact ⟨rfl, hname, hknown, pattern_of_compilePattern hpattern, ⟨hnodup, hagree⟩, hall, h⟩

/-- Collections have proper names, each its own. -/
theorem names_of_checkCollectionNames {seen : List String} {cs : List Schema.Collection} {u : Unit}
    (h : checkCollectionNames seen cs = .ok u) :
    (∀ c ∈ cs, isName c.name ∧ c.name ∉ seen) ∧ (cs.map (·.name)).Nodup := by
  induction cs generalizing seen u with
  | nil => exact ⟨nofun, List.nodup_nil⟩
  | cons c cs ih =>
    rw [checkCollectionNames] at h
    obtain ⟨v, hname, h⟩ := exists_of_bind_eq_ok h
    split at h
    · cases h
    · next hseen =>
      obtain ⟨hrest, hnodup⟩ := ih h
      refine ⟨fun d hd => ?_, List.nodup_cons.mpr ⟨fun hmem => ?_, hnodup⟩⟩
      · rcases List.mem_cons.mp hd with rfl | hd
        · exact ⟨isName_of_checkName hname, by simpa using hseen⟩
        · exact ⟨(hrest d hd).1, fun h => (hrest d hd).2 (List.mem_cons_of_mem _ h)⟩
      · obtain ⟨d, hd, heq⟩ := List.mem_map.mp hmem
        exact (hrest d hd).2 (heq ▸ List.mem_cons_self ..)

/-! ### Graphs -/

/-- The graph is that of a schema. -/
def IsCompiled (g : Graph) : Prop := ∃ s, compile s = .ok g

/-- **The collections of a compiled graph are well declared and have different names.** -/
theorem IsCompiled.declared {g : Graph} (h : g.IsCompiled) :
    (g.collections.map (·.name)).Nodup ∧
      ∀ c ∈ g.collections, c.Declared (g.collections.map (·.name)) := by
  obtain ⟨s, h⟩ := h
  obtain ⟨u, hnames, h⟩ := exists_of_bind_eq_ok h
  obtain ⟨cs, hcs, h⟩ := exists_of_bind_eq_ok h
  cases h
  show (cs.map (·.name)).Nodup ∧ ∀ c ∈ cs, c.Declared (cs.map (·.name))
  obtain ⟨hproper, hnodup⟩ := names_of_checkCollectionNames hnames
  have hall := forall_of_mapM_eq_ok (P := fun (d : Schema.Collection) (c : Collection) =>
    c.name = d.name ∧ c.Declared (s.collections.map (·.name))) (fun d hd c hc =>
      declared_of_compileCollection (hproper d hd).1 (List.mem_map_of_mem hd) hc) hcs
  rw [map_eq_of_forall₂ hall fun d c h => h.1]
  refine ⟨hnodup, fun c hc => ?_⟩
  obtain ⟨d, -, -, hdeclared⟩ := exists_of_forall₂ hall hc
  exact hdeclared

/-- A collection of a compiled graph is the one of its name. -/
theorem IsCompiled.collection?_eq {g : Graph} (h : g.IsCompiled) {c : Collection}
    (hc : c ∈ g.collections) : g.collection? c.name = some c :=
  find?_name_eq h.declared.1 hc

end Graph

end ContentIndex
