import ContentIndex.Proofs.Refusals
import ContentIndex.Proofs.Requests

/-!
# Well-formed schemas

Which schemas are well formed is said of their declarations alone, without the graph that they
compile to and without the order in which the compiler looks at them. The compiler accepts exactly
those. The default order of an accepted collection is one that the collection can be listed in, so a
listing that relies on it is not refused for its order.

## Main definitions

* `Schema.IsName`: proper names
* `Schema.Shape.layers`: the type of a value, below the lists that it is in
* `Schema.Template.Agrees`: templates that give no field name kinds that conflict
* `Schema.Shape.WellFormed`, `Schema.Collection.WellFormed`, `Schema.WellFormed`: well-formed
  declarations
* `Schema.Field.Becomes`, `Schema.Template.Becomes`: what of a declaration is seen in a graph

## Main results

* `Graph.exists_compileKind_iff`: a kind compiles if and only if its shape is well formed
* `Schema.exists_compile_iff_wellFormed`: **a schema compiles if and only if it is well formed**,
  and then no request fails for its default order
-/

namespace ContentIndex

namespace Schema

/-! ### Well-formed declarations -/

/-- A proper name is not empty, and has only ASCII letters, digits, `_` and `-`. -/
def IsName (name : String) : Prop :=
  name ≠ "" ∧ ∀ c ∈ name.toList, c.isAlphanum ∨ c = '_' ∨ c = '-'

/-- The type of one value that can be ordered. -/
def FieldType.IsScalar : FieldType → Prop
  | .string | .number | .boolean | .datetime => True
  | .richText | .reference | .list | .object => False

/-- The type needs no declaration besides its name. -/
def FieldType.IsPlain : FieldType → Prop
  | .string | .number | .boolean | .datetime | .richText => True
  | .reference | .list | .object => False

/-- The type of the values of a shape. -/
def Shape.type : Shape → FieldType
  | .mk type _ _ _ _ _ _ => type

/-- Whether an index is asked for. -/
def Shape.indexed : Shape → Option Bool
  | .mk _ _ indexed _ _ _ _ => indexed

/-- The fields of a template. -/
def Template.fields : Template → List Field
  | .mk _ fields => fields

/-- The name of a template. -/
def Template.name : Template → String
  | .mk name _ => name

mutual

/-- The type of a shape, and if that is a list then the types of its items. -/
def Shape.layers : Shape → List FieldType
  | .mk .list _ _ _ (some items) _ _ => .list :: items.layers
  | .mk type _ _ _ _ _ _ => [type]

/-- The layers of list items. -/
def Items.layers : Items → List FieldType
  | .bare type => [type]
  | .shaped shape => shape.layers

end

/-- The templates give no field name kinds that conflict: kinds of other types, or lists of other
types of items. Targets and members may differ. -/
def Template.Agrees (t u : Template) : Prop :=
  ∀ f ∈ t.fields, ∀ g ∈ u.fields, g.name = f.name → g.shape.layers = f.shape.layers

variable (names : List String)

mutual

/-- The shape is well formed beside collections of the given names. -/
inductive Shape.WellFormed : Shape → Prop
  /-- A type that needs nothing else; what else is declared is not looked at. -/
  | plain {type required indexed targets items fields templates} (h : type.IsPlain) :
    Shape.WellFormed (.mk type required indexed targets items fields templates)
  /-- A reference names collections, and all of them exist. -/
  | reference {required indexed targets items fields templates} (hne : targets ≠ [])
      (hknown : ∀ t ∈ targets, t ∈ names) :
    Shape.WellFormed (.mk .reference required indexed targets items fields templates)
  /-- A list has items. -/
  | list {required indexed targets items fields templates} (h : Items.WellFormed items) :
    Shape.WellFormed (.mk .list required indexed targets (some items) fields templates)
  /-- An object has fields and no templates, -/
  | fields {required indexed targets items fields} (hne : fields ≠ [])
      (hnodup : (fields.map (·.name)).Nodup) (h : ∀ f ∈ fields, Field.WellFormed f) :
    Shape.WellFormed (.mk .object required indexed targets items fields [])
  /-- or it has templates that can be read as a union, and no fields. -/
  | templates {required indexed targets items templates} (hne : templates ≠ [])
      (hnodup : (templates.map (·.name)).Nodup) (hagree : templates.Pairwise Template.Agrees)
      (h : ∀ t ∈ templates, Template.WellFormed t) :
    Shape.WellFormed (.mk .object required indexed targets items [] templates)

/-- List items are well formed. They are no fields: whether they ask for an index is not looked
at. -/
inductive Items.WellFormed : Items → Prop
  | bare {type} (h : type.IsPlain) : Items.WellFormed (.bare type)
  | shaped {shape} (h : Shape.WellFormed shape) : Items.WellFormed (.shaped shape)

/-- A field has a proper name that is not reserved, and asks for an index only if its values are
scalars. -/
inductive Field.WellFormed : Field → Prop
  | mk {name shape} (hname : IsName name) (hfree : name.toList.head? ≠ some '_')
      (hindexed : shape.indexed = some true → shape.type.IsScalar) (h : Shape.WellFormed shape) :
    Field.WellFormed (.mk name shape)

/-- A template has a proper name, and its fields have different names. -/
inductive Template.WellFormed : Template → Prop
  | mk {name fields} (hname : IsName name) (hnodup : (fields.map (·.name)).Nodup)
      (h : ∀ f ∈ fields, Field.WellFormed f) : Template.WellFormed (.mk name fields)

end

/-- Listings can be ordered by the field: it is a scalar, and nobody says that it has no index. -/
def Field.IsSortable (f : Field) : Prop := f.shape.type.IsScalar ∧ f.shape.indexed ≠ some false

namespace Collection

/-- The first declaration of a field name in a collection. -/
def field? (c : Collection) (name : String) : Option Field :=
  (c.fields ++ c.templates.flatMap (·.fields)).find? (·.name = name)

/-- A collection is well formed beside collections of the given names. -/
structure WellFormed (c : Collection) : Prop where
  /-- Its directory has a name, -/
  path_ne : Graph.stripChar '/' c.path ≠ ""
  /-- without a zero character. -/
  path_zeroFree : '\x00' ∉ (Graph.stripChar '/' c.path).toList
  /-- Its pattern is one. -/
  pattern : ∀ text ∈ c.pattern, (Glob.parse? text).isSome
  /-- It declares fields or templates, and not both. -/
  exclusive : c.fields ≠ [] ↔ c.templates = []
  /-- Its fields have different names, -/
  fields_nodup : (c.fields.map (·.name)).Nodup
  /-- and each is well formed. -/
  fields : ∀ f ∈ c.fields, f.WellFormed names
  /-- Its templates have different names, -/
  templates_nodup : (c.templates.map (·.name)).Nodup
  /-- they can be read as a union, -/
  agree : c.templates.Pairwise Template.Agrees
  /-- and each is well formed. -/
  templates : ∀ t ∈ c.templates, t.WellFormed names
  /-- The first declaration of the field of its default order can be ordered by. -/
  order : ∀ name ∈ c.defaultSort, ∃ f, c.field? name = some f ∧ f.IsSortable

end Collection

/-- The schema is well formed. -/
structure WellFormed (s : Schema) : Prop where
  /-- Its collections have proper names, -/
  names : ∀ c ∈ s.collections, IsName c.name
  /-- all of them different, -/
  nodup : (s.collections.map (·.name)).Nodup
  /-- and each is well formed beside the others. -/
  collections : ∀ c ∈ s.collections, c.WellFormed (s.collections.map (·.name))

end Schema

/-! ### Sequences of checks -/

section Checks

variable {ε α β : Type}

theorem exists_bind_eq_ok_iff {x : Except ε α} {f : α → Except ε β} :
    (∃ b, x >>= f = .ok b) ↔ ∃ a, x = .ok a ∧ ∃ b, f a = .ok b := by
  constructor
  · rintro ⟨b, h⟩
    obtain ⟨a, ha, hb⟩ := exists_of_bind_eq_ok h
    exact ⟨a, ha, b, hb⟩
  · rintro ⟨a, rfl, b, hb⟩
    exact ⟨b, hb⟩

/-- A check that passes lets the rest go on. -/
theorem exists_check_eq_ok_iff {x : Except ε Unit} {t : Except ε α} :
    (∃ a, (x >>= fun _ => t) = .ok a) ↔ x = .ok () ∧ ∃ a, t = .ok a := by
  rw [exists_bind_eq_ok_iff]
  constructor
  · rintro ⟨⟨⟩, hx, ht⟩
    exact ⟨hx, ht⟩
  · rintro ⟨hx, ht⟩
    exact ⟨(), hx, ht⟩

/-- A last step that cannot fail. -/
theorem exists_bind_pure_eq_ok_iff {x : Except ε α} {f : α → β} :
    (∃ b, (x >>= fun a => pure (f a)) = .ok b) ↔ ∃ a, x = .ok a := by
  rw [exists_bind_eq_ok_iff]
  exact exists_congr fun a => and_iff_left ⟨f a, rfl⟩

theorem exists_ite_eq_ok_iff {p : Prop} [Decidable p] {e : ε} {t : Except ε α} :
    (∃ a, (if p then .error e else t) = .ok a) ↔ ¬ p ∧ ∃ a, t = .ok a := by
  by_cases h : p
  · simp [h]
  · simp [h]

theorem exists_mapM_eq_ok_iff {f : α → Except ε β} {l : List α} :
    (∃ bs, l.mapM f = .ok bs) ↔ ∀ a ∈ l, ∃ b, f a = .ok b := by
  induction l with
  | nil => exact iff_of_true ⟨[], rfl⟩ nofun
  | cons a l ih =>
    rw [List.mapM_cons, List.forall_mem_cons, exists_bind_eq_ok_iff, ← ih]
    simp only [exists_bind_pure_eq_ok_iff]
    exact ⟨fun ⟨b, hb, h⟩ => ⟨⟨b, hb⟩, h⟩, fun ⟨⟨b, hb⟩, h⟩ => ⟨b, hb, h⟩⟩

end Checks

/-! ### What of a declaration is seen in a graph -/

namespace Graph

open Schema (FieldType IsName)

/-- The type of a kind, and if that is a list then the types of its items. -/
def Kind.layers : Kind → List FieldType
  | .string => [.string]
  | .number => [.number]
  | .boolean => [.boolean]
  | .datetime => [.datetime]
  | .richText => [.richText]
  | .reference _ => [.reference]
  | .list items => .list :: items.layers
  | .object _ => [.object]

theorem Kind.layers_ne_nil (k : Kind) : k.layers ≠ [] := by
  cases k <;> exact List.cons_ne_nil _ _

/-- Kinds conflict if they differ in some layer. -/
theorem Kind.conflicts_eq_false_iff :
    ∀ k l : Kind, k.conflicts l = false ↔ l.layers = k.layers
  | .list items, .list items' => by
    rw [Kind.conflicts, Kind.conflicts_eq_false_iff items items', Kind.layers, Kind.layers,
      List.cons.injEq, and_iff_right rfl]
  | .list _, .string | .list _, .number | .list _, .boolean | .list _, .datetime
  | .list _, .richText | .list _, .reference _ | .list _, .object _ => by
    simp [Kind.conflicts, Kind.layers, Kind.label]
  | .string, l | .number, l | .boolean, l | .datetime, l | .richText, l | .reference _, l
  | .object _, l => by
    cases l <;> simp [Kind.conflicts, Kind.layers, Kind.label]

end Graph

namespace Schema

/-- The templates of a collection: its fields make up one of its own name. -/
def Collection.group (c : Collection) : List Template :=
  if c.templates = [] then [.mk c.name c.fields] else c.templates

/-- What of a field is seen in a graph: its name, its layers, and whether listings can be ordered by
it. -/
structure Field.Becomes (f : Field) (f' : Graph.Field) : Prop where
  /-- The name. -/
  name : f'.name = f.name
  /-- The layers. -/
  layers : f'.kind.layers = f.shape.layers
  /-- Whether listings can be ordered by it. -/
  sortable : f'.isSortable ↔ f.IsSortable

/-- What of a template is seen in a graph: its name and its fields. -/
structure Template.Becomes (t : Template) (t' : Graph.Template) : Prop where
  /-- The name. -/
  name : t'.name = t.name
  /-- The fields. -/
  fields : List.Forall₂ Field.Becomes t.fields t'.fields

end Schema

namespace Graph

open Schema (FieldType IsName)

theorem isName_iff {name : String} : isName name ↔ IsName name := by
  simp [isName, IsName, or_assoc]

theorem checkName_eq_ok_iff {role : NameRole} {path name : String} :
    checkName role path name = .ok () ↔ IsName name := by
  rw [← isName_iff, checkName]
  split
  · next h => exact iff_of_true rfl h
  · next h => exact iff_of_false nofun h

theorem checkReserved_eq_ok_iff {path name : String} :
    checkReserved path name = .ok () ↔ name.toList.head? ≠ some '_' := by
  rw [checkReserved]
  split
  · next h => exact iff_of_false nofun (not_not_intro h)
  · next h => exact iff_of_true rfl h

theorem exists_compileTargets_iff {names targets : List String} {path : String} :
    (∃ ts, compileTargets names path targets = .ok ts) ↔
      targets ≠ [] ∧ ∀ t ∈ targets, t ∈ names := by
  rw [compileTargets, exists_ite_eq_ok_iff, List.isEmpty_iff]
  refine and_congr_right fun _ => ?_
  split
  · next t ht =>
    refine iff_of_false ?_ fun hall => ?_
    · rintro ⟨ts, hts⟩
      cases hts
    have hunknown := List.find?_some ht
    simp [hall t (List.mem_of_find?_eq_some ht)] at hunknown
  · next hnone =>
    refine iff_of_true ⟨_, rfl⟩ ?_
    simpa using List.find?_eq_none.mp hnone

theorem exists_compileBare_iff {path : String} {type : FieldType} :
    (∃ k, compileBare path type = .ok k) ↔ type.IsPlain := by
  cases type <;> simp [compileBare, FieldType.IsPlain]

theorem layers_of_compileBare {path : String} {type : FieldType} {k : Kind}
    (h : compileBare path type = .ok k) : k.layers = [type] := by
  cases type <;> cases h <;> rfl

variable {names : List String}

mutual

/-- A kind has the layers that are declared. -/
theorem layers_of_compileKind {leaf path : String} {shape : Schema.Shape} {k : Kind}
    (h : compileKind names leaf path shape = .ok k) : k.layers = shape.layers := by
  obtain ⟨type, required, indexed, targets, items, fields, templates⟩ := shape
  rw [compileKind.eq_def] at h
  cases type with
  | reference =>
    obtain ⟨ts, -, h⟩ := exists_of_bind_eq_ok h
    cases h
    rfl
  | list =>
    match items with
    | none => cases h
    | some items =>
      obtain ⟨k, hk, h⟩ := exists_of_bind_eq_ok h
      cases h
      rw [Kind.layers, Schema.Shape.layers, layers_of_compileItems hk]
  | object =>
    -- what an object has in it is no layer
    match fields, templates with
    | _ :: _, _ :: _ => cases h
    | [], [] => cases h
    | f :: fields, [] =>
      obtain ⟨-, -, h⟩ := exists_of_bind_eq_ok h
      obtain ⟨fs, -, h⟩ := exists_of_bind_eq_ok h
      cases h
      rfl
    | [], t :: templates =>
      obtain ⟨ts, -, h⟩ := exists_of_bind_eq_ok h
      obtain ⟨ts', -, h⟩ := exists_of_bind_eq_ok h
      cases h
      rfl
  | _ =>
    cases h
    rfl

theorem layers_of_compileItems {leaf path : String} {items : Schema.Items} {k : Kind}
    (h : compileItems names leaf path items = .ok k) : k.layers = items.layers := by
  match items with
  | .bare type =>
    rw [compileItems] at h
    rw [Schema.Items.layers, layers_of_compileBare h]
  | .shaped shape =>
    rw [compileItems] at h
    rw [Schema.Items.layers, layers_of_compileKind h]

end

theorem isScalar_iff_of_layers {k : Kind} {shape : Schema.Shape} (h : k.layers = shape.layers) :
    k.isScalar ↔ shape.type.IsScalar := by
  have hhead : k.layers.head? = some shape.type := by
    rw [h]
    obtain ⟨type, required, indexed, targets, items, fields, templates⟩ := shape
    cases type
    all_goals try rfl
    cases items <;> rfl
  cases k
  all_goals
    obtain hhead := Option.some.inj hhead
    rw [← hhead]
    simp [Kind.isScalar, FieldType.IsScalar]

theorem exists_compileIndexed_iff {path : String} {kind : Kind} {asked : Option Bool} :
    (∃ indexed, compileIndexed path kind asked = .ok indexed) ↔
      (asked = some true → kind.isScalar) := by
  unfold compileIndexed
  split
  · split
    · next h => exact iff_of_true ⟨_, rfl⟩ fun _ => h
    · next h => exact iff_of_false nofun fun himp => h (himp rfl)
  · exact iff_of_true ⟨_, rfl⟩ nofun
  · exact iff_of_true ⟨_, rfl⟩ nofun

/-- A scalar is indexed unless somebody says that it is not. -/
theorem isSortable_of_compileIndexed {path : String} {kind : Kind} {asked : Option Bool}
    {indexed : Bool} (h : compileIndexed path kind asked = .ok indexed) :
    (indexed && kind.isScalar) ↔ kind.isScalar ∧ asked ≠ some false := by
  unfold compileIndexed at h
  split at h
  · split at h
    · cases h
      simp
    · cases h
  · cases h
    simp
  · cases h
    simp

theorem becomes_of_compileFields {owner : String} {seen : List String} {fs : List Schema.Field}
    {fs' : List Field} (h : compileFields names owner seen fs = .ok fs') :
    List.Forall₂ Schema.Field.Becomes fs fs' := by
  induction fs generalizing seen fs' with
  | nil =>
    cases h
    exact .nil
  | cons f fs ih =>
    obtain ⟨name, type, required, asked, targets, items, fields, templates⟩ := f
    rw [compileFields] at h
    obtain ⟨-, -, h⟩ := exists_of_bind_eq_ok h
    obtain ⟨-, -, h⟩ := exists_of_bind_eq_ok h
    split at h
    · cases h
    · obtain ⟨k, hk, h⟩ := exists_of_bind_eq_ok h
      obtain ⟨indexed, hindexed, h⟩ := exists_of_bind_eq_ok h
      obtain ⟨rest, hrest, h⟩ := exists_of_bind_eq_ok h
      cases h
      have hlayers := layers_of_compileKind hk
      refine .cons ⟨rfl, hlayers, ?_⟩ (ih hrest)
      exact (isSortable_of_compileIndexed hindexed).trans
        (and_congr_left' (isScalar_iff_of_layers hlayers))

theorem becomes_of_compileTemplates {owner : String} {seen : List String}
    {ts : List Schema.Template} {ts' : List Template}
    (h : compileTemplates names owner seen ts = .ok ts') :
    List.Forall₂ Schema.Template.Becomes ts ts' := by
  induction ts generalizing seen ts' with
  | nil =>
    cases h
    exact .nil
  | cons t ts ih =>
    obtain ⟨name, fields⟩ := t
    rw [compileTemplates] at h
    obtain ⟨-, -, h⟩ := exists_of_bind_eq_ok h
    split at h
    · cases h
    · obtain ⟨fs, hfs, h⟩ := exists_of_bind_eq_ok h
      obtain ⟨rest, hrest, h⟩ := exists_of_bind_eq_ok h
      cases h
      exact .cons ⟨rfl, becomes_of_compileFields hfs⟩ (ih hrest)

/-! ### Unions -/

theorem checkUnion_eq_ok_iff {owner : String} {ts : List Template} :
    (∃ ts', checkUnion owner ts = .ok ts') ↔ ts.Pairwise Template.Agrees := by
  constructor
  · rintro ⟨ts', h⟩
    exact (agree_of_checkUnion h).2
  · intro h
    have hnone : firstConflict? owner ts = none := by
      induction h with
      | nil => rfl
      | @cons t r ht _ ih =>
        rw [firstConflict?, ih, Option.or_none, List.findSome?_eq_none_iff]
        intro u hu
        refine List.findSome?_eq_none_iff.mpr fun f hf => Option.bind_eq_none_iff.mpr fun g hg => ?_
        rw [ht u hu f hf g hg, if_neg Bool.false_ne_true]
    exact ⟨ts, by rw [checkUnion, hnone]⟩

theorem agrees_iff_of_becomes {t u : Schema.Template} {t' u' : Template} (ht : t.Becomes t')
    (hu : u.Becomes u') (hnodup : (u.fields.map (·.name)).Nodup) :
    t'.Agrees u' ↔ t.Agrees u := by
  have hnodup' : (u'.fields.map (·.name)).Nodup := by
    rwa [map_eq_of_forall₂ hu.fields fun _ _ h => h.name]
  constructor
  · intro h f hf g hg hname
    obtain ⟨f', hf', hff'⟩ := exists_of_forall₂ ht.fields.flip hf
    obtain ⟨g', hg', hgg'⟩ := exists_of_forall₂ hu.fields.flip hg
    have hname' : g'.name = f'.name := by rw [hff'.name, hgg'.name, hname]
    have hfind : u'.field? f'.name = some g' := hname' ▸ find?_name_eq hnodup' hg'
    rw [← hff'.layers, ← hgg'.layers]
    exact (Kind.conflicts_eq_false_iff _ _).mp (h f' hf' g' hfind)
  · intro h f' hf' g' hg'
    obtain ⟨f, hf, hff'⟩ := exists_of_forall₂ ht.fields hf'
    obtain ⟨g, hg, hgg'⟩ := exists_of_forall₂ hu.fields (List.mem_of_find?_eq_some hg')
    have hname : g.name = f.name := by
      rw [← hff'.name, ← hgg'.name]
      exact eq_of_find?_name hg'
    rw [Kind.conflicts_eq_false_iff, hff'.layers, hgg'.layers]
    exact h f hf g hg hname

theorem pairwise_agrees_iff {ts : List Schema.Template} {ts' : List Template}
    (h : List.Forall₂ Schema.Template.Becomes ts ts')
    (hnodup : ∀ t ∈ ts, (t.fields.map (·.name)).Nodup) :
    ts'.Pairwise Template.Agrees ↔ ts.Pairwise Schema.Template.Agrees := by
  induction h with
  | nil => exact iff_of_true .nil .nil
  | @cons t t' ts ts' ht hts ih =>
    rw [List.pairwise_cons, List.pairwise_cons,
      ih fun u hu => hnodup u (List.mem_cons_of_mem _ hu)]
    refine and_congr_left' ⟨fun hall u hu => ?_, fun hall u' hu' => ?_⟩
    · obtain ⟨u', hu', huu'⟩ := exists_of_forall₂ hts.flip hu
      exact (agrees_iff_of_becomes ht huu' (hnodup u (List.mem_cons_of_mem _ hu))).mp (hall u' hu')
    · obtain ⟨u, hu, huu'⟩ := exists_of_forall₂ hts hu'
      exact (agrees_iff_of_becomes ht huu' (hnodup u (List.mem_cons_of_mem _ hu))).mpr (hall u hu)

/-! ### Declarations that compile -/

/-- What is declared under other names than those seen, and under different ones, is declared under
other names than those seen and the first. -/
theorem forall_notMem_cons_iff {α : Type} {name : α → String} {n : String} {seen : List String}
    {l : List α} : (∀ a ∈ l, name a ∉ n :: seen) ↔ (∀ a ∈ l, name a ∉ seen) ∧ n ∉ l.map name := by
  simp only [List.mem_cons, not_or, List.mem_map, not_exists, not_and]
  exact ⟨fun h => ⟨fun a ha => (h a ha).2, fun a ha => (h a ha).1⟩,
    fun h a ha => ⟨h.2 a ha, h.1 a ha⟩⟩

/-- The templates of one owner, with the check that they can be read as a union. -/
theorem exists_union_iff (owner : String) {ts : List Schema.Template}
    (h : (∃ ts', compileTemplates names owner [] ts = .ok ts') ↔
      (∀ t ∈ ts, t.name ∉ []) ∧ (ts.map (·.name)).Nodup ∧ ∀ t ∈ ts, t.WellFormed names) :
    (∃ ts', (compileTemplates names owner [] ts >>= checkUnion owner) = .ok ts') ↔
      (ts.map (·.name)).Nodup ∧ ts.Pairwise Schema.Template.Agrees ∧
        ∀ t ∈ ts, t.WellFormed names := by
  rw [exists_bind_eq_ok_iff]
  have hnodup (hall : ∀ t ∈ ts, t.WellFormed names) :
      ∀ t ∈ ts, (t.fields.map (·.name)).Nodup := by
    intro t ht
    rcases hall t ht with ⟨-, hnodup, -⟩
    exact hnodup
  constructor
  · rintro ⟨ts', hts', hunion⟩
    obtain ⟨-, hnames, hall⟩ := h.mp ⟨ts', hts'⟩
    have hagree := checkUnion_eq_ok_iff.mp hunion
    exact ⟨hnames, (pairwise_agrees_iff (becomes_of_compileTemplates hts') (hnodup hall)).mp hagree,
      hall⟩
  · rintro ⟨hnames, hagree, hall⟩
    obtain ⟨ts', hts'⟩ := h.mpr ⟨fun _ _ => List.not_mem_nil, hnames, hall⟩
    refine ⟨ts', hts', checkUnion_eq_ok_iff.mpr ?_⟩
    exact (pairwise_agrees_iff (becomes_of_compileTemplates hts') (hnodup hall)).mpr hagree

mutual

/-- **A kind compiles if and only if its shape is well formed.** -/
theorem exists_compileKind_iff {leaf : String} (hleaf : IsName leaf) (path : String) :
    ∀ shape : Schema.Shape,
      (∃ k, compileKind names leaf path shape = .ok k) ↔ shape.WellFormed names
  | .mk type required indexed targets items fields templates => by
    rw [compileKind.eq_def]
    cases type with
    | reference =>
      refine exists_bind_pure_eq_ok_iff.trans (exists_compileTargets_iff.trans ⟨?_, ?_⟩)
      · rintro ⟨hne, hknown⟩
        exact .reference hne hknown
      · rintro (hplain | ⟨hne, hknown⟩)
        · cases hplain
        · exact ⟨hne, hknown⟩
    | list =>
      match items with
      | none =>
        refine iff_of_false nofun ?_
        rintro (hplain | _)
        cases hplain
      | some items =>
        refine exists_bind_pure_eq_ok_iff.trans ((exists_compileItems_iff hleaf _ items).trans ⟨?_, ?_⟩)
        · exact .list
        · rintro (hplain | _ | h)
          · cases hplain
          · exact h
    | object =>
      match fields, templates with
      | _ :: _, _ :: _ =>
        refine iff_of_false nofun ?_
        rintro (hplain | _)
        cases hplain
      | [], [] =>
        refine iff_of_false nofun ?_
        rintro (hplain | _ | _ | ⟨hne, -, -⟩ | ⟨hne, -, -, -⟩)
        · cases hplain
        · exact hne rfl
        · exact hne rfl
      | f :: fields, [] =>
        -- the one template has the name of the field, which is proper
        refine (exists_check_eq_ok_iff (t := compileFields names _ [] (f :: fields) >>= _)).trans ?_
        rw [checkName_eq_ok_iff, and_iff_right hleaf]
        refine exists_bind_pure_eq_ok_iff.trans
          ((exists_compileFields_iff _ [] (f :: fields)).trans ⟨?_, ?_⟩)
        · rintro ⟨-, hnodup, hall⟩
          exact .fields (List.cons_ne_nil _ _) hnodup hall
        · rintro (hplain | _ | _ | ⟨-, hnodup, hall⟩)
          · cases hplain
          · exact ⟨fun _ _ => List.not_mem_nil, hnodup, hall⟩
      | [], t :: templates =>
        have hunion := exists_union_iff path
          (exists_compileTemplates_iff path [] (t :: templates))
        refine Iff.trans ?_ (hunion.trans ⟨?_, ?_⟩)
        · rw [exists_bind_eq_ok_iff, exists_bind_eq_ok_iff]
          exact exists_congr fun ts => and_congr_right fun _ => exists_bind_pure_eq_ok_iff
        · rintro ⟨hnodup, hagree, hall⟩
          exact .templates (List.cons_ne_nil _ _) hnodup hagree hall
        · rintro (hplain | _ | _ | _ | ⟨-, hnodup, hagree, hall⟩)
          · cases hplain
          · exact ⟨hnodup, hagree, hall⟩
    | _ => exact iff_of_true ⟨_, rfl⟩ (.plain trivial)

theorem exists_compileItems_iff {leaf : String} (hleaf : IsName leaf) (path : String) :
    ∀ items : Schema.Items,
      (∃ k, compileItems names leaf path items = .ok k) ↔ items.WellFormed names
  | .bare type => by
    rw [compileItems, exists_compileBare_iff]
    refine ⟨.bare, fun h => ?_⟩
    cases h with
    | bare h => exact h
  | .shaped shape => by
    rw [compileItems, exists_compileKind_iff hleaf path shape]
    refine ⟨.shaped, fun h => ?_⟩
    cases h with
    | shaped h => exact h

theorem exists_compileTemplates_iff (owner : String) (seen : List String) :
    ∀ ts : List Schema.Template, (∃ ts', compileTemplates names owner seen ts = .ok ts') ↔
      (∀ t ∈ ts, t.name ∉ seen) ∧ (ts.map (·.name)).Nodup ∧ ∀ t ∈ ts, t.WellFormed names
  | [] => by
    rw [compileTemplates]
    exact iff_of_true ⟨[], rfl⟩ ⟨nofun, List.nodup_nil, nofun⟩
  | .mk name fields :: ts => by
    have hfields := exists_compileFields_iff (owner ++ "." ++ name) [] fields
    have hrest := exists_compileTemplates_iff owner (name :: seen) ts
    rw [forall_notMem_cons_iff] at hrest
    rw [compileTemplates, exists_check_eq_ok_iff, checkName_eq_ok_iff, List.forall_mem_cons,
      List.forall_mem_cons, List.map_cons, List.nodup_cons]
    constructor
    · rintro ⟨hname, h⟩
      obtain ⟨hnew, h⟩ := exists_ite_eq_ok_iff.mp h
      obtain ⟨fs, hfs, h⟩ := exists_bind_eq_ok_iff.mp h
      obtain ⟨-, hnodup, hall⟩ := hfields.mp ⟨fs, hfs⟩
      obtain ⟨⟨hseen, hfresh⟩, hnames, hothers⟩ := hrest.mp (exists_bind_pure_eq_ok_iff.mp h)
      have hnew' : name ∉ seen := by simpa using hnew
      exact ⟨⟨hnew', hseen⟩, ⟨hfresh, hnames⟩, .mk hname hnodup hall, hothers⟩
    · rintro ⟨⟨hnew, hseen⟩, ⟨hfresh, hnames⟩, ⟨hname, hnodup, hall⟩, hothers⟩
      obtain ⟨fs, hfs⟩ := hfields.mpr ⟨fun _ _ => List.not_mem_nil, hnodup, hall⟩
      have hthen := hrest.mpr ⟨⟨hseen, hfresh⟩, hnames, hothers⟩
      have hnew' : name ∉ seen := hnew
      refine ⟨hname, exists_ite_eq_ok_iff.mpr ⟨by simpa using hnew', ?_⟩⟩
      exact exists_bind_eq_ok_iff.mpr ⟨fs, hfs, exists_bind_pure_eq_ok_iff.mpr hthen⟩

theorem exists_compileFields_iff (owner : String) (seen : List String) :
    ∀ fs : List Schema.Field, (∃ fs', compileFields names owner seen fs = .ok fs') ↔
      (∀ f ∈ fs, f.name ∉ seen) ∧ (fs.map (·.name)).Nodup ∧ ∀ f ∈ fs, f.WellFormed names
  | [] => by
    rw [compileFields]
    exact iff_of_true ⟨[], rfl⟩ ⟨nofun, List.nodup_nil, nofun⟩
  | .mk name (.mk type required asked targets items fields templates) :: fs => by
    have hkind (hname : IsName name) := exists_compileKind_iff hname (owner ++ "." ++ name)
      (.mk type required asked targets items fields templates)
    have hrest := exists_compileFields_iff owner (name :: seen) fs
    rw [forall_notMem_cons_iff] at hrest
    rw [compileFields, exists_check_eq_ok_iff, checkName_eq_ok_iff, exists_check_eq_ok_iff,
      checkReserved_eq_ok_iff, List.forall_mem_cons, List.forall_mem_cons, List.map_cons,
      List.nodup_cons]
    constructor
    · rintro ⟨hname, hfree, h⟩
      obtain ⟨hnew, h⟩ := exists_ite_eq_ok_iff.mp h
      obtain ⟨k, hk, h⟩ := exists_bind_eq_ok_iff.mp h
      obtain ⟨indexed, hindexed, h⟩ := exists_bind_eq_ok_iff.mp h
      have hscalar := exists_compileIndexed_iff.mp ⟨indexed, hindexed⟩
      rw [isScalar_iff_of_layers (layers_of_compileKind hk)] at hscalar
      obtain ⟨⟨hseen, hfresh⟩, hnames, hothers⟩ := hrest.mp (exists_bind_pure_eq_ok_iff.mp h)
      have hnew' : name ∉ seen := by simpa using hnew
      exact ⟨⟨hnew', hseen⟩, ⟨hfresh, hnames⟩,
        .mk hname hfree hscalar ((hkind hname).mp ⟨k, hk⟩), hothers⟩
    · rintro ⟨⟨hnew, hseen⟩, ⟨hfresh, hnames⟩, ⟨hname, hfree, hscalar, hshape⟩, hothers⟩
      obtain ⟨k, hk⟩ := (hkind hname).mpr hshape
      rw [← isScalar_iff_of_layers (layers_of_compileKind hk)] at hscalar
      obtain ⟨indexed, hindexed⟩ := exists_compileIndexed_iff.mpr hscalar
      have hthen := hrest.mpr ⟨⟨hseen, hfresh⟩, hnames, hothers⟩
      have hnew' : name ∉ seen := hnew
      refine ⟨hname, hfree, exists_ite_eq_ok_iff.mpr ⟨by simpa using hnew', ?_⟩⟩
      refine exists_bind_eq_ok_iff.mpr ⟨k, hk, exists_bind_eq_ok_iff.mpr ⟨indexed, hindexed, ?_⟩⟩
      exact exists_bind_pure_eq_ok_iff.mpr hthen

end

/-! ### Collections and schemas -/

theorem exists_compilePath_iff {collection path : String} :
    (∃ dir, compilePath collection path = .ok dir) ↔
      stripChar '/' path ≠ "" ∧ '\x00' ∉ (stripChar '/' path).toList := by
  rw [compilePath, exists_ite_eq_ok_iff]
  simp

theorem exists_compilePattern_iff {collection : String} {text : Option String} :
    (∃ pattern, compilePattern collection text = .ok pattern) ↔
      ∀ t ∈ text, (Glob.parse? t).isSome := by
  cases text with
  | none => exact iff_of_true ⟨none, rfl⟩ nofun
  | some t =>
    rw [compilePattern]
    cases hglob : Glob.parse? t with
    | none => exact iff_of_false nofun (by simp [hglob])
    | some g => exact iff_of_true ⟨_, rfl⟩ (by simp [hglob])

/-- Fields are found in the order in which they are declared. -/
theorem find?_of_becomes {fs : List Schema.Field} {fs' : List Field}
    (h : List.Forall₂ Schema.Field.Becomes fs fs') (name : String) :
    Option.Rel Schema.Field.Becomes (fs.find? (·.name = name)) (fs'.find? (·.name = name)) := by
  induction h with
  | nil => exact .none
  | @cons f f' fs fs' hf _ ih =>
    rw [List.find?_cons, List.find?_cons, hf.name]
    split
    · exact .some hf
    · exact ih

theorem flatMap_of_becomes {ts : List Schema.Template} {ts' : List Template}
    (h : List.Forall₂ Schema.Template.Becomes ts ts') :
    List.Forall₂ Schema.Field.Becomes (ts.flatMap (·.fields)) (ts'.flatMap (·.fields)) := by
  induction h with
  | nil => exact .nil
  | cons ht _ ih => exact List.rel_append ht.fields ih

theorem exists_declaredTemplates_iff {c : Schema.Collection} {ts : List Schema.Template} :
    declaredTemplates c = .ok ts ↔ (c.fields ≠ [] ↔ c.templates = []) ∧ ts = c.group := by
  unfold declaredTemplates Schema.Collection.group
  rcases hfields : c.fields with _ | ⟨f, fields⟩
  · rcases htemplates : c.templates with _ | ⟨t, templates⟩
    · simp
    · simp [eq_comm]
  · rcases htemplates : c.templates with _ | ⟨t, templates⟩
    · simp [eq_comm]
    · simp

/-- The group of a collection is well formed if and only if its fields and its templates are. -/
theorem group_wellFormed_iff {c : Schema.Collection} (hname : IsName c.name)
    (hexclusive : c.fields ≠ [] ↔ c.templates = []) :
    ((c.group.map (·.name)).Nodup ∧ c.group.Pairwise Schema.Template.Agrees ∧
      ∀ t ∈ c.group, t.WellFormed names) ↔
    ((c.fields.map (·.name)).Nodup ∧ ∀ f ∈ c.fields, f.WellFormed names) ∧
      (c.templates.map (·.name)).Nodup ∧ c.templates.Pairwise Schema.Template.Agrees ∧
        ∀ t ∈ c.templates, t.WellFormed names := by
  unfold Schema.Collection.group
  by_cases htemplates : c.templates = []
  · rw [if_pos htemplates, htemplates]
    constructor
    · rintro ⟨-, -, hall⟩
      rcases hall _ (List.mem_singleton_self _) with ⟨-, hnodup, hfields⟩
      exact ⟨⟨hnodup, hfields⟩, List.nodup_nil, .nil, nofun⟩
    · rintro ⟨⟨hnodup, hfields⟩, -⟩
      refine ⟨List.nodup_singleton _, List.pairwise_singleton _ _, fun t ht => ?_⟩
      rw [List.mem_singleton.mp ht]
      exact .mk hname hnodup hfields
  · have hfields : c.fields = [] := by
      by_contra hne
      exact htemplates (hexclusive.mp hne)
    rw [if_neg htemplates, hfields]
    exact (and_iff_right ⟨List.nodup_nil, nofun⟩).symm

theorem flatMap_group {c : Schema.Collection} (hexclusive : c.fields ≠ [] ↔ c.templates = []) :
    c.group.flatMap (·.fields) = c.fields ++ c.templates.flatMap (·.fields) := by
  unfold Schema.Collection.group
  by_cases htemplates : c.templates = []
  · rw [if_pos htemplates, htemplates]
    rfl
  · have hfields : c.fields = [] := by
      by_contra hne
      exact htemplates (hexclusive.mp hne)
    rw [if_neg htemplates, hfields, List.nil_append]

theorem exists_checkDefaultSort_iff {c : Collection} :
    (∃ c', checkDefaultSort c = .ok c') ↔
      ∀ name ∈ c.defaultSort, ∃ f, c.field? name = some f ∧ f.isSortable := by
  unfold checkDefaultSort
  split
  · next hnone => exact iff_of_true ⟨c, rfl⟩ (by simp [hnone])
  · next name hname =>
    rw [hname]
    simp only [Option.mem_some, forall_eq']
    split
    · next f hfield =>
      split
      · next hsortable => exact iff_of_true ⟨c, rfl⟩ ⟨f, hfield, hsortable⟩
      · next hsortable => exact iff_of_false nofun (by simp [hfield, hsortable])
    · next hfield => exact iff_of_false nofun (by simp [hfield])

/-- The field of a name in a graph is what its first declaration became. -/
theorem exists_sortable_iff {c : Schema.Collection} {c' : Collection}
    (hexclusive : c.fields ≠ [] ↔ c.templates = [])
    (h : List.Forall₂ Schema.Template.Becomes c.group c'.templates) {name : String} :
    (∃ f', c'.field? name = some f' ∧ f'.isSortable) ↔
      ∃ f, c.field? name = some f ∧ f.IsSortable := by
  have hrel := find?_of_becomes (flatMap_of_becomes h) name
  rw [flatMap_group hexclusive, List.find?_flatMap] at hrel
  change Option.Rel _ (c.field? name) (c'.field? name) at hrel
  revert hrel
  generalize c.field? name = o, c'.field? name = o'
  intro hrel
  cases hrel with
  | none => exact iff_of_false nofun nofun
  | @some f f' hf => simp [hf.sortable]

theorem exists_compileCollection_iff {c : Schema.Collection} (hname : IsName c.name) :
    (∃ c', compileCollection names c = .ok c') ↔ c.WellFormed names := by
  have hunion := exists_union_iff c.name (@exists_compileTemplates_iff names c.name [] c.group)
  constructor
  · rintro ⟨c', h⟩
    obtain ⟨path, hpath, h⟩ := exists_of_bind_eq_ok h
    obtain ⟨pattern, hpattern, h⟩ := exists_of_bind_eq_ok h
    obtain ⟨group, hgroup, h⟩ := exists_of_bind_eq_ok h
    obtain ⟨ts, hts, h⟩ := exists_of_bind_eq_ok h
    obtain ⟨ts', hts', horder⟩ := exists_of_bind_eq_ok h
    obtain ⟨rfl, -⟩ := agree_of_checkUnion hts'
    obtain ⟨hexclusive, rfl⟩ := exists_declaredTemplates_iff.mp hgroup
    obtain ⟨hne, hzeroFree⟩ := exists_compilePath_iff.mp ⟨path, hpath⟩
    have hpass := hunion.mp (exists_bind_eq_ok_iff.mpr ⟨ts, hts, ts, hts'⟩)
    obtain ⟨⟨hnodup, hfields⟩, hnames, hagree, htemplates⟩ :=
      (group_wellFormed_iff hname hexclusive).mp hpass
    refine ⟨hne, hzeroFree, exists_compilePattern_iff.mp ⟨pattern, hpattern⟩, hexclusive, hnodup,
      hfields, hnames, hagree, htemplates, fun sort hsort => ?_⟩
    have hbecomes := becomes_of_compileTemplates hts
    have hsortable := exists_checkDefaultSort_iff.mp ⟨c', horder⟩ sort hsort
    refine (exists_sortable_iff hexclusive ?_).mp hsortable
    exact hbecomes
  · intro h
    obtain ⟨path, hpath⟩ := exists_compilePath_iff.mpr ⟨h.path_ne, h.path_zeroFree⟩
    obtain ⟨pattern, hpattern⟩ := exists_compilePattern_iff.mpr h.pattern
    have hgroup := exists_declaredTemplates_iff.mpr ⟨h.exclusive, rfl⟩
    obtain ⟨ts', hall⟩ := hunion.mpr ((group_wellFormed_iff hname h.exclusive).mpr
      ⟨⟨h.fields_nodup, h.fields⟩, h.templates_nodup, h.agree, h.templates⟩)
    obtain ⟨ts, hts, hts'⟩ := exists_of_bind_eq_ok hall
    obtain ⟨rfl, -⟩ := agree_of_checkUnion hts'
    have hbecomes := becomes_of_compileTemplates hts
    refine exists_bind_eq_ok_iff.mpr ⟨path, hpath, exists_bind_eq_ok_iff.mpr ⟨pattern, hpattern, ?_⟩⟩
    refine exists_bind_eq_ok_iff.mpr ⟨c.group, hgroup, exists_bind_eq_ok_iff.mpr ⟨ts, hts, ?_⟩⟩
    refine exists_bind_eq_ok_iff.mpr ⟨ts, hts', exists_checkDefaultSort_iff.mpr ?_⟩
    exact fun sort hsort => (exists_sortable_iff h.exclusive hbecomes).mpr (h.order sort hsort)

theorem checkCollectionNames_eq_ok_iff {seen : List String} {cs : List Schema.Collection} :
    checkCollectionNames seen cs = .ok () ↔
      (∀ c ∈ cs, IsName c.name) ∧ (∀ c ∈ cs, c.name ∉ seen) ∧ (cs.map (·.name)).Nodup := by
  induction cs generalizing seen with
  | nil => exact iff_of_true rfl ⟨nofun, nofun, List.nodup_nil⟩
  | cons c cs ih =>
    have hstep : checkCollectionNames seen (c :: cs) = .ok () ↔
        IsName c.name ∧ c.name ∉ seen ∧ checkCollectionNames (c.name :: seen) cs = .ok () := by
      have hunit {x : Except SchemaError Unit} : x = .ok () ↔ ∃ u, x = .ok u :=
        ⟨fun h => ⟨(), h⟩, fun ⟨_, h⟩ => h⟩
      rw [hunit, checkCollectionNames, exists_check_eq_ok_iff, checkName_eq_ok_iff, hunit]
      refine and_congr_right fun _ => exists_ite_eq_ok_iff.trans ?_
      simp
    rw [hstep, ih, forall_notMem_cons_iff, List.forall_mem_cons, List.forall_mem_cons, List.map_cons,
      List.nodup_cons]
    constructor
    · rintro ⟨hname, hnew, hnames, ⟨hseen, hfresh⟩, hnodup⟩
      exact ⟨⟨hname, hnames⟩, ⟨hnew, hseen⟩, hfresh, hnodup⟩
    · rintro ⟨⟨hname, hnames⟩, ⟨hnew, hseen⟩, hfresh, hnodup⟩
      exact ⟨hname, hnew, hnames, ⟨hseen, hfresh⟩, hnodup⟩

/-- **A schema compiles if and only if it is well formed.** -/
theorem exists_compile_iff {s : Schema} : (∃ g, compile s = .ok g) ↔ s.WellFormed := by
  unfold compile
  rw [exists_check_eq_ok_iff, checkCollectionNames_eq_ok_iff]
  have hcollections (hnames : ∀ c ∈ s.collections, IsName c.name) :
      (∃ cs, s.collections.mapM (compileCollection (s.collections.map (·.name))) = .ok cs) ↔
        ∀ c ∈ s.collections, c.WellFormed (s.collections.map (·.name)) := by
    rw [exists_mapM_eq_ok_iff]
    exact forall₂_congr fun c hc => exists_compileCollection_iff (hnames c hc)
  constructor
  · rintro ⟨⟨hnames, -, hnodup⟩, h⟩
    exact ⟨hnames, hnodup, (hcollections hnames).mp (exists_bind_pure_eq_ok_iff.mp h)⟩
  · rintro ⟨hnames, hnodup, hall⟩
    exact ⟨⟨hnames, fun _ _ => List.not_mem_nil, hnodup⟩,
      exists_bind_pure_eq_ok_iff.mpr ((hcollections hnames).mpr hall)⟩

end Graph

/-! ### Default orders -/

namespace Database

variable {db : Database} {r : Request}

/-- A request that asks for no order is not refused for one. -/
theorem not_blamesOrder_of_query (hG : db.graph.IsCompiled) (hsort : r.sort = none) :
    FailsWith (fun e => ¬ e.BlamesOrder) (db.query r) := by
  refine db.failsWith_query r (fun e _ he => he) fun c hc e he => ?_
  -- the default order is by a sortable field, so there is a listing
  obtain ⟨l, hl⟩ := hG.exists_listing (List.mem_of_find?_eq_some hc) hsort
  rw [hl] at he
  cases he

/-- **Default orders are never refused**, whatever is replied to the questions of the request. -/
theorem not_blamesOrder_of_resolve (hG : db.graph.IsCompiled) (hsort : r.sort = none) (rounds : Nat)
    {e : QueryError} (h : (db.resolve rounds r).run.MayReturn (.error e)) : ¬ e.BlamesOrder := by
  intro hblames
  cases hquery : db.query r with
  | ok q => exact accepts_resolve hquery rounds e h hblames.isRefusal
  | error e' =>
    rw [resolve_of_query_error hquery] at h
    cases h
    exact not_blamesOrder_of_query hG hsort e hquery hblames

end Database

/-- **A schema compiles if and only if it is well formed.** No request that leaves the order of a
listing to a collection of the schema fails for its order, whatever is replied. -/
theorem Schema.exists_compile_iff_wellFormed (s : Schema) :
    ((∃ g, Graph.compile s = .ok g) ↔ s.WellFormed) ∧
      ∀ db : Database, Graph.compile s = .ok db.graph → ∀ r : Request, r.sort = none →
        ∀ (rounds : Nat) (e : QueryError), (db.resolve rounds r).run.MayReturn (.error e) →
          ∀ field collection, e ≠ .invalidSort field collection := by
  refine ⟨Graph.exists_compile_iff, fun db hcompile r hsort rounds e he field collection heq => ?_⟩
  subst heq
  exact Database.not_blamesOrder_of_resolve ⟨s, hcompile⟩ hsort rounds he trivial

namespace Schema

/-- Posts, listed by their dates, with quotations and pictures in rows. -/
def journal : Schema :=
  ⟨[⟨"posts", "/posts/", none, some ".json", false, some "date",
    [.mk "date" (.mk .datetime true none [] none [] []),
      .mk "rows" (.mk .list false none [] (some (.shaped (.mk .list false none [] (some (.shaped
        (.mk .object false none [] none [] [.mk "quote" [.mk "by" (.mk .string true none [] none [] [])],
          .mk "picture" [.mk "by" (.mk .string false none [] none [] [])]]))) [] []))) [] [])],
    []⟩]⟩

/-- What the posts are compiled to. -/
def journalPosts : Graph.Collection :=
  ⟨"posts", "posts", none, some "json", false, some "date",
    [⟨"posts", [⟨"date", .datetime, true, true⟩,
      ⟨"rows", .list (.list (.object [⟨"quote", [⟨"by", .string, true, true⟩]⟩,
        ⟨"picture", [⟨"by", .string, false, true⟩]⟩])), false, false⟩]⟩]⟩

/-- A database of the posts. -/
def journalBase : Database := ⟨.ofCollections [journalPosts], {}, "body"⟩

/-- The schema of the posts is well formed, and a listing of them fails with what the storage fails
with. -/
theorem exists_compile_iff_wellFormed_journal :
    (∃ g, Graph.compile journal = .ok g) ∧ journal.WellFormed ∧
      ∀ field collection, (.storage (.backend "closed")) ≠ QueryError.invalidSort field collection := by
  have hcompile : Graph.compile journal = .ok journalBase.graph := rfl
  have hopens : (Request.list "posts" .empty).Opens journalBase journalPosts :=
    ⟨rfl, rfl, rfl, rfl, nofun, nofun, by decide, by decide⟩
  obtain ⟨q, hq, -, -⟩ := hopens.exists_query ⟨journal, hcompile⟩ (List.mem_singleton_self _)
  have hclosed : (journalBase.resolve 1 (.list "posts" .empty)).run.MayReturn
      (.error (.storage (.backend "closed"))) := by
    rw [Database.resolve_of_query (Database.query_eq_page_iff.mpr hq)]
    exact .ask (.error (.backend "closed")) (.done _)
  have haccepted := exists_compile_iff_wellFormed journal
  exact ⟨⟨_, hcompile⟩, haccepted.1.mp ⟨_, hcompile⟩,
    haccepted.2 journalBase hcompile _ rfl 1 _ hclosed⟩

end Schema

end ContentIndex
