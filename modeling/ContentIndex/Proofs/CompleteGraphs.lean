import ContentIndex.Proofs.Declarations

/-!
# Complete graphs

A schema that compiles gives every reference a target and every object a template, and everything that
is declared, at any depth, has a proper name.

## Main definitions

* `Graph.Kind.Complete`, `Graph.Collection.Complete`: proper names, and no empty lists of targets and
  templates

## Main results

* `Graph.complete_of_compileKind`: a kind that compiles is complete
* `Graph.IsCompiled.complete`: **the collections of a compiled graph are complete**
-/

namespace ContentIndex

namespace Graph

mutual

/-- References have targets and objects have templates, all of them under proper names. -/
def Kind.Complete : Kind → Prop
  | .reference targets => targets ≠ [] ∧ ∀ t ∈ targets, isName t
  | .list items => items.Complete
  | .object templates => templates ≠ [] ∧ Template.AllComplete templates
  | _ => True

/-- The templates have proper names and complete fields. -/
def Template.AllComplete : List Template → Prop
  | [] => True
  | ⟨name, fields⟩ :: r => isName name ∧ Field.AllComplete fields ∧ Template.AllComplete r

/-- The fields have proper names and complete kinds. -/
def Field.AllComplete : List Field → Prop
  | [] => True
  | ⟨name, kind, _, _⟩ :: r => isName name ∧ kind.Complete ∧ Field.AllComplete r

end

theorem Template.allComplete_iff {ts : List Template} : Template.AllComplete ts ↔
    ∀ t ∈ ts, isName t.name ∧ Field.AllComplete t.fields := by
  induction ts with
  | nil => exact iff_of_true trivial nofun
  | cons t ts ih =>
    obtain ⟨name, fields⟩ := t
    rw [Template.AllComplete, ih, List.forall_mem_cons, and_assoc]

/-- The collection has a proper name, and templates that are complete. -/
structure Collection.Complete (c : Collection) : Prop where
  /-- The name is one. -/
  name : isName c.name
  /-- There are templates. -/
  some : c.templates ≠ []
  /-- They are complete. -/
  templates : Template.AllComplete c.templates

/-! ### Schemas that compile -/

variable {names : List String}

theorem ne_nil_of_compileTargets {path : String} {targets ts : List String}
    (h : compileTargets names path targets = .ok ts) : ts ≠ [] := by
  have hkeeps (l : List String) (acc : List String) (hacc : acc ≠ []) :
      l.foldl (fun seen t => if seen.contains t then seen else seen ++ [t]) acc ≠ [] := by
    induction l generalizing acc with
    | nil => exact hacc
    | cons x l ih =>
      refine ih _ ?_
      beta_reduce
      split
      · exact hacc
      · simp
  unfold compileTargets at h
  split at h
  · cases h
  · next hne =>
    split at h
    · cases h
    · cases h
      obtain ⟨t, targets, rfl⟩ := List.exists_cons_of_ne_nil (by simpa using hne)
      exact hkeeps targets [t] (List.cons_ne_nil _ _)

mutual

/-- A kind that compiles is complete. -/
theorem complete_of_compileKind (hnames : ∀ n ∈ names, isName n) {leaf path : String}
    {shape : Schema.Shape} {k : Kind} (h : compileKind names leaf path shape = .ok k) : k.Complete := by
  obtain ⟨type, required, indexed, targets, items, fields, templates⟩ := shape
  rw [compileKind.eq_def] at h
  cases type with
  | reference =>
    obtain ⟨ts, hts, h⟩ := exists_of_bind_eq_ok h
    cases h
    exact ⟨ne_nil_of_compileTargets hts, fun t ht => hnames t (mem_names_of_compileTargets hts t ht)⟩
  | list =>
    match items with
    | none => cases h
    | some (.bare type) =>
      obtain ⟨k, hk, h⟩ := exists_of_bind_eq_ok h
      cases h
      rw [compileItems] at hk
      cases type <;> cases hk <;> trivial
    | some (.shaped shape) =>
      obtain ⟨k, hk, h⟩ := exists_of_bind_eq_ok h
      cases h
      rw [compileItems] at hk
      show k.Complete
      exact complete_of_compileKind hnames hk
  | object =>
    match fields, templates with
    | _ :: _, _ :: _ => cases h
    | [], [] => cases h
    | f :: fields, [] =>
      obtain ⟨_, hname, h⟩ := exists_of_bind_eq_ok h
      obtain ⟨fs, hfs, h⟩ := exists_of_bind_eq_ok h
      cases h
      exact ⟨List.cons_ne_nil _ _, isName_of_checkName hname, complete_of_compileFields hnames hfs,
        trivial⟩
    | [], t :: templates =>
      obtain ⟨ts, hts, h⟩ := exists_of_bind_eq_ok h
      obtain ⟨ts', hts', h⟩ := exists_of_bind_eq_ok h
      cases h
      obtain ⟨rfl, -⟩ := agree_of_checkUnion hts'
      obtain ⟨hne, hall⟩ := complete_of_compileTemplates hnames hts
      exact ⟨hne (List.cons_ne_nil _ _), hall⟩
  | _ =>
    cases h
    trivial

theorem complete_of_compileTemplates (hnames : ∀ n ∈ names, isName n) {owner : String}
    {seen : List String} {ts : List Schema.Template} {ts' : List Template}
    (h : compileTemplates names owner seen ts = .ok ts') :
    (ts ≠ [] → ts' ≠ []) ∧ Template.AllComplete ts' := by
  match ts with
  | [] =>
    cases h
    exact ⟨fun hne => absurd rfl hne, trivial⟩
  | .mk name fields :: r =>
    rw [compileTemplates] at h
    obtain ⟨_, hname, h⟩ := exists_of_bind_eq_ok h
    split at h
    · cases h
    · obtain ⟨fs, hfs, h⟩ := exists_of_bind_eq_ok h
      obtain ⟨rest, hrest, h⟩ := exists_of_bind_eq_ok h
      cases h
      exact ⟨fun _ => List.cons_ne_nil _ _, isName_of_checkName hname, complete_of_compileFields hnames hfs,
        (complete_of_compileTemplates hnames hrest).2⟩

theorem complete_of_compileFields (hnames : ∀ n ∈ names, isName n) {owner : String}
    {seen : List String} {fs : List Schema.Field} {fs' : List Field}
    (h : compileFields names owner seen fs = .ok fs') :
    Field.AllComplete fs' := by
  match fs with
  | [] =>
    cases h
    exact trivial
  | .mk name (.mk type required indexed targets items fields templates) :: r =>
    rw [compileFields] at h
    obtain ⟨_, hname, h⟩ := exists_of_bind_eq_ok h
    obtain ⟨_, -, h⟩ := exists_of_bind_eq_ok h
    split at h
    · cases h
    · obtain ⟨k, hk, h⟩ := exists_of_bind_eq_ok h
      obtain ⟨indexed, -, h⟩ := exists_of_bind_eq_ok h
      obtain ⟨rest, hrest, h⟩ := exists_of_bind_eq_ok h
      cases h
      exact ⟨isName_of_checkName hname, complete_of_compileKind hnames hk,
        complete_of_compileFields hnames hrest⟩

end

theorem complete_of_compileCollection (hnames : ∀ n ∈ names, isName n) {c : Schema.Collection}
    {c' : Collection} (hname : isName c.name) (h : compileCollection names c = .ok c') : c'.Complete := by
  obtain ⟨path, -, h⟩ := exists_of_bind_eq_ok h
  obtain ⟨pattern, -, h⟩ := exists_of_bind_eq_ok h
  obtain ⟨declared, hdeclared, h⟩ := exists_of_bind_eq_ok h
  obtain ⟨ts, hts, h⟩ := exists_of_bind_eq_ok h
  obtain ⟨ts', hts', h⟩ := exists_of_bind_eq_ok h
  obtain ⟨rfl, -⟩ := agree_of_checkUnion hts'
  obtain ⟨hne, hall⟩ := complete_of_compileTemplates hnames hts
  have hsome : declared ≠ [] := by
    unfold declaredTemplates at hdeclared
    cases hf : c.fields <;> cases ht : c.templates <;> rw [hf, ht] at hdeclared <;>
      cases hdeclared <;> exact List.cons_ne_nil _ _
  have hsame := eq_of_checkDefaultSort h
  subst hsame
  exact ⟨hname, hne hsome, hall⟩

/-- **The collections of a compiled graph are complete.** -/
theorem IsCompiled.complete {g : Graph} (h : g.IsCompiled) : ∀ c ∈ g.collections, c.Complete := by
  obtain ⟨s, h⟩ := h
  obtain ⟨u, hchecked, h⟩ := exists_of_bind_eq_ok h
  obtain ⟨cs, hcs, h⟩ := exists_of_bind_eq_ok h
  cases h
  obtain ⟨hproper, -⟩ := names_of_checkCollectionNames hchecked
  have hnames : ∀ n ∈ s.collections.map (·.name), isName n :=
    List.forall_mem_map.mpr fun d hd => (hproper d hd).1
  have hall := forall_of_mapM_eq_ok (P := fun (_ : Schema.Collection) (c : Collection) => c.Complete)
    (fun d hd c hc => complete_of_compileCollection hnames (hproper d hd).1 hc) hcs
  intro c hc
  obtain ⟨d, -, hcomplete⟩ := exists_of_forall₂ hall hc
  exact hcomplete

end Graph

end ContentIndex
