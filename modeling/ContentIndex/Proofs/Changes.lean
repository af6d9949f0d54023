import ContentIndex.Graph.Diff
import ContentIndex.Proofs.Fingerprint
import Mathlib.Data.List.Basic
import Mathlib.Data.List.Forall2
import Mathlib.Data.List.Perm.Basic

/-!
# What a list of changes does not tell

Collections, templates and fields are compared by their names, so the changes from one graph to
another do not tell their order. The version does, for the order is hashed: the first collection
that a path belongs to owns it, and the first template that an object meets is its template.

## Main definitions

* `Graph.Matched`: lists that are made of the same things in any order
* `Graph.Rearranges`: a graph with the declarations of another one in any order
* `Graph.Reorders`: the order is another one

## Main results

* `Graph.needsReindex_iff_not_rearranges`: changes ask for a new index unless the new graph has the
  declarations of the old one
* `Graph.version_ne_of_needsReindex`: then the versions are different
* `Graph.needsReindex_iff_version_ne_iff`: **changes and versions agree unless the new graph has the
  declarations of the old one in another order**
-/

namespace ContentIndex.Graph

/-! ### Lists that match -/

section Matched

variable {α : Type} {R : α → α → Prop} {name : α → String} {l l' : List α}

/-- In some order, the second list has what the things of the first one are related to. -/
def Matched (R : α → α → Prop) (l l' : List α) : Prop := ∃ m, List.Forall₂ R l m ∧ m.Perm l'

theorem exists_forall₂ (h : ∀ a ∈ l, ∃ b, R a b) : ∃ m, List.Forall₂ R l m := by
  induction l with
  | nil => exact ⟨[], .nil⟩
  | cons a l ih =>
    obtain ⟨⟨b, hb⟩, hl⟩ := List.forall_mem_cons.mp h
    obtain ⟨m, hm⟩ := ih hl
    exact ⟨b :: m, .cons hb hm⟩

theorem exists_of_forall₂_left {m : List α} (h : List.Forall₂ R l m) {a : α} (ha : a ∈ l) :
    ∃ b ∈ m, R a b :=
  exists_of_forall₂ h.flip ha

/-- **Lists match if things are found by their names, and nothing is left.** -/
theorem matched_iff (hl : (l.map name).Nodup) (hl' : (l'.map name).Nodup)
    (hR : ∀ a b, R a b → name b = name a) : Matched R l l' ↔
      (∀ a ∈ l, ∃ b, l'.find? (fun x => decide (name x = name a)) = some b ∧ R a b) ∧
        ∀ b ∈ l', (l.find? fun x => decide (name x = name b)).isSome := by
  constructor
  · rintro ⟨m, hm, hperm⟩
    refine ⟨fun a ha => ?_, fun b hb => ?_⟩
    · obtain ⟨b, hb, hab⟩ := exists_of_forall₂_left hm ha
      exact ⟨b, hR a b hab ▸ find?_name_eq hl' (hperm.mem_iff.mp hb), hab⟩
    · obtain ⟨a, ha, hab⟩ := exists_of_forall₂ hm (hperm.mem_iff.mpr hb)
      exact List.find?_isSome.mpr ⟨a, ha, by simp [hR a b hab]⟩
  · rintro ⟨hfound, hall⟩
    obtain ⟨m, hm⟩ := exists_forall₂ hfound
    have hnames : m.map name = l.map name := map_eq_of_forall₂ hm fun a b h => hR a b h.2
    refine ⟨m, hm.imp fun a b h => h.2, ?_⟩
    refine (List.perm_ext_iff_of_nodup (.of_map name (hnames ▸ hl)) hl'.of_map).mpr
      fun b => ⟨fun hb => ?_, fun hb => ?_⟩
    · obtain ⟨a, -, hfind, -⟩ := exists_of_forall₂ hm hb
      exact List.mem_of_find?_eq_some hfind
    · obtain ⟨a, ha⟩ := Option.isSome_iff_exists.mp (hall b hb)
      obtain ⟨b', hb', hfind, -⟩ := exists_of_forall₂_left hm (List.mem_of_find?_eq_some ha)
      rw [eq_of_find?_name ha, find?_name_eq hl' hb] at hfind
      exact Option.some.inj hfind ▸ hb'

end Matched

/-! ### Graphs that are rearranged -/

/-- The template has the fields of another one in any order. -/
structure Template.Rearranges (new old : Template) : Prop where
  /-- The name is the same. -/
  name : old.name = new.name
  /-- So are the fields. -/
  fields : Matched (fun f g => g = f) new.fields old.fields

/-- Apart from its default order, the collection is another one with its templates and fields in any
order. -/
structure Collection.Rearranges (new old : Collection) : Prop where
  /-- The name is the same. -/
  name : old.name = new.name
  /-- The directory. -/
  path : old.path = new.path
  /-- The pattern. -/
  pattern : old.pattern = new.pattern
  /-- The extension. -/
  format : old.format = new.format
  /-- How undeclared members are treated. -/
  strict : old.strict = new.strict
  /-- The templates. -/
  templates : Matched Template.Rearranges new.templates old.templates

/-- Apart from default orders, the graph is another one with its collections, templates and fields
in any order. -/
def Rearranges (new old : Graph) : Prop :=
  Matched Collection.Rearranges new.collections old.collections

/-- Apart from default orders, the graph is another one with collections, templates or fields in
another order. -/
def Reorders (new old : Graph) : Prop := new.Rearranges old ∧ new.plain ≠ old.plain

/-- A graph that differs in its default orders only is rearranged in no way. -/
theorem rearranges_of_plain_eq {new old : Graph} (h : new.plain = old.plain) :
    new.Rearranges old := by
  have hself (l : List Template) : Matched Template.Rearranges l l := by
    refine ⟨l, List.forall₂_same.mpr fun t _ => ⟨rfl, t.fields, ?_, .refl _⟩, .refl _⟩
    exact List.forall₂_same.mpr fun _ _ => rfl
  have hlist {cs ds : List Collection} (heq : cs.map Collection.plain = ds.map Collection.plain) :
      List.Forall₂ Collection.Rearranges cs ds := by
    induction cs generalizing ds with
    | nil =>
      rw [List.map_nil, List.nil_eq, List.map_eq_nil_iff] at heq
      subst heq
      exact .nil
    | cons c cs ih =>
      cases ds with
      | nil => cases heq
      | cons d ds =>
        obtain ⟨hcd, hrest⟩ := List.cons.inj heq
        obtain ⟨hname, hpath, hpattern, hformat, hstrict, -, htemplates⟩ :=
          Collection.mk.injEq .. ▸ hcd
        refine .cons ⟨hname.symm, hpath.symm, hpattern.symm, hformat.symm, hstrict.symm, ?_⟩
          (ih hrest)
        exact htemplates ▸ hself _
  exact ⟨_, hlist (congrArg Graph.collections h), .refl _⟩

/-! ### Changes that ask for nothing -/

theorem needsReindex_append {cs ds : List Change} :
    needsReindex (cs ++ ds) = false ↔ needsReindex cs = false ∧ needsReindex ds = false := by
  simp only [needsReindex, List.any_append, Bool.or_eq_false_iff]

theorem needsReindex_flatMap {α : Type} {l : List α} {f : α → List Change} :
    needsReindex (l.flatMap f) = false ↔ ∀ a ∈ l, needsReindex (f a) = false := by
  simp only [needsReindex, List.any_flatMap, List.any_eq_false, Bool.not_eq_true]

/-- What is gone asks for a new index. -/
theorem needsReindex_gone {α : Type} {l : List α} {found : α → Bool} {change : α → Change}
    (h : ∀ a, (change a).requiresReindex) :
    needsReindex ((l.filter fun a => !found a).map change) = false ↔ ∀ a ∈ l, found a := by
  simp [needsReindex, h]

theorem needsReindex_ite {p : Prop} [Decidable p] {c : Change} (h : c.requiresReindex) :
    needsReindex (if p then [c] else []) = false ↔ ¬ p := by
  by_cases hp : p <;> simp [needsReindex, hp, h]

/-- What is declared asks for nothing if it was there before and asks for nothing against that. -/
theorem needsReindex_declared {α : Type} (before? : Option α) (R : α → Prop) {cs : List Change}
    (hadded : before? = none → needsReindex cs = true)
    (hagainst : ∀ a, before? = some a → (needsReindex cs = false ↔ R a)) :
    needsReindex cs = false ↔ ∃ a, before? = some a ∧ R a := by
  cases before? with
  | none => simp [hadded rfl]
  | some a => simpa using hagainst a rfl

theorem needsReindex_iff_of_fieldChange? {c : String} {old t : Template} {f : Field} :
    needsReindex (fieldChange? c old t f).toList = false ↔ old.field? f.name = some f := by
  unfold fieldChange?
  cases hfield : old.field? f.name with
  | none => simp [needsReindex, Change.requiresReindex]
  | some g =>
    obtain ⟨name, kind, required, indexed⟩ := f
    obtain ⟨name', kind', required', indexed'⟩ := g
    obtain rfl : name' = name := eq_of_find?_name hfield
    by_cases hkind : kind' = kind
    · by_cases hflags : required' ≠ required ∨ indexed' ≠ indexed
      · have hne : ¬ (required' = required ∧ indexed' = indexed) := by
          rwa [← not_and_or] at hflags
        simp [hkind, hflags, hne, needsReindex, Change.requiresReindex]
      · obtain ⟨rfl, rfl⟩ : required' = required ∧ indexed' = indexed := by
          simpa [not_or] using hflags
        simp [hkind, needsReindex]
    · simp [hkind, needsReindex, Change.requiresReindex]

/-- A template that is declared as before asks for nothing. -/
theorem needsReindex_templateChanges {c : String} {old new : Template}
    (hold : (old.fields.map (·.name)).Nodup) (hnew : (new.fields.map (·.name)).Nodup)
    (hname : old.name = new.name) :
    needsReindex (templateChanges c old new) = false ↔ new.Rearranges old := by
  have hfields : new.Rearranges old ↔ Matched (fun f g => g = f) new.fields old.fields :=
    ⟨fun h => h.fields, fun h => ⟨hname, h⟩⟩
  have hlist : new.fields.filterMap (fieldChange? c old new) =
      new.fields.flatMap fun f => (fieldChange? c old new f).toList :=
    List.filterMap_eq_flatMap_toList ..
  rw [hfields, matched_iff hnew hold (by rintro f g rfl; rfl), templateChanges,
    needsReindex_append, hlist, needsReindex_flatMap]
  refine and_congr (forall₂_congr fun f _ => ?_) ?_
  · rw [needsReindex_iff_of_fieldChange?]
    exact ⟨fun h => ⟨f, h, rfl⟩, by rintro ⟨g, hg, rfl⟩; exact hg⟩
  · simp only [← Option.not_isSome]
    exact needsReindex_gone fun _ => rfl

/-- A collection that is declared as before, but for its default order, asks for nothing. -/
theorem needsReindex_collectionChanges {old new : Collection} {names names' : List String}
    (hold : old.Declared names) (hnew : new.Declared names') (hname : old.name = new.name) :
    needsReindex (collectionChanges old new) = false ↔ new.Rearranges old := by
  have hpattern : old.pattern.map (·.text) = new.pattern.map (·.text) ↔ old.pattern = new.pattern :=
    ⟨pattern_eq_of_text hold.pattern hnew.pattern, fun h => by rw [h]⟩
  have horder : needsReindex (if old.defaultSort ≠ new.defaultSort then
      [.defaultSortChanged new.name] else []) = false := by
    split <;> rfl
  have hfields {t : Template} {c : Collection} {names : List String} (hc : c.Declared names)
      (ht : t ∈ c.templates) : (t.fields.map (·.name)).Nodup :=
    (Template.allDeclared_iff.mp hc.templates t ht).1
  have hmatched := matched_iff (R := Template.Rearranges) hnew.union.names hold.union.names
    fun _ _ h => h.name
  rw [collectionChanges]
  simp only [needsReindex_append, needsReindex_flatMap, horder, and_true, ← Option.not_isSome]
  rw [needsReindex_ite rfl, needsReindex_ite rfl, needsReindex_gone fun _ => rfl]
  refine Iff.trans (and_congr_left' (and_congr_right' (forall₂_congr fun t ht =>
    needsReindex_declared (old.template? t.name) t.Rearranges (fun hu => ?_) fun u hu => ?_))) ?_
  · rw [hu]
    rfl
  · rw [hu]
    exact needsReindex_templateChanges (hfields hold (List.mem_of_find?_eq_some hu))
      (hfields hnew ht) (eq_of_find?_name hu)
  · constructor
    · rintro ⟨⟨⟨hlocation, hstrict⟩, hfound⟩, hall⟩
      simp only [not_or, ne_eq, not_not, hpattern] at hlocation hstrict
      exact ⟨hname, hlocation.1, hlocation.2.1, hlocation.2.2, hstrict, hmatched.mpr ⟨hfound, hall⟩⟩
    · rintro ⟨-, hpath, hsame, hformat, hstrict, htemplates⟩
      obtain ⟨hfound, hall⟩ := hmatched.mp htemplates
      exact ⟨⟨⟨by simp [hpath, hsame, hformat], by simp [hstrict]⟩, hfound⟩, hall⟩

/-! ### Changes and versions -/

variable {old new : Graph}

/-- **Changes ask for a new index unless the new graph has the declarations of the old one.** -/
theorem needsReindex_iff_not_rearranges (hold : old.IsCompiled) (hnew : new.IsCompiled) :
    needsReindex (changes old new) = true ↔ ¬ new.Rearranges old := by
  rw [← Bool.not_eq_false, not_iff_not]
  rw [Rearranges, matched_iff hnew.declared.1 hold.declared.1 fun _ _ h => h.name, changes,
    needsReindex_append, needsReindex_flatMap]
  simp only [← Option.not_isSome]
  rw [needsReindex_gone fun _ => rfl]
  refine and_congr_left' (forall₂_congr fun c hc =>
    needsReindex_declared (old.collection? c.name) c.Rearranges (fun hd => ?_) fun d hd => ?_)
  · rw [hd]
    rfl
  · rw [hd]
    exact needsReindex_collectionChanges (hold.declared.2 d (List.mem_of_find?_eq_some hd))
      (hnew.declared.2 c hc) (eq_of_find?_name hd)

/-- A graph that changes ask a new index for is of another version. -/
theorem version_ne_of_needsReindex (hold : old.IsCompiled) (hnew : new.IsCompiled)
    (hapart : VersionsApart old new) (h : needsReindex (changes old new) = true) :
    old.version ≠ new.version := by
  intro hversion
  refine (needsReindex_iff_not_rearranges hold hnew).mp h (rearranges_of_plain_eq ?_)
  exact ((version_eq_iff hold hnew hapart).mp hversion).symm

/-- **Changes and versions agree unless the order is another one.** That changes ask for a new index
means the same as that the versions are different, if and only if the new graph is not the old one
with collections, templates or fields in another order. -/
theorem needsReindex_iff_version_ne_iff (hold : old.IsCompiled) (hnew : new.IsCompiled)
    (hapart : VersionsApart old new) :
    (needsReindex (changes old new) = true ↔ old.version ≠ new.version) ↔ ¬ new.Reorders old := by
  have hplain := version_eq_iff hold hnew hapart
  rw [needsReindex_iff_not_rearranges hold hnew, Reorders]
  constructor
  · rintro hiff ⟨hrearranges, hne⟩
    exact hiff.mpr (fun hversion => hne (hplain.mp hversion).symm) hrearranges
  · intro hnot
    refine ⟨fun hrearranges hversion => ?_, fun hversion hrearranges => ?_⟩
    · exact hrearranges (rearranges_of_plain_eq (hplain.mp hversion).symm)
    · exact hnot ⟨hrearranges, fun heq => hversion (hplain.mpr heq.symm)⟩

/-! ### Two collections of one directory -/

/-- A collection of one directory, with one field. -/
def inDocs (name field : String) : Collection :=
  ⟨name, "docs", none, none, false, none, [⟨name, [⟨field, .string, false, true⟩]⟩]⟩

/-- Documents are guides, as these come first. -/
def guidesFirst : Graph := .ofCollections [inDocs "guides" "title", inDocs "pages" "label"]

/-- Documents are pages, as these come first. -/
def pagesFirst : Graph := .ofCollections [inDocs "pages" "label", inDocs "guides" "title"]

/-- A collection of one directory in a schema. -/
def declaredInDocs (name field : String) : Schema.Collection :=
  ⟨name, "docs", none, none, false, none, [.mk field (.mk .string false none [] none [] [])], []⟩

theorem guidesFirst_compiled : guidesFirst.IsCompiled :=
  ⟨⟨[declaredInDocs "guides" "title", declaredInDocs "pages" "label"]⟩, rfl⟩

theorem pagesFirst_compiled : pagesFirst.IsCompiled :=
  ⟨⟨[declaredInDocs "pages" "label", declaredInDocs "guides" "title"]⟩, rfl⟩

theorem version_guidesFirst_ne : guidesFirst.version ≠ pagesFirst.version := by
  decide +kernel

theorem versionsApart_guidesFirst : VersionsApart guidesFirst pagesFirst := fun heq =>
  absurd ((guidesFirst.version_eq.trans heq).trans pagesFirst.version_eq.symm)
    version_guidesFirst_ne

/-- There is no change that tells of the order of collections. -/
theorem changes_guidesFirst : changes guidesFirst pagesFirst = [] := by
  decide +kernel

/-- The order of collections is another one, and this is seen from the changes and the versions. -/
theorem needsReindex_iff_version_ne_iff_pagesFirst :
    pagesFirst.Reorders guidesFirst := by
  by_contra hnot
  have hiff := (needsReindex_iff_version_ne_iff guidesFirst_compiled pagesFirst_compiled
    versionsApart_guidesFirst).mpr hnot
  have hneeds := hiff.mpr version_guidesFirst_ne
  rw [changes_guidesFirst] at hneeds
  cases hneeds

/-- **Changes may ask for nothing though the index will be refused.** Documents have another owner
by the new graph, and the versions are different. -/
theorem exists_unnoticed_order :
    ∃ old new : Graph, old.IsCompiled ∧ new.IsCompiled ∧ VersionsApart old new ∧
      (old.owner? "docs/a.md").map (·.name) = some "guides" ∧
      (new.owner? "docs/a.md").map (·.name) = some "pages" ∧
      needsReindex (changes old new) = false ∧ old.version ≠ new.version :=
  ⟨guidesFirst, pagesFirst, guidesFirst_compiled, pagesFirst_compiled, versionsApart_guidesFirst,
    by rfl, by rfl, by rw [changes_guidesFirst]; rfl, version_guidesFirst_ne⟩

end ContentIndex.Graph
