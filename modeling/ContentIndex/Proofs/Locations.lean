import ContentIndex.Proofs.Mirrors
import ContentIndex.Proofs.Numerals

/-!
# Places in an answer

The place of a value in an answer is written as the names and the numbers that lead to it. Names are
proper, so they hold neither the point nor the bracket that separate them, and the place of a value can
be read off. Two references that are met on the way have different places: their ways part at two
names of one selection, or at two numbers of one list, or one lies below the other.

## Main definitions

* `Location.Under`: a place is another one, or lies below it
* `Visit.locations`: the places of the references that are met
* `Composite.Declared`: documents and objects with the templates of a compiled graph

## Main results

* `Location.name_eq_of_under`, `Location.index_eq_of_under`: places of different members are apart
* `Selection.nodup_tour`: **no two references that a projection meets have one place**
-/

namespace ContentIndex

open Graph (Kind Template isName memberLocation)
open Json (Value)

/-! ### Places -/

namespace Location

variable {here there location : String}

/-- The text ends, or goes on with a separator. -/
def Separated (rest : List Char) : Prop := ∀ c ∈ rest.head?, c = '.' ∨ c = '['

/-- The place is the other one, or lies below it. -/
def Under (here location : String) : Prop :=
  ∃ rest, location.toList = here.toList ++ rest ∧ Separated rest

/-- Nothing lies below both places. -/
def Apart (here there : String) : Prop := ∀ location, Under here location → ¬ Under there location

theorem Under.refl (here : String) : Under here here := ⟨[], (List.append_nil _).symm, nofun⟩

theorem Under.trans (h : Under here there) (h' : Under there location) : Under here location := by
  obtain ⟨rest, hrest, hsep⟩ := h
  obtain ⟨rest', hrest', hsep'⟩ := h'
  refine ⟨rest ++ rest', by rw [hrest', hrest, List.append_assoc], ?_⟩
  rcases rest with _ | ⟨c, rest⟩
  · exact hsep'
  · exact hsep

theorem under_item (here : String) (i : Nat) : Under here (here ++ "[" ++ toString i ++ "]") := by
  refine ⟨'[' :: ((toString i).toList ++ [']']), by simp, ?_⟩
  rintro c ⟨⟩
  exact Or.inr rfl

theorem under_member (h : here ≠ "") (name : String) : Under here (memberLocation here name) := by
  refine ⟨'.' :: name.toList, ?_, ?_⟩
  · simp [memberLocation, h]
  · rintro c ⟨⟩
    exact Or.inl rfl

/-- What comes first of two equal texts is equal, if its end can be told. -/
theorem eq_of_append_eq {p : Char → Bool} {a b r r' : List Char} (ha : ∀ c ∈ a, p c)
    (hb : ∀ c ∈ b, p c) (hr : ∀ c ∈ r.head?, p c = false) (hr' : ∀ c ∈ r'.head?, p c = false)
    (h : a ++ r = b ++ r') : a = b := by
  have htake {l m : List Char} (hl : ∀ c ∈ l, p c) (hm : ∀ c ∈ m.head?, p c = false) :
      (l ++ m).takeWhile p = l := by
    rw [List.takeWhile_append_of_pos hl]
    cases m with
    | nil => simp
    | cons c m => rw [List.takeWhile_cons_of_neg (by simp [hm c rfl]), List.append_nil]
  rw [← htake ha hr, h, htake hb hr']

/-- Proper names have no separators. -/
theorem not_separator_of_isName {name : String} (h : isName name) :
    ∀ c ∈ name.toList, (c ≠ '.' && c ≠ '[') = true := by
  intro c hc
  have hchar : (c.isAlphanum || decide (c = '_') || decide (c = '-')) = true := by
    unfold isName at h
    rw [Bool.and_eq_true, List.all_eq_true] at h
    exact h.2 c hc
  simp only [Bool.and_eq_true, decide_eq_true_eq]
  constructor
  · rintro rfl
    exact absurd hchar (by decide)
  · rintro rfl
    exact absurd hchar (by decide)

/-- A member is found by the place of what lies below it. -/
theorem name_eq_of_under {n m : String} (hn : isName n) (hm : isName m)
    (h : Under (memberLocation here n) location) (h' : Under (memberLocation here m) location) :
    n = m := by
  obtain ⟨rest, hrest, hsep⟩ := h
  obtain ⟨rest', hrest', hsep'⟩ := h'
  obtain ⟨start, hstart⟩ : ∃ start, ∀ name, (memberLocation here name).toList =
      start ++ name.toList := by
    by_cases hempty : here.isEmpty
    · exact ⟨[], fun name => by rw [memberLocation, if_pos hempty, List.nil_append]⟩
    · exact ⟨here.toList ++ ['.'], fun name => by simp [memberLocation, hempty]⟩
  have hends {r : List Char} (hr : Separated r) :
      ∀ c ∈ r.head?, (c ≠ '.' && c ≠ '[') = false := by
    intro c hc
    rcases hr c hc with rfl | rfl
    · rfl
    · rfl
  rw [hrest, hstart, hstart, List.append_assoc, List.append_assoc, List.append_cancel_left_eq]
    at hrest'
  exact String.toList_inj.mp (eq_of_append_eq (not_separator_of_isName hn)
    (not_separator_of_isName hm) (hends hsep) (hends hsep') hrest')

/-- So is an item of a list. -/
theorem index_eq_of_under {i j : Nat} (h : Under (here ++ "[" ++ toString i ++ "]") location)
    (h' : Under (here ++ "[" ++ toString j ++ "]") location) : i = j := by
  obtain ⟨rest, hrest, -⟩ := h
  obtain ⟨rest', hrest', -⟩ := h'
  have hitem (k : Nat) (r : List Char) : (here ++ "[" ++ toString k ++ "]").toList ++ r =
      (here.toList ++ ['[']) ++ (Nat.toDigits 10 k ++ ']' :: r) := by
    simp [Nat.toString_eq_repr]
  have hdigits (k : Nat) : ∀ c ∈ Nat.toDigits 10 k, c.isDigit := fun c => isDigit_of_mem_toDigits
  rw [hrest, hitem, hitem, List.append_cancel_left_eq] at hrest'
  have heq : Nat.toDigits 10 i = Nat.toDigits 10 j := by
    refine eq_of_append_eq (hdigits i) (hdigits j) ?_ ?_ hrest'
    · rintro c ⟨⟩
      rfl
    · rintro c ⟨⟩
      rfl
  rw [← digitsValue_toDigits i, heq, digitsValue_toDigits]

theorem length_pos_of_isName {name : String} (h : isName name) : 0 < name.toList.length := by
  unfold isName at h
  rw [Bool.and_eq_true, decide_eq_true_eq] at h
  exact List.length_pos_iff.mpr fun hnil => h.1 (String.toList_eq_nil_iff.mp hnil)

/-- A member is longer than the place that it is a member of. -/
theorem length_lt_memberLocation {name : String} (h : isName name) :
    here.toList.length < (memberLocation here name).toList.length := by
  have hpos := length_pos_of_isName h
  unfold memberLocation
  split
  · next hempty =>
    rw [String.isEmpty_iff.mp hempty]
    exact hpos
  · simp only [String.toList_append, List.length_append]
    omega

theorem memberLocation_ne_empty {name : String} (h : isName name) : memberLocation here name ≠ "" := by
  intro heq
  have hlength : here.toList.length < (memberLocation here name).toList.length :=
    length_lt_memberLocation h
  rw [heq] at hlength
  exact Nat.not_lt_zero _ hlength

theorem Under.length_le (h : Under here location) : here.toList.length ≤ location.toList.length := by
  obtain ⟨rest, hrest, -⟩ := h
  rw [hrest, List.length_append]
  exact Nat.le_add_right _ _

theorem Under.ne_empty (h : Under here location) (hne : here ≠ "") : location ≠ "" := by
  rintro rfl
  exact hne (String.toList_eq_nil_iff.mp (List.length_eq_zero_iff.mp (Nat.le_zero.mp h.length_le)))

/-- What lies below a member of a place is not the place. -/
theorem ne_of_under_member {name : String} (hname : isName name)
    (h : Under (memberLocation here name) location) : location ≠ here := by
  rintro rfl
  exact absurd h.length_le (Nat.not_le.mpr (length_lt_memberLocation hname))

end Location

open Location (Under Apart)

/-! ### Ways that stay below a place -/

/-- The places of the references that are met. -/
def Visit.locations (tour : List Visit) : List String := tour.filterMap Visit.location?

namespace Visit

variable {tour tour' : List Visit} {here there : String}

theorem locations_append (tour tour' : List Visit) :
    locations (tour ++ tour') = locations tour ++ locations tour' :=
  List.filterMap_append

/-- The references that are met have different places, below the one that is given. -/
structure StaysUnder (here : String) (tour : List Visit) : Prop where
  /-- They lie below it. -/
  under : ∀ location ∈ locations tour, Under here location
  /-- They are different. -/
  nodup : (locations tour).Nodup

namespace StaysUnder

theorem nil : StaysUnder here [] := ⟨nofun, List.nodup_nil⟩

theorem mono (h : StaysUnder there tour) (hthere : Under here there) : StaysUnder here tour :=
  ⟨fun location hlocation => hthere.trans (h.under location hlocation), h.nodup⟩

/-- Ways below places that are apart, one after another. -/
theorem flatMap {α : Type} {base : α → String} {f : α → List Visit} {l : List α}
    (hl : ∀ a ∈ l, Under here (base a)) (hapart : l.Pairwise fun a b => Apart (base a) (base b))
    (hf : ∀ a ∈ l, StaysUnder (base a) (f a)) : StaysUnder here (l.flatMap f) := by
  induction hapart with
  | nil => exact nil
  | @cons a l ha _ ih =>
    obtain ⟨hbase, hl⟩ := List.forall_mem_cons.mp hl
    obtain ⟨hfirst, hf⟩ := List.forall_mem_cons.mp hf
    have hrest := ih hl hf
    rw [List.flatMap_cons]
    refine ⟨?_, ?_⟩
    · rw [locations_append]
      exact List.forall_mem_append.mpr ⟨(hfirst.mono hbase).under, hrest.under⟩
    · rw [locations_append, List.nodup_append]
      refine ⟨hfirst.nodup, hrest.nodup, ?_⟩
      rintro location hlocation _ hlocation' rfl
      obtain ⟨v, hv, hv'⟩ := List.mem_filterMap.mp hlocation'
      obtain ⟨b, hb, hvb⟩ := List.mem_flatMap.mp hv
      exact ha b hb location (hfirst.under location hlocation)
        ((hf b hb).under location (List.mem_filterMap.mpr ⟨v, hvb, hv'⟩))

end StaysUnder

end Visit

open Visit (StaysUnder locations)

/-! ### Documents and objects of a graph -/

/-- The templates are well declared, beside collections of the given names. -/
def Composite.Declared (names : List String) (d : Composite) : Prop :=
  Template.AllDeclared names d.templates

namespace Composite

variable {names : List String} {d : Composite} {name : String} {k : Kind} {v : FieldValue}

/-- The fields of a document or an object have proper names and well declared kinds. -/
theorem Declared.of_field? (hd : d.Declared names) (h : d.field? name = some (k, v)) :
    isName name ∧ k.Declared names := by
  obtain ⟨t, ht, h⟩ := Option.bind_eq_some_iff.mp h
  obtain ⟨f, hf, h⟩ := Option.bind_eq_some_iff.mp h
  obtain ⟨fv, -, h⟩ := Option.bind_eq_some_iff.mp h
  cases h
  have hfields := (Template.allDeclared_iff.mp hd t (List.mem_of_find?_eq_some ht)).2
  have hdeclared := Graph.Field.allDeclared_iff.mp hfields f (List.mem_of_find?_eq_some hf)
  rw [← eq_of_find?_name hf]
  exact ⟨hdeclared.1.name, hdeclared.2⟩

/-- A document of a compiled graph. -/
theorem declared_ofRecord {G : Graph} (hG : G.IsCompiled) {c : Graph.Collection}
    (hc : c ∈ G.collections) (r : Record) :
    (ofRecord c r).Declared (G.collections.map (·.name)) :=
  (hG.declared.2 c hc).templates

end Composite

/-- The document that a reference leads to is one of the graph. -/
theorem Snapshot.declared_of_target? {x : Snapshot} {s : Store} (hG : x.graph.IsCompiled)
    {allowed : List String} {t : Target} {d : Composite} (h : x.target? s allowed t = some d) :
    d.Declared (x.graph.collections.map (·.name)) := by
  obtain ⟨c, hc, h⟩ := Option.bind_eq_some_iff.mp h
  obtain ⟨r, -, rfl⟩ := Option.map_eq_some_iff.mp h
  obtain ⟨n, -, hn⟩ := Option.bind_eq_some_iff.mp hc
  exact Composite.declared_ofRecord hG (List.mem_of_find?_eq_some hn) r

namespace Graph.Kind

variable {names : List String}

/-- The values in a list have well declared kinds, and places that are apart. -/
theorem leaves_spread (k : Kind) (v : FieldValue) (here : String) :
    (∀ l ∈ k.leaves v here, Under here l.2.2) ∧
      (k.leaves v here).Pairwise (fun l m => Apart l.2.2 m.2.2) ∧
      (k.Declared names → ∀ l ∈ k.leaves v here, l.1.Declared names) := by
  induction k, v using Kind.walk_induction generalizing here with
  | list items vs ih =>
    rw [Kind.leaves]
    have hitem (p : FieldValue × Nat) := ih p.1 (here ++ "[" ++ toString p.2 ++ "]")
    refine ⟨fun l hl => ?_, ?_, fun hk l hl => ?_⟩
    · obtain ⟨p, -, hl⟩ := List.mem_flatMap.mp hl
      exact (Location.under_item here p.2).trans ((hitem p).1 l hl)
    · refine List.pairwise_flatMap.mpr ⟨fun p _ => (hitem p).2.1, ?_⟩
      -- different items have different numbers
      have hnumbers : vs.zipIdx.Pairwise fun p q => p.2 < q.2 := by
        rw [← List.pairwise_map (f := Prod.snd) (R := (· < ·)), List.zipIdx_map_snd]
        exact List.pairwise_lt_range'
      refine hnumbers.imp fun {p q} hlt l hl m hm location hunder hunder' => ?_
      have heq := Location.index_eq_of_under (((hitem p).1 l hl).trans hunder)
        (((hitem q).1 m hm).trans hunder')
      omega
    · obtain ⟨p, -, hl⟩ := List.mem_flatMap.mp hl
      exact (hitem p).2.2 hk l hl
  | leaf k v hleaf =>
    rw [Kind.leaves]
    · refine ⟨?_, List.pairwise_singleton _ _, fun hk => ?_⟩
      · simp [Under.refl]
      · simpa using hk
    · exact hleaf

end Graph.Kind

/-! ### Ways through selections -/

namespace Selection

variable {x : Snapshot} {s : Store}

/-- The references in a value have places below it, if those in a document or an object have places
below its members. -/
theorem staysUnder_tourLeaf (hG : x.graph.IsCompiled) {inner : Selection}
    (hinner : ∀ (d : Composite) (here : String), d.Declared (x.graph.collections.map (·.name)) →
      (locations (inner.tour x s d here)).Nodup ∧ ∀ location ∈ locations (inner.tour x s d here),
        ∃ name, isName name ∧ Under (memberLocation here name) location)
    {l : Kind × FieldValue × String} (hl : l.1.Declared (x.graph.collections.map (·.name)))
    (hplace : l.2.2 ≠ "") : StaysUnder l.2.2 (inner.tourLeaf x s l) := by
  obtain ⟨k, v, here⟩ := l
  have hbelow {d : Composite} (hd : d.Declared (x.graph.collections.map (·.name))) :
      StaysUnder here (inner.tour x s d here) ∧ here ∉ locations (inner.tour x s d here) := by
    obtain ⟨hnodup, hunder⟩ := hinner d here hd
    refine ⟨⟨fun location hlocation => ?_, hnodup⟩, fun hmem => ?_⟩
    · obtain ⟨name, -, hname⟩ := hunder location hlocation
      exact (Location.under_member hplace name).trans hname
    · obtain ⟨name, hname, h⟩ := hunder here hmem
      exact Location.ne_of_under_member hname h rfl
  unfold tourLeaf
  split
  · next templates template fields here' heq =>
    cases heq
    exact (hbelow (d := .ofObject templates template fields) hl.2).1
  · next allowed t here' heq =>
    cases heq
    split
    · exact .nil
    · -- the reference is at the place, and what its document has lies below
      have hrest : StaysUnder here ((x.target? s allowed t).elim [] fun d => inner.tour x s d here) ∧
          here ∉ locations ((x.target? s allowed t).elim [] fun d => inner.tour x s d here) := by
        cases htarget : x.target? s allowed t with
        | none => exact ⟨.nil, List.not_mem_nil⟩
        | some d => exact hbelow (Snapshot.declared_of_target? hG htarget)
      exact ⟨List.forall_mem_cons.mpr ⟨.refl here, hrest.1.under⟩,
        List.nodup_cons.mpr ⟨hrest.2, hrest.1.nodup⟩⟩
  · exact .nil

mutual

/-- **No two references that a projection meets have one place**, and each lies below a member of what
is projected. -/
theorem nodup_tour (hG : x.graph.IsCompiled) : ∀ sel : Selection, sel.Distinct →
    ∀ (d : Composite) (here : String), d.Declared (x.graph.collections.map (·.name)) →
      (locations (sel.tour x s d here)).Nodup ∧ ∀ location ∈ locations (sel.tour x s d here),
        ∃ name, isName name ∧ Under (memberLocation here name) location
  | .mk fields, hdistinct, d, here, hd => by
    rw [tour]
    obtain ⟨hnodup, hunder⟩ := nodup_tourFields hG fields hdistinct.nodup hdistinct.inner d here hd
    refine ⟨hnodup, fun location hlocation => ?_⟩
    obtain ⟨name, -, hname, h⟩ := hunder location hlocation
    exact ⟨name, hname, h⟩

theorem nodup_tourFields (hG : x.graph.IsCompiled) : ∀ fields : List (String × Selection),
    (fields.map (·.1)).Nodup → (∀ f ∈ fields, f.2.Distinct) → ∀ (d : Composite) (here : String),
      d.Declared (x.graph.collections.map (·.name)) →
        (locations (tourFields x s d here fields)).Nodup ∧
          ∀ location ∈ locations (tourFields x s d here fields),
            ∃ name ∈ fields.map (·.1), isName name ∧ Under (memberLocation here name) location
  | [], _, _, d, here, _ => by
    rw [tourFields]
    exact ⟨List.nodup_nil, nofun⟩
  | (name, inner) :: rest, hnodup, hdistinct, d, here, hd => by
    obtain ⟨hnew, hnodup⟩ := List.nodup_cons.mp hnodup
    obtain ⟨hinner, hdistinct⟩ := List.forall_mem_cons.mp hdistinct
    obtain ⟨hrest, hunder⟩ := nodup_tourFields hG rest hnodup hdistinct d here hd
    have hfield : locations ((d.leaves here name).flatMap (inner.tourLeaf x s)) = [] ∨ isName name ∧
        StaysUnder (memberLocation here name) ((d.leaves here name).flatMap (inner.tourLeaf x s)) := by
      unfold Composite.leaves
      split
      · next k v _ hfield =>
        obtain ⟨hname, hk⟩ := hd.of_field? hfield
        obtain ⟨hplaces, hapart, hkinds⟩ := k.leaves_spread v (memberLocation here name)
        refine Or.inr ⟨hname, .flatMap hplaces hapart fun l hl => ?_⟩
        exact staysUnder_tourLeaf hG (nodup_tour hG inner hinner) (hkinds hk l hl)
          ((hplaces l hl).ne_empty (Location.memberLocation_ne_empty hname))
      · exact Or.inl rfl
    rw [tourFields_cons, Visit.locations_append]
    rcases hfield with hnone | ⟨hname, hstays⟩
    · rw [hnone, List.nil_append]
      refine ⟨hrest, fun location hlocation => ?_⟩
      obtain ⟨m, hm, h⟩ := hunder location hlocation
      exact ⟨m, List.mem_cons_of_mem _ hm, h⟩
    · refine ⟨List.nodup_append.mpr ⟨hstays.nodup, hrest, ?_⟩, ?_⟩
      · -- the names differ, so the places do
        rintro location hlocation _ hlocation' rfl
        obtain ⟨m, hm, hmname, h⟩ := hunder location hlocation'
        have heq := Location.name_eq_of_under hname hmname (hstays.under location hlocation) h
        exact hnew (heq ▸ hm)
      · refine List.forall_mem_append.mpr ⟨fun location hlocation => ?_, fun location hlocation => ?_⟩
        · exact ⟨name, List.mem_cons_self .., hname, hstays.under location hlocation⟩
        · obtain ⟨m, hm, h⟩ := hunder location hlocation
          exact ⟨m, List.mem_cons_of_mem _ hm, h⟩

end

end Selection

end ContentIndex
