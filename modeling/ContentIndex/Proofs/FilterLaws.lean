import ContentIndex.Proofs.Filters

/-!
# The laws of filters

On the records of a collection the filters that fit it obey laws: a comparison is the opposite of
another one or made of others, of the three strict comparisons with a value exactly one holds for a
field that is there and none for one that is missing, and the filters that are made of others are
their conjunction, disjunction and negation. Filters that are equal by these laws may take each
other's place inside any filter.

## Main definitions

* `Filter.Lawful`: the laws, for a choice of filters
* `Filter.Equal`: filters that are equal by the laws
* `Filter.Context`: a filter with a place for another one, at any depth

## Main results

* `Filter.lawful_selects`: **the filters that select a record obey the laws**
* `Filter.Equal.iff_of_lawful`: equal filters are chosen together by all choices that obey the laws
* `Graph.Collection.filters_lawful`: **records obey the laws, and equal filters are exchangeable**
-/

namespace ContentIndex

open Json (Value)

/-- Of the strict comparisons one holds. -/
theorem Comparison.existsUnique_strict (order : Ordering) :
    ∃! comparison, comparison ∈ [Comparison.lt, .eq, .gt] ∧ comparison.holds order := by
  have hunique (b : Comparison) (h : b ∈ [Comparison.lt, .eq, .gt] ∧ b.holds order) :
      ∀ a, a ∈ [Comparison.lt, .eq, .gt] ∧ a.holds order → a = b := by
    intro a
    cases order <;> cases b <;> cases a <;> revert h <;> decide
  cases order with
  | lt => exact ⟨.lt, by decide, hunique .lt (by decide)⟩
  | eq => exact ⟨.eq, by decide, hunique .eq (by decide)⟩
  | gt => exact ⟨.gt, by decide, hunique .gt (by decide)⟩

namespace Filter

variable {c : Graph.Collection} {r : Record} {f g : Filter} {fs : List Filter} {name : String}
  {v : Value}

/-! ### Filters made of others -/

theorem checkAll_eq_ok_iff {ps : List Predicate} :
    checkAll c fs = .ok ps ↔ List.Forall₂ (fun f p => f.check c = .ok p) fs ps := by
  induction fs generalizing ps with
  | nil =>
    rw [checkAll, List.forall₂_nil_left_iff, Except.ok.injEq, eq_comm]
  | cons f fs ih =>
    rw [checkAll]
    constructor
    · intro h
      obtain ⟨p, hp, h⟩ := exists_of_bind_eq_ok h
      obtain ⟨ps', hps, h⟩ := exists_of_bind_eq_ok h
      cases h
      exact .cons hp (ih.mp hps)
    · rintro (_ | ⟨hp, hps⟩)
      rw [hp, ih.mpr hps]
      rfl

/-- Filters pass the check together if each of them passes it. -/
theorem exists_checkAll_iff : (∃ ps, checkAll c fs = .ok ps) ↔ ∀ f ∈ fs, f.Fits c := by
  simp only [checkAll_eq_ok_iff]
  induction fs with
  | nil => exact iff_of_true ⟨[], .nil⟩ nofun
  | cons f fs ih =>
    rw [List.forall_mem_cons, ← ih]
    constructor
    · rintro ⟨_, _ | ⟨hp, hps⟩⟩
      exact ⟨⟨_, hp⟩, _, hps⟩
    · rintro ⟨⟨p, hp⟩, ps, hps⟩
      exact ⟨p :: ps, .cons hp hps⟩

theorem fits_all_iff : (all fs).Fits c ↔ ∀ f ∈ fs, f.Fits c := by
  rw [← exists_checkAll_iff]
  constructor
  · rintro ⟨p, hp⟩
    rw [check] at hp
    obtain ⟨ps, hps, -⟩ := exists_of_bind_eq_ok hp
    exact ⟨ps, hps⟩
  · rintro ⟨ps, hps⟩
    refine ⟨.all ps, ?_⟩
    rw [check, hps]
    rfl

theorem fits_any_iff : (any fs).Fits c ↔ ∀ f ∈ fs, f.Fits c := by
  rw [← exists_checkAll_iff]
  constructor
  · rintro ⟨p, hp⟩
    rw [check] at hp
    obtain ⟨ps, hps, -⟩ := exists_of_bind_eq_ok hp
    exact ⟨ps, hps⟩
  · rintro ⟨ps, hps⟩
    refine ⟨.any ps, ?_⟩
    rw [check, hps]
    rfl

theorem fits_not_iff : (not f).Fits c ↔ f.Fits c := by
  constructor
  · rintro ⟨p, hp⟩
    rw [check] at hp
    obtain ⟨p, hp, -⟩ := exists_of_bind_eq_ok hp
    exact ⟨p, hp⟩
  · rintro ⟨p, hp⟩
    refine ⟨.not p, ?_⟩
    rw [check, hp]
    rfl

/-- The predicates of filters hold for what the filters select. -/
theorem holds_of_checkAll {ps : List Predicate} (h : checkAll c fs = .ok ps) :
    (Predicate.allHold r ps ↔ ∀ f ∈ fs, f.Selects c r) ∧
      (Predicate.someHolds r ps ↔ ∃ f ∈ fs, f.Selects c r) := by
  rw [checkAll_eq_ok_iff] at h
  induction h with
  | nil => simp [Predicate.allHold, Predicate.someHolds]
  | cons hp _ ih =>
    obtain ⟨hall, hsome⟩ := ih
    rw [Predicate.allHold, Predicate.someHolds, Bool.and_eq_true, Bool.or_eq_true, hall, hsome,
      List.forall_mem_cons, List.exists_mem_cons_iff, selects_iff_of_check hp]
    exact ⟨Iff.rfl, Iff.rfl⟩

/-- What fits together selects what all of it selects. -/
theorem selects_all_iff (h : (all fs).Fits c) :
    (all fs).Selects c r ↔ ∀ f ∈ fs, f.Selects c r := by
  obtain ⟨ps, hps⟩ := exists_checkAll_iff.mpr (fits_all_iff.mp h)
  have hcheck : (all fs).check c = .ok (.all ps) := by
    rw [check, hps]
    rfl
  rw [selects_iff_of_check hcheck, Predicate.holds, (holds_of_checkAll hps).1]

/-- What fits together selects what some of it selects. -/
theorem selects_any_iff (h : (any fs).Fits c) :
    (any fs).Selects c r ↔ ∃ f ∈ fs, f.Selects c r := by
  obtain ⟨ps, hps⟩ := exists_checkAll_iff.mpr (fits_any_iff.mp h)
  have hcheck : (any fs).check c = .ok (.any ps) := by
    rw [check, hps]
    rfl
  rw [selects_iff_of_check hcheck, Predicate.holds, (holds_of_checkAll hps).2]

theorem selects_not_iff (h : f.Fits c) : (not f).Selects c r ↔ ¬ f.Selects c r := by
  obtain ⟨p, hp⟩ := h
  have hcheck : (not f).check c = .ok (.not p) := by
    rw [check, hp]
    rfl
  rw [selects_iff_of_check hcheck, selects_iff_of_check hp, Predicate.holds]
  simp

/-! ### The laws -/

/-- The filter holds only if the document has the field. -/
inductive Needs (name : String) : Filter → Prop
  | compare {comparison : Comparison} (h : comparison ≠ .ne) (v : Value) :
      Needs name (.compare comparison name v)
  | oneOf (vs : List Value) : Needs name (.oneOf name vs)
  | startsWith (start : String) : Needs name (.startsWith name start)

/-- The laws of filters that fit a collection, for the filters that are chosen. -/
structure Lawful (c : Graph.Collection) (S : Filter → Prop) : Prop where
  /-- What is different is not equal. -/
  ne : ∀ name v, (compare .ne name v).Fits c →
    (S (compare .ne name v) ↔ ¬ S (compare .eq name v))
  /-- What is one of several values is equal to one of them. -/
  oneOf : ∀ name vs, (oneOf name vs).Fits c →
    (S (oneOf name vs) ↔ ∃ v ∈ vs, S (compare .eq name v))
  /-- What is not less is greater or equal. -/
  gte : ∀ name v, (compare .gte name v).Fits c →
    (S (compare .gte name v) ↔ S (compare .gt name v) ∨ S (compare .eq name v))
  /-- What is not greater is less or equal. -/
  lte : ∀ name v, (compare .lte name v).Fits c →
    (S (compare .lte name v) ↔ S (compare .lt name v) ∨ S (compare .eq name v))
  /-- What is there is less than any value, or equal to it, or greater, and only one of that. -/
  one : ∀ name v, (compare .eq name v).Fits c → S (present name) →
    ∃! comparison, comparison ∈ [Comparison.lt, .eq, .gt] ∧ S (compare comparison name v)
  /-- What is missing meets no condition that needs it. -/
  missing : ∀ name f, Needs name f → f.Fits c → ¬ S (present name) → ¬ S f
  /-- All of several filters. -/
  all : ∀ fs, (all fs).Fits c → (S (all fs) ↔ ∀ f ∈ fs, S f)
  /-- Some of several filters. -/
  any : ∀ fs, (any fs).Fits c → (S (any fs) ↔ ∃ f ∈ fs, S f)
  /-- The opposite of a filter. -/
  not : ∀ f, (not f).Fits c → (S (not f) ↔ ¬ S f)

/-! ### Conditions on one field -/

section Fields

variable {subject : Subject} {t : OperandType} {vs : List Value}

theorem selects_present_iff (h : Subject.named c name = .ok (subject, t)) :
    (present name).Selects c r ↔ (subject.of? r).isSome := by
  have hcheck : (present name).check c = .ok (.present subject) := by
    rw [check, h]
    rfl
  rw [selects_iff_of_check hcheck, Predicate.holds]

/-- A list of values fits if each of them does. -/
theorem exists_of_fits_oneOf (h : (oneOf name vs).Fits c) : ∃ subject t os,
    Subject.named c name = .ok (subject, t) ∧
      List.Forall₂ (fun v o => Operand.ofValue? t v = some o) vs os ∧
      (oneOf name vs).check c = .ok (.oneOf subject os) := by
  obtain ⟨p, hp⟩ := h
  have hcheck := hp
  rw [check] at hp
  obtain ⟨⟨subject, t⟩, hnamed, hp⟩ := exists_of_bind_eq_ok hp
  obtain ⟨os, hos, hp⟩ := exists_of_bind_eq_ok hp
  cases hp
  refine ⟨subject, t, os, hnamed, ?_, hcheck⟩
  exact forall_of_mapM_eq_ok (f := Operand.check name t)
    (fun v _ o ho => Operand.check_eq_ok_iff.mp ho) hos

/-- What is one of several values is equal to one of them. -/
theorem selects_oneOf_iff (h : (oneOf name vs).Fits c) :
    (oneOf name vs).Selects c r ↔ ∃ v ∈ vs, (compare .eq name v).Selects c r := by
  obtain ⟨subject, t, os, hnamed, hos, hcheck⟩ := exists_of_fits_oneOf h
  rw [selects_iff_of_check hcheck, Predicate.holds]
  clear h hcheck
  induction hos with
  | nil => simp
  | @cons v o vs os ho _ ih =>
    rw [List.exists_mem_cons_iff, selects_compare_iff hnamed ho, ← ih]
    cases subject.of? r with
    | none => simp
    | some a =>
      cases hcompare : a.compare? o <;> simp [hcompare, Comparison.holds]

/-- A document that meets a condition on a field has the field. -/
theorem Needs.selects_present (h : Needs name f) (hf : f.Selects c r) :
    (present name).Selects c r := by
  have hcompare {comparison : Comparison} {v : Value} (hne : comparison ≠ .ne)
      (hselects : (Filter.compare comparison name v).Selects c r) : (present name).Selects c r := by
    obtain ⟨p, hp, -⟩ := id hselects
    obtain ⟨subject, t, o, hnamed, ho⟩ := fits_compare_iff.mp ⟨p, hp⟩
    rw [selects_present_iff hnamed]
    cases hsubject : subject.of? r with
    | none => exact absurd ((selects_compare_of_none hnamed ho hsubject).mp hselects) hne
    | some a => rfl
  cases h with
  | compare hne v => exact hcompare hne hf
  | oneOf vs =>
    obtain ⟨p, hp, -⟩ := id hf
    obtain ⟨v, -, hv⟩ := (selects_oneOf_iff ⟨p, hp⟩).mp hf
    exact hcompare (by decide) hv
  | startsWith start =>
    obtain ⟨p, hp, hholds⟩ := hf
    rw [check] at hp
    obtain ⟨⟨subject, t⟩, hnamed, hp⟩ := exists_of_bind_eq_ok hp
    rw [selects_present_iff hnamed]
    dsimp only at hp
    split at hp
    · cases hp
      rw [Predicate.holds] at hholds
      cases hsubject : subject.of? r with
      | none =>
        rw [hsubject] at hholds
        cases hholds
      | some a => rfl
    · cases hp

/-- Compared with a value that fits, a field is missing, or it has an order to the value. -/
theorem selects_compare_cases {G : Graph} (hG : G.IsCompiled) (hc : c ∈ G.collections)
    (hr : r.Conforms G c) (h : (compare .eq name v).Fits c) :
    (¬ (present name).Selects c r ∧
      ∀ comparison, (compare comparison name v).Selects c r ↔ comparison = .ne) ∨
    (present name).Selects c r ∧ ∃ order,
      ∀ comparison, (compare comparison name v).Selects c r ↔ comparison.holds order := by
  obtain ⟨subject, t, o, hnamed, ho⟩ := fits_compare_iff.mp h
  rw [selects_present_iff hnamed]
  cases hsubject : subject.of? r with
  | none => exact .inl ⟨by simp, fun _ => selects_compare_of_none hnamed ho hsubject⟩
  | some a =>
    have htype := hr.hasType hG hc hnamed hsubject
    obtain ⟨order, horder⟩ := htype.exists_compare?_eq (Operand.hasType_of_ofValue? ho)
    exact .inr ⟨rfl, order, fun _ => selects_compare_of_some hnamed ho hsubject horder⟩

end Fields

theorem fits_compare_of_fits {a b : Comparison} (h : (compare a name v).Fits c) :
    (compare b name v).Fits c :=
  fits_compare_iff.mpr (fits_compare_iff.mp h)

/-- **The filters that select a record obey the laws.** -/
theorem lawful_selects {G : Graph} (hG : G.IsCompiled) (hc : c ∈ G.collections)
    (hr : r.Conforms G c) : Lawful c (·.Selects c r) where
  ne name v h := by
    obtain ⟨-, hall⟩ | ⟨-, order, hall⟩ :=
      selects_compare_cases hG hc hr (fits_compare_of_fits (b := .eq) h)
    · simp [hall]
    · rw [hall, hall]
      cases order <;> decide
  oneOf name vs h := selects_oneOf_iff h
  gte name v h := by
    obtain ⟨-, hall⟩ | ⟨-, order, hall⟩ :=
      selects_compare_cases hG hc hr (fits_compare_of_fits (b := .eq) h)
    · simp [hall]
    · rw [hall, hall, hall]
      cases order <;> decide
  lte name v h := by
    obtain ⟨-, hall⟩ | ⟨-, order, hall⟩ :=
      selects_compare_cases hG hc hr (fits_compare_of_fits (b := .eq) h)
    · simp [hall]
    · rw [hall, hall, hall]
      cases order <;> decide
  one name v h hpresent := by
    obtain ⟨hmissing, -⟩ | ⟨-, order, hall⟩ := selects_compare_cases hG hc hr h
    · exact absurd hpresent hmissing
    · simpa only [hall] using Comparison.existsUnique_strict order
  missing name f hneeds _ hmissing hf := hmissing (hneeds.selects_present hf)
  all fs h := selects_all_iff h
  any fs h := selects_any_iff h
  not f h := selects_not_iff (fits_not_iff.mp h)

/-! ### Truth tables -/

mutual

/-- The truth value of a filter, by those of its conditions on single fields. -/
def eval (leaf : Filter → Bool) : Filter → Bool
  | .compare comparison name v => leaf (.compare comparison name v)
  | .oneOf name vs => leaf (.oneOf name vs)
  | .startsWith name start => leaf (.startsWith name start)
  | .present name => leaf (.present name)
  | .all fs => evalAll leaf fs
  | .any fs => evalAny leaf fs
  | .not f => !f.eval leaf

/-- All filters are true. -/
def evalAll (leaf : Filter → Bool) : List Filter → Bool
  | [] => true
  | f :: fs => f.eval leaf && evalAll leaf fs

/-- Some filter is true. -/
def evalAny (leaf : Filter → Bool) : List Filter → Bool
  | [] => false
  | f :: fs => f.eval leaf || evalAny leaf fs

end

variable {S : Filter → Prop} {leaf : Filter → Bool}

mutual

/-- A choice of filters that obeys the laws follows the truth tables. -/
theorem Lawful.eval_iff (hS : Lawful c S) (hleaf : ∀ f, leaf f ↔ S f) (f : Filter) (h : f.Fits c) :
    f.eval leaf ↔ S f := by
  match f with
  | .compare .. | .oneOf .. | .startsWith .. | .present _ => exact hleaf _
  | .all fs =>
    rw [hS.all fs h]
    exact (Lawful.evalAll_iff hS hleaf fs (fits_all_iff.mp h)).1
  | .any fs =>
    rw [hS.any fs h]
    exact (Lawful.evalAll_iff hS hleaf fs (fits_any_iff.mp h)).2
  | .not f =>
    rw [hS.not f h, ← Lawful.eval_iff hS hleaf f (fits_not_iff.mp h), eval]
    simp

theorem Lawful.evalAll_iff (hS : Lawful c S) (hleaf : ∀ f, leaf f ↔ S f) (fs : List Filter)
    (h : ∀ f ∈ fs, f.Fits c) :
    (evalAll leaf fs ↔ ∀ f ∈ fs, S f) ∧ (evalAny leaf fs ↔ ∃ f ∈ fs, S f) := by
  match fs with
  | [] => simp [evalAll, evalAny]
  | f :: fs =>
    obtain ⟨hf, hfs⟩ := List.forall_mem_cons.mp h
    obtain ⟨hall, hany⟩ := Lawful.evalAll_iff hS hleaf fs hfs
    rw [evalAll, evalAny, Bool.and_eq_true, Bool.or_eq_true, Lawful.eval_iff hS hleaf f hf, hall,
      hany, List.forall_mem_cons, List.exists_mem_cons_iff]
    exact ⟨Iff.rfl, Iff.rfl⟩

end

/-! ### Places in filters -/

/-- A filter with a place for another one, at any depth. -/
inductive Context
  | hole
  | all (before : List Filter) (inner : Context) (after : List Filter)
  | any (before : List Filter) (inner : Context) (after : List Filter)
  | not (inner : Context)

namespace Context

/-- The filter with another one in the place. -/
def fill (f : Filter) : Context → Filter
  | .hole => f
  | .all before inner after => .all (before ++ inner.fill f :: after)
  | .any before inner after => .any (before ++ inner.fill f :: after)
  | .not inner => .not (inner.fill f)

/-- Whatever is in a place of a filter that fits does fit. -/
theorem fits_of_fill {C : Context} (h : (C.fill f).Fits c) : f.Fits c := by
  induction C with
  | hole => exact h
  | all before inner after ih => exact ih (fits_all_iff.mp h _ (by simp))
  | any before inner after ih => exact ih (fits_any_iff.mp h _ (by simp))
  | not inner ih => exact ih (fits_not_iff.mp h)

/-- In place of a filter any other one that fits may be put. -/
theorem fits_fill {C : Context} (h : (C.fill f).Fits c) (hg : g.Fits c) : (C.fill g).Fits c := by
  induction C with
  | hole => exact hg
  | all before inner after ih =>
    rw [fill, fits_all_iff, List.forall_mem_append, List.forall_mem_cons] at h ⊢
    exact ⟨h.1, ih h.2.1, h.2.2⟩
  | any before inner after ih =>
    rw [fill, fits_any_iff, List.forall_mem_append, List.forall_mem_cons] at h ⊢
    exact ⟨h.1, ih h.2.1, h.2.2⟩
  | not inner ih =>
    rw [fill, fits_not_iff] at h ⊢
    exact ih h

/-- If two filters are chosen together, then so are the filters that they are put into. -/
theorem fill_iff {C : Context} (hS : Lawful c S) (h : (C.fill f).Fits c) (hg : g.Fits c)
    (hfg : S f ↔ S g) : S (C.fill f) ↔ S (C.fill g) := by
  have hfits := fits_fill h hg
  induction C with
  | hole => exact hfg
  | all before inner after ih =>
    rw [fill] at h hfits
    have hinner := ih (fits_all_iff.mp h _ (by simp)) (fits_all_iff.mp hfits _ (by simp))
    rw [fill, fill, hS.all _ h, hS.all _ hfits]
    simp only [List.forall_mem_append, List.forall_mem_cons, hinner]
  | any before inner after ih =>
    rw [fill] at h hfits
    have hinner := ih (fits_any_iff.mp h _ (by simp)) (fits_any_iff.mp hfits _ (by simp))
    rw [fill, fill, hS.any _ h, hS.any _ hfits]
    simp only [List.mem_append, List.mem_cons, or_and_right, exists_or, exists_eq_left, hinner]
  | not inner ih =>
    rw [fill] at h hfits
    rw [fill, fill, hS.not _ h, hS.not _ hfits]
    exact not_congr (ih (fits_not_iff.mp h) (fits_not_iff.mp hfits))

end Context

/-! ### Equal filters -/

/-- The filters are equal by the laws: by one of them, by a truth table, in some place of a filter,
or in steps from one filter that fits to another. -/
inductive Equal (c : Graph.Collection) : Filter → Filter → Prop
  | refl (f : Filter) : Equal c f f
  | symm {f g : Filter} (h : Equal c f g) : Equal c g f
  | trans {f g k : Filter} (h : Equal c f g) (fits : g.Fits c) (h' : Equal c g k) : Equal c f k
  | within {f g : Filter} (C : Context) (h : Equal c f g) : Equal c (C.fill f) (C.fill g)
  | table {f g : Filter} (h : ∀ leaf, f.eval leaf = g.eval leaf) : Equal c f g
  | ne (name : String) (v : Value) :
      Equal c (.compare .ne name v) (.not (.compare .eq name v))
  | oneOf (name : String) (vs : List Value) :
      Equal c (.oneOf name vs) (.any (vs.map (.compare .eq name)))
  | gte (name : String) (v : Value) :
      Equal c (.compare .gte name v) (.any [.compare .gt name v, .compare .eq name v])
  | lte (name : String) (v : Value) :
      Equal c (.compare .lte name v) (.any [.compare .lt name v, .compare .eq name v])
  | some (name : String) (v : Value) : Equal c (.present name)
      (.any [.compare .lt name v, .compare .eq name v, .compare .gt name v])
  | apart {a b : Comparison} (name : String) (v : Value) (ha : a ∈ [Comparison.lt, .eq, .gt])
      (hb : b ∈ [Comparison.lt, .eq, .gt]) (h : a ≠ b) :
      Equal c (.all [.compare a name v, .compare b name v]) (.any [])
  | missing {name : String} {f : Filter} (h : Needs name f) :
      Equal c (.all [.not (.present name), f]) (.any [])

/-- **Equal filters are chosen together**, by all choices that obey the laws. -/
theorem Equal.iff_of_lawful (h : Equal c f g) (hS : Lawful c S) (hf : f.Fits c) (hg : g.Fits c) :
    S f ↔ S g := by
  induction h with
  | refl f => exact Iff.rfl
  | symm h ih => exact (ih hg hf).symm
  | trans h fits h' ih ih' => exact (ih hf fits).trans (ih' fits hg)
  | within C h ih =>
    have hg' := Context.fits_of_fill hg
    exact Context.fill_iff hS hf hg' (ih (Context.fits_of_fill hf) hg')
  | table h =>
    classical
    have hleaf (f : Filter) : decide (S f) ↔ S f := decide_eq_true_iff
    rw [← hS.eval_iff hleaf _ hf, ← hS.eval_iff hleaf _ hg, h]
  | ne name v => rw [hS.ne name v hf, hS.not _ hg]
  | oneOf name vs =>
    rw [hS.oneOf name vs hf, hS.any _ hg]
    simp
  | gte name v =>
    rw [hS.gte name v hf, hS.any _ hg]
    simp
  | lte name v =>
    rw [hS.lte name v hf, hS.any _ hg]
    simp
  | some name v =>
    have hfits : (compare .eq name v).Fits c := fits_any_iff.mp hg _ (by simp)
    rw [hS.any _ hg]
    constructor
    · intro hpresent
      obtain ⟨a, ⟨ha, hholds⟩, -⟩ := hS.one name v hfits hpresent
      refine ⟨.compare a name v, ?_, hholds⟩
      revert ha
      cases a <;> simp
    · rintro ⟨k, hk, hholds⟩
      by_contra hmissing
      have hneeds : Needs name k := by
        simp only [List.mem_cons, List.not_mem_nil, or_false] at hk
        rcases hk with rfl | rfl | rfl <;> exact .compare (by decide) v
      exact hS.missing name k hneeds (fits_any_iff.mp hg k hk) hmissing hholds
  | @apart a b name v ha hb h =>
    have hfits := fits_all_iff.mp hf
    rw [hS.all _ hf, hS.any _ hg]
    refine iff_of_false (fun hboth => ?_) (by simp)
    have hholds := hboth (.compare a name v) (by simp)
    have hholds' := hboth (.compare b name v) (by simp)
    by_cases hpresent : S (.present name)
    · have heq : (compare .eq name v).Fits c :=
        fits_compare_of_fits (hfits (.compare a name v) (by simp))
      obtain ⟨_, -, hunique⟩ := hS.one name v heq hpresent
      exact h ((hunique a ⟨ha, hholds⟩).trans (hunique b ⟨hb, hholds'⟩).symm)
    · have hne : a ≠ .ne := by
        rintro rfl
        simp at ha
      exact hS.missing name _ (.compare hne v) (hfits _ (by simp)) hpresent hholds
  | @missing name f h =>
    have hfits := fits_all_iff.mp hf
    rw [hS.all _ hf, hS.any _ hg]
    refine iff_of_false (fun hboth => ?_) (by simp)
    have hnot := hboth (.not (.present name)) (by simp)
    rw [hS.not _ (hfits _ (by simp))] at hnot
    exact hS.missing name f h (hfits f (by simp)) hnot (hboth f (by simp))

end Filter

/-! ### Records -/

namespace Graph

/-- **Filters obey their laws on records, and equal ones are exchangeable.** Whichever template a
record has, the filters that select it obey the laws. In a filter that fits, whatever stands in some
place may be replaced by a filter that fits and is equal by the laws: the filter still fits, and it
selects the same records. -/
theorem Collection.filters_lawful {G : Graph} {c : Collection} {policy : TemplatePolicy}
    {path contentHash : String} {document : Value} {r : Record} {ws : List Warning}
    (hG : G.IsCompiled) (hc : c ∈ G.collections)
    (h : c.record G policy path contentHash document = .ok (r, ws)) :
    Filter.Lawful c (·.Selects c r) ∧
      ∀ (C : Filter.Context) (f g : Filter), Filter.Equal c f g → (C.fill f).Fits c → g.Fits c →
        (C.fill g).Fits c ∧ ((C.fill f).Selects c r ↔ (C.fill g).Selects c r) := by
  have hr := conforms_of_record (hG.declared.2 c hc) h
  have hlawful := Filter.lawful_selects hG hc hr
  refine ⟨hlawful, fun C f g hequal hf hg => ⟨Filter.Context.fits_fill hf hg, ?_⟩⟩
  exact Filter.Context.fill_iff hlawful hf hg
    (hequal.iff_of_lawful hlawful (Filter.Context.fits_of_fill hf) hg)

/-- A post with a link has no body, so its body differs from every text; and where it is asked whether
the body is not greater or equal, it may be asked whether it is neither. -/
theorem Collection.filters_lawful_link : ∃ r ws,
    board.record (ofCollections [board]) .bestFit "posts/b.json" ""
      (.object [("to", .string "posts/a.json")]) = .ok (r, ws) ∧ r.template = "link" ∧
    (Filter.compare .ne "body" (.string "x")).Selects board r ∧
    (Filter.not (.any [.compare .gt "body" (.string "x"),
      .compare .eq "body" (.string "x")])).Selects board r := by
  have h : board.record (ofCollections [board]) .bestFit "posts/b.json" ""
      (.object [("to", .string "posts/a.json")]) =
        .ok (⟨"posts", "posts/b.json", "link", [("to", .reference ⟨some "posts", "posts/a.json"⟩)],
          ""⟩, []) := rfl
  obtain ⟨laws, hreplace⟩ := filters_lawful board_compiled (List.mem_singleton_self board) h
  have hmissing : ¬ (Filter.present "body").Selects board
      ⟨"posts", "posts/b.json", "link", [("to", .reference ⟨some "posts", "posts/a.json"⟩)], ""⟩ := by
    rintro ⟨p, hp, hholds⟩
    cases hp
    cases hholds
  have hfits (a : Comparison) : (Filter.compare a "body" (.string "x")).Fits board := ⟨_, rfl⟩
  have hnone (a : Comparison) (ha : a ≠ .ne) :=
    laws.missing "body" _ (.compare ha (.string "x")) (hfits a) hmissing
  have hpair : (Filter.any [.compare .gt "body" (.string "x"),
      .compare .eq "body" (.string "x")]).Fits board := ⟨_, rfl⟩
  obtain ⟨-, hiff⟩ := hreplace (.not .hole) _ _ (.gte "body" (.string "x"))
    (Filter.fits_not_iff.mpr (hfits .gte)) hpair
  refine ⟨_, _, h, rfl, (laws.ne _ _ (hfits .ne)).mpr (hnone .eq (by decide)), hiff.mp ?_⟩
  exact (laws.not _ (Filter.fits_not_iff.mpr (hfits .gte))).mpr (hnone .gte (by decide))

end Graph

end ContentIndex
