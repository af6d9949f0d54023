import ContentIndex.Proofs.Lookup
import ContentIndex.Query.Filter

/-!
# What filters select

A filter that fits a collection compares each field with values of one type, and so do the records of
the collection: whichever template a record has, the values of a field are of the type that the check
of the filter finds. So two values that are compared always have an order.

## Main definitions

* `Filter.Fits`, `Filter.Selects`: the filters that pass the check, and the records that they select
* `Operand.HasType`: the values of a type
* `Graph.Kind.operandType?`: what the values of a kind are compared as

## Main results

* `Graph.IsCompiled.named_eq`: the names of fields are those of subjects
* `Record.Conforms.hasType`: **the values of records have the type of their subject**
* `Operand.HasType.exists_compare?_eq`: values of one type have an order
-/

namespace ContentIndex

open Json (Value)

namespace Filter

/-- The filter passes the check of the collection. -/
def Fits (c : Graph.Collection) (f : Filter) : Prop := ∃ p, f.check c = .ok p

/-- The filter passes the check of the collection and holds for the record. -/
def Selects (c : Graph.Collection) (f : Filter) (r : Record) : Prop :=
  ∃ p, f.check c = .ok p ∧ p.holds r

end Filter

/-! ### Types -/

/-- The type that the values of a kind are compared as, if they are. -/
def Graph.Kind.operandType? : Graph.Kind → Option OperandType
  | .string | .reference _ => some .text
  | .datetime => some .datetime
  | .number => some .number
  | .boolean => some .boolean
  | .richText | .list _ | .object _ => none

/-- The values of a type. Those of datetimes are texts, and numbers are finite. -/
inductive Operand.HasType : Operand → OperandType → Prop
  | text (s : String) : HasType (.text s) .text
  | datetime (s : String) : HasType (.text s) .datetime
  | number {x : Binary64} (finite : x.isFinite) : HasType (.number x) .number
  | boolean (b : Bool) : HasType (.boolean b) .boolean

theorem Operand.hasType_of_ofValue? {t : OperandType} {v : Value} {o : Operand}
    (h : ofValue? t v = some o) : o.HasType t := by
  unfold ofValue? at h
  split at h
  · cases h
    exact .text _
  · obtain ⟨s, -, rfl⟩ := Option.map_eq_some_iff.mp h
    exact .datetime s
  · cases h
    exact .number (Graph.toFloat_isFinite _)
  · cases h
    exact .boolean _
  · cases h

/-- A finite double is a number. -/
theorem Binary64.not_isNaN {x : Binary64} (h : x.isFinite) : x.isNaN = false := by
  rw [isFinite, decide_eq_true_iff] at h
  exact decide_eq_false (Nat.not_lt_of_lt h)

/-- **Two values of one type have an order.** -/
theorem Operand.HasType.exists_compare?_eq {a b : Operand} {t : OperandType} (ha : a.HasType t)
    (hb : b.HasType t) : ∃ o, a.compare? b = some o := by
  cases ha with
  | text s =>
    cases hb with
    | text s' => exact ⟨_, rfl⟩
  | datetime s =>
    cases hb with
    | datetime s' => exact ⟨_, rfl⟩
  | number hx =>
    cases hb with
    | number hy =>
      rw [compare?, Binary64.compare?, Binary64.not_isNaN hx, Binary64.not_isNaN hy]
      exact ⟨_, rfl⟩
  | boolean b =>
    cases hb with
    | boolean b' => exact ⟨_, rfl⟩

namespace Graph

/-- Kinds of one label are compared as one type. -/
theorem Kind.operandType?_eq_of_label_eq {k l : Kind} (h : k.label = l.label) :
    k.operandType? = l.operandType? := by
  cases k <;> cases l <;> first | rfl | simp [label] at h

/-- A value of a kind that is compared has the type of the kind. -/
theorem Kind.exists_operand?_eq {G : Graph} {k : Kind} {t : OperandType} {v : FieldValue}
    (hk : k.operandType? = some t) (hv : v.Conforms G k) : ∃ o, v.operand? = some o ∧ o.HasType t := by
  cases hv with
  | string s =>
    cases hk
    exact ⟨_, rfl, .text s⟩
  | number finite =>
    cases hk
    exact ⟨_, rfl, .number finite⟩
  | boolean b =>
    cases hk
    exact ⟨_, rfl, .boolean b⟩
  | datetime s =>
    cases hk
    exact ⟨_, rfl, .datetime s⟩
  | @reference target targets points =>
    cases hk
    exact ⟨_, rfl, .text target.path⟩
  | richText => cases hk
  | list => cases hk
  | object => cases hk

/-! ### Subjects -/

variable {G : Graph} {c : Collection} {name : String}

/-- A field of a collection is declared by one of its templates. -/
theorem Collection.exists_template_of_field? {f : Field} (h : c.field? name = some f) :
    ∃ t ∈ c.templates, t.field? name = some f :=
  List.exists_of_findSome?_eq_some h

/-- A field of a collection has no reserved name. -/
theorem IsCompiled.not_reserved_of_field? (hG : G.IsCompiled) (hc : c ∈ G.collections) {f : Field}
    (h : c.field? name = some f) : ¬ Reserved name := by
  obtain ⟨t, ht, hf⟩ := Collection.exists_template_of_field? h
  rw [← eq_of_find?_name hf]
  exact hG.not_reserved c hc t ht f (List.mem_of_find?_eq_some hf)

/-- What stands for a field is not what stands for a system field. -/
theorem IsCompiled.named_eq (hG : G.IsCompiled) (hc : c ∈ G.collections) {f : Field}
    (h : c.field? name = some f) : Subject.named c name =
      match f.kind.operandType? with
      | some t => .ok (.field name, t)
      | none => .error (.invalidFilter (.notComparable name f.kind.label)) := by
  have hfree := hG.not_reserved_of_field? hc h
  have hne {system : String} (hsystem : Reserved system) : name ≠ system := by
    rintro rfl
    exact hfree hsystem
  have hcollection : name ≠ systemCollection := hne rfl
  have hpath : name ≠ systemPath := hne rfl
  have htemplate : name ≠ systemTemplate := hne rfl
  rw [Subject.named, if_neg hcollection, if_neg hpath, if_neg htemplate, h]
  cases hkind : f.kind <;> simp [hkind, Kind.operandType?]

end Graph

/-- **The values of records have the type of their subject**, whichever template a record has. -/
theorem Record.Conforms.hasType {G : Graph} {c : Graph.Collection} {r : Record} {name : String}
    {subject : Subject} {t : OperandType} {a : Operand} (hG : G.IsCompiled) (hc : c ∈ G.collections)
    (hr : r.Conforms G c) (h : Subject.named c name = .ok (subject, t))
    (ha : subject.of? r = some a) : a.HasType t := by
  have hsystem {s : Subject} {text : String} (hs : s.of? r = some (.text text))
      (heq : (.ok (s, .text) : Except QueryError _) = .ok (subject, t)) : a.HasType t := by
    cases heq
    rw [hs] at ha
    cases ha
    exact .text text
  by_cases hcollection : name = Graph.systemCollection
  · rw [Subject.named, if_pos hcollection] at h
    exact hsystem rfl h
  by_cases hpath : name = Graph.systemPath
  · rw [Subject.named, if_neg hcollection, if_pos hpath] at h
    exact hsystem rfl h
  by_cases htemplate : name = Graph.systemTemplate
  · rw [Subject.named, if_neg hcollection, if_neg hpath, if_pos htemplate] at h
    exact hsystem rfl h
  cases hf : c.field? name with
  | none =>
    rw [Subject.named, if_neg hcollection, if_neg hpath, if_neg htemplate, hf] at h
    cases h
  | some f =>
    rw [hG.named_eq hc hf] at h
    split at h
    · next htype =>
      cases h
      obtain ⟨v, hv, ha⟩ := Option.bind_eq_some_iff.mp ha
      obtain ⟨u, hu, g, hg, hconforms⟩ := hr.exists_field ((Entries.find?_eq_some_iff hr.sorted).mp hv)
      obtain ⟨u', hu', hf⟩ := Graph.Collection.exists_template_of_field? hf
      -- the templates may differ, but not in the kind of the field
      have hlabel := (hG.declared.2 c hc).union.label_eq hu' hu hf hg
      rw [Graph.Kind.operandType?_eq_of_label_eq hlabel] at htype
      obtain ⟨o, ho, htyped⟩ := Graph.Kind.exists_operand?_eq htype hconforms
      rw [ho] at ha
      cases ha
      exact htyped
    · cases h

/-! ### Comparisons -/

theorem Operand.check_eq_ok_iff {field : String} {t : OperandType} {v : Value} {o : Operand} :
    check field t v = .ok o ↔ ofValue? t v = some o := by
  unfold check
  split <;> simp [*]

namespace Filter

variable {c : Graph.Collection} {r : Record} {name : String} {subject : Subject} {t : OperandType}
  {v : Value} {o : Operand}

theorem check_compare (h : Subject.named c name = .ok (subject, t))
    (ho : Operand.ofValue? t v = some o) (comparison : Comparison) :
    (compare comparison name v).check c = .ok (.compare comparison subject o) := by
  rw [← Operand.check_eq_ok_iff] at ho
  rw [check, h]
  show (Operand.check name t v >>= _) = _
  rw [ho]
  rfl

/-- A comparison fits if its field is there, and if the value has the type of the field. -/
theorem fits_compare_iff {comparison : Comparison} : (compare comparison name v).Fits c ↔
    ∃ subject t o, Subject.named c name = .ok (subject, t) ∧ Operand.ofValue? t v = some o := by
  constructor
  · rintro ⟨p, hp⟩
    rw [check] at hp
    obtain ⟨⟨subject, t⟩, hnamed, hp⟩ := exists_of_bind_eq_ok hp
    obtain ⟨o, ho, -⟩ := exists_of_bind_eq_ok hp
    exact ⟨subject, t, o, hnamed, Operand.check_eq_ok_iff.mp ho⟩
  · rintro ⟨subject, t, o, hnamed, ho⟩
    exact ⟨_, check_compare hnamed ho comparison⟩

theorem selects_iff_of_check {f : Filter} {p : Predicate} (h : f.check c = .ok p) :
    f.Selects c r ↔ p.holds r := by
  constructor
  · rintro ⟨p', hp', hholds⟩
    cases h.symm.trans hp'
    exact hholds
  · exact fun hholds => ⟨p, h, hholds⟩

section Selects

variable {comparison : Comparison}

theorem selects_compare_iff (h : Subject.named c name = .ok (subject, t))
    (ho : Operand.ofValue? t v = some o) :
    (compare comparison name v).Selects c r ↔ match subject.of? r with
      | none => comparison = .ne
      | some a => (a.compare? o).any comparison.holds := by
  rw [selects_iff_of_check (check_compare h ho comparison), Predicate.holds]
  cases subject.of? r <;> simp

/-- A missing value differs from every value, and does not compare otherwise. -/
theorem selects_compare_of_none (h : Subject.named c name = .ok (subject, t))
    (ho : Operand.ofValue? t v = some o) (hr : subject.of? r = none) :
    (compare comparison name v).Selects c r ↔ comparison = .ne := by
  rw [selects_compare_iff h ho, hr]

theorem selects_compare_of_some (h : Subject.named c name = .ok (subject, t))
    (ho : Operand.ofValue? t v = some o) {a : Operand} (hr : subject.of? r = some a)
    {order : Ordering} (horder : a.compare? o = some order) :
    (compare comparison name v).Selects c r ↔ comparison.holds order := by
  rw [selects_compare_iff h ho, hr]
  show (a.compare? o).any comparison.holds ↔ _
  rw [horder, Option.any_some]

end Selects

end Filter

end ContentIndex
