import ContentIndex.Proofs.Chronology
import ContentIndex.Proofs.ExactDoubles
import ContentIndex.Proofs.InstantReading

/-!
# Filtering by what a query shows

A query shows the fields of a document as JSON values, and a filter is given JSON values to compare
with. What is shown of a text, a number, a truth value, a reference or a datetime stands for an equal
value in a filter, so that a document can be found by what it shows. Only a datetime of a year that is
not written with four digits cannot be given to a filter, for its canonical text is not read.

## Main definitions

* `FieldValue.IsCanonical`: datetimes in canonical form
* `FieldValue.Outlies`: datetimes of years that are not written with four digits

## Main results

* `Graph.Collection.canonical_of_record`: **the datetimes of records are in canonical form**
* `Graph.Collection.selects_shown_iff_not_outlies`: **a document is found by what it shows, unless
  that is a datetime that outlies**
-/

namespace ContentIndex

open Json (Value)

/-- If the value is a datetime, then it is the canonical text of an instant. -/
def FieldValue.IsCanonical (v : FieldValue) : Prop :=
  ∀ s, v = .datetime s → ∃ i : Instant, i.Valid ∧ s = i.write .millis "Z"

/-- The value is a datetime of a year that is not written with four digits. -/
def FieldValue.Outlies (v : FieldValue) : Prop :=
  ∃ i : Instant, (i.year < 0 ∨ 9999 < i.year) ∧ v = .datetime (i.write .millis "Z")

namespace Graph

/-! ### Datetimes of records -/

variable {rules : Rules} {location : String} {members : List (String × Value)}

/-- Whatever becomes a value, its datetime is in canonical form. -/
theorem Kind.yields_canonical (k : Kind) (v : Value) :
    (k.normalize rules location v).Yields FieldValue.IsCanonical := by
  rw [Kind.normalize.eq_def]
  cases k with
  | string => cases v <;> first | exact .refuse | exact .pure (by rintro _ ⟨⟩)
  | boolean => cases v <;> first | exact .refuse | exact .pure (by rintro _ ⟨⟩)
  | richText => exact .pure (by rintro _ ⟨⟩)
  | number =>
    cases v with
    | number n =>
      refine (yields_checkNumber (G := rules.graph) n).mono ?_
      rintro _ ⟨⟩ _ ⟨⟩
    | _ => exact .refuse
  | datetime =>
    cases v with
    | string s =>
      dsimp only
      split
      · next d hd =>
        obtain ⟨i, hi, hwrite⟩ := Option.map_eq_some_iff.mp hd
        refine .pure ?_
        rintro _ ⟨⟩
        exact ⟨i, Instant.valid_of_ofText? hi, hwrite.symm⟩
      · exact .refuse
    | _ => exact .refuse
  | reference targets =>
    cases v with
    | string s =>
      show Checked.Yields (if _ then _ else _) _
      split
      · exact .refuse
      · exact .pure (by rintro _ ⟨⟩)
    | _ => exact .refuse
  | list items =>
    cases v with
    | array vs => exact .bind .any fun _ _ => .pure (by rintro _ ⟨⟩)
    | _ => exact .refuse
  | object templates =>
    cases v with
    | object members =>
      dsimp only
      split
      · exact .refuse
      · exact .bind .any fun _ _ => .pure (by rintro _ ⟨⟩)
    | _ => exact .refuse

theorem Field.yields_canonical (template : String) (fs : List Field) :
    (Field.normalizeAll rules location template members fs).Yields
      fun l => ∀ x ∈ l, x.2.IsCanonical := by
  induction fs with
  | nil => exact .pure nofun
  | cons f fs ih =>
    obtain ⟨name, kind, required, indexed⟩ := f
    rw [Field.normalizeAll]
    split
    · next v _ =>
      refine .bind (kind.yields_canonical v) fun value hvalue => .bind ih fun l hl => .pure ?_
      exact List.forall_mem_cons.mpr ⟨hvalue, hl⟩
    · split
      · exact .refuse
      · exact ih

theorem Template.yields_canonical (name : String) (ts : List Template) :
    (Template.normalizeAs rules location name members ts).Yields
      fun l => ∀ x ∈ l, x.2.IsCanonical := by
  induction ts with
  | nil => exact .pure nofun
  | cons t ts ih =>
    obtain ⟨n, fs⟩ := t
    rw [Template.normalizeAs]
    split
    · refine .bind .any fun _ _ => .bind (Field.yields_canonical name fs) fun l hl => .pure ?_
      exact fun x hx => hl x (Entries.mem_of_mem_ofList hx)
    · exact ih

variable {G : Graph} {c : Collection} {policy : TemplatePolicy} {path contentHash : String}
  {document : Value} {r : Record} {ws : List Warning} {name : String} {v : FieldValue}

/-- **The datetimes of records are in canonical form.** -/
theorem Collection.canonical_of_record
    (h : c.record G policy path contentHash document = .ok (r, ws)) :
    ∀ x ∈ r.fields, x.2.IsCanonical := by
  unfold Collection.record at h
  cases document with
  | object members =>
    obtain ⟨t, ht, h⟩ := exists_of_bind_eq_ok h
    obtain ⟨⟨fields, warnings⟩, hfields, h⟩ := exists_of_bind_eq_ok h
    cases h
    exact Template.yields_canonical _ _ _ _ _ (eq_ok_of_mapError hfields)
  | _ => cases h

end Graph

/-! ### What is shown of a value -/

variable {G : Graph} {k : Graph.Kind} {t : OperandType} {v : FieldValue} {o : Operand}

/-- A text equals itself. -/
theorem Operand.compare?_text_self (s : String) : (text s).compare? (.text s) = some .eq := by
  simp [compare?, compareOfLessAndEq]

/-- Where the year of a datetime lies is seen in its text. -/
theorem FieldValue.outlies_datetime_iff {i : Instant} (hi : i.Valid) :
    (FieldValue.datetime (i.write .millis "Z")).Outlies ↔ i.year < 0 ∨ 9999 < i.year := by
  refine ⟨?_, fun h => ⟨i, h, rfl⟩⟩
  rintro ⟨j, hj, heq⟩
  by_contra hyear
  -- the text of a year of four digits is read, and that of another year is not
  have hread := Instant.canonical?_write hi (by omega)
  rw [FieldValue.datetime.inj heq, Instant.canonical?_write_of_outlying hj] at hread
  cases hread

/-- **What is shown of a value stands for an equal value**, unless the value outlies. -/
theorem FieldValue.exists_ofValue?_toJson (hk : k.operandType? = some t) (hv : v.Conforms G k)
    (hcanonical : v.IsCanonical) (hin : ¬ v.Outlies) : ∃ o o', v.operand? = some o ∧
      Operand.ofValue? t v.toJson = some o' ∧ o.compare? o' = some .eq := by
  cases hv with
  | string s =>
    cases hk
    exact ⟨_, _, rfl, rfl, Operand.compare?_text_self s⟩
  | number finite =>
    cases hk
    obtain ⟨n, hn, hcompare⟩ := exists_numberToJson_eq finite
    refine ⟨_, .number n.toFloat, rfl, ?_, hcompare⟩
    rw [toJson, hn]
    rfl
  | boolean b =>
    cases hk
    refine ⟨_, _, rfl, rfl, ?_⟩
    cases b <;> rfl
  | datetime s =>
    cases hk
    obtain ⟨i, hi, rfl⟩ := hcanonical s rfl
    rw [outlies_datetime_iff hi] at hin
    refine ⟨_, .text (i.write .millis "Z"), rfl, ?_, Operand.compare?_text_self _⟩
    rw [toJson, Operand.ofValue?, Instant.canonical?_write hi (by omega)]
    rfl
  | @reference target targets points =>
    cases hk
    exact ⟨_, _, rfl, rfl, Operand.compare?_text_self target.path⟩
  | richText => cases hk
  | list => cases hk
  | object => cases hk

/-- What is shown of a datetime that outlies stands for nothing. -/
theorem FieldValue.Outlies.ofValue?_toJson (h : v.Outlies) (hv : v.Conforms G k)
    (hk : k.operandType? = some t) : Operand.ofValue? t v.toJson = none := by
  obtain ⟨i, hi, rfl⟩ := h
  have hread : Instant.canonical? (i.write .millis "Z") = none :=
    Instant.canonical?_write_of_outlying hi
  generalize i.write .millis "Z" = s at hread hv ⊢
  cases hv
  cases hk
  rw [toJson, Operand.ofValue?, hread]
  rfl

/-! ### Fields of records -/

namespace Graph

variable {c : Collection} {policy : TemplatePolicy} {path contentHash : String}
  {document : Value} {r : Record} {ws : List Warning} {name : String}

/-- Only values of kinds that are compared have something to compare. -/
theorem Kind.exists_operandType?_eq (hv : v.Conforms G k) (ho : v.operand? = some o) :
    ∃ t, k.operandType? = some t := by
  cases hv with
  | richText => cases ho
  | list => cases ho
  | object => cases ho
  | _ => exact ⟨_, rfl⟩

/-- A value of a record that is compared is found under its name, with the type of its kind. -/
theorem Collection.named_of_mem (hG : G.IsCompiled) (hc : c ∈ G.collections) (hr : r.Conforms G c)
    (hv : (name, v) ∈ r.fields) (ho : v.operand? = some o) : ∃ k t, k.operandType? = some t ∧
      v.Conforms G k ∧ Subject.named c name = .ok (.field name, t) ∧
        (Subject.field name).of? r = some o := by
  obtain ⟨u, hu, f, hf, hvalue⟩ := hr.exists_field hv
  obtain ⟨t, ht⟩ := Kind.exists_operandType?_eq hvalue ho
  obtain ⟨g, hg⟩ : ∃ g, c.field? name = some g := by
    refine Option.isSome_iff_exists.mp (List.findSome?_isSome_iff.mpr ⟨u, hu, ?_⟩)
    rw [hf]
    rfl
  obtain ⟨u', hu', hg'⟩ := Collection.exists_template_of_field? hg
  have hlabel := (hG.declared.2 c hc).union.label_eq hu' hu hg' hf
  refine ⟨f.kind, t, ht, hvalue, ?_, ?_⟩
  · rw [hG.named_eq hc hg, Kind.operandType?_eq_of_label_eq hlabel, ht]
  · rw [Subject.of?, (Entries.find?_eq_some_iff hr.sorted).mpr hv]
    exact ho

/-- **A document is found by what it shows, unless that is a datetime that outlies.** Whatever
value a record has in a field of texts, numbers, truth values, datetimes or references, the filter
for equality with the value that a query shows for it passes the check and selects the record, and
the one for difference passes it and does not. That fails exactly for a datetime of a year that is
not written with four digits: what is shown of it passes in no comparison. -/
theorem Collection.selects_shown_iff_not_outlies (hG : G.IsCompiled) (hc : c ∈ G.collections)
    (h : c.record G policy path contentHash document = .ok (r, ws)) (hv : (name, v) ∈ r.fields)
    (hscalar : v.operand?.isSome) :
    (((Filter.compare .eq name v.toJson).Selects c r ∧
      (Filter.compare .ne name v.toJson).Fits c ∧
      ¬ (Filter.compare .ne name v.toJson).Selects c r) ↔ ¬ v.Outlies) ∧
    (v.Outlies → ∀ comparison, (Filter.compare comparison name v.toJson).check c =
      .error (.invalidFilter (.wrongOperand name v.toJson))) := by
  obtain ⟨o, ho⟩ := Option.isSome_iff_exists.mp hscalar
  have hr := conforms_of_record (hG.declared.2 c hc) h
  obtain ⟨k, t, hk, hvalue, hnamed, hof⟩ := named_of_mem hG hc hr hv ho
  have hrefused (hout : v.Outlies) (comparison : Comparison) :
      (Filter.compare comparison name v.toJson).check c =
        .error (.invalidFilter (.wrongOperand name v.toJson)) := by
    have hcheck : Operand.check name t v.toJson =
        .error (.invalidFilter (.wrongOperand name v.toJson)) := by
      rw [Operand.check, hout.ofValue?_toJson hvalue hk]
    rw [Filter.check, hnamed]
    show (Operand.check name t v.toJson >>= _) = _
    rw [hcheck]
    rfl
  refine ⟨⟨?_, fun hin => ?_⟩, hrefused⟩
  · rintro ⟨⟨p, hp, -⟩, -⟩ hout
    rw [hrefused hout] at hp
    cases hp
  · obtain ⟨o₁, o', ho₁, hread, hequal⟩ :=
      FieldValue.exists_ofValue?_toJson hk hvalue (canonical_of_record h _ hv) hin
    obtain rfl : o = o₁ := Option.some.inj (ho.symm.trans ho₁)
    refine ⟨?_, Filter.fits_compare_iff.mpr ⟨_, t, o', hnamed, hread⟩, ?_⟩
    · exact (Filter.selects_compare_of_some hnamed hread hof hequal).mpr rfl
    · rw [Filter.selects_compare_of_some hnamed hread hof hequal]
      decide

/-- A day of the diary is found by the date that is shown for it. -/
theorem Collection.selects_shown_iff_not_outlies_day : ∃ r v,
    diary.record (ofCollections [diary]) .bestFit "days/a.json" ""
      (.object [("date", .string "2024-01-01T02:00:00+02:00")]) = .ok (r, []) ∧
    ("date", v) ∈ r.fields ∧ v.toJson = .string "2024-01-01T00:00:00.000Z" ∧
    (Filter.compare .eq "date" v.toJson).Selects diary r := by
  have h : diary.record (ofCollections [diary]) .bestFit "days/a.json" ""
      (.object [("date", .string "2024-01-01T02:00:00+02:00")]) =
        .ok (diaryRecord "days/a.json" "2024-01-01T00:00:00.000Z", []) := by
    rfl
  have hin : ¬ (FieldValue.datetime "2024-01-01T00:00:00.000Z").Outlies := by
    have hvalid : Instant.Valid ⟨739191, 0, 0⟩ := ⟨by decide, by decide, by decide⟩
    have htext : Instant.write ⟨739191, 0, 0⟩ .millis "Z" = "2024-01-01T00:00:00.000Z" := by
      rfl
    rw [← htext, FieldValue.outlies_datetime_iff hvalid]
    decide
  obtain ⟨hiff, -⟩ := selects_shown_iff_not_outlies diary_compiled (List.mem_singleton_self diary) h
    (List.mem_singleton_self _) rfl
  exact ⟨_, _, h, List.mem_singleton_self _, rfl, (hiff.mpr hin).1⟩

/-- What is shown of a day in the year 10000 does not pass in a filter. -/
theorem Collection.exists_outlies : ∃ r v,
    diary.record (ofCollections [diary]) .bestFit "days/a.json" ""
      (.object [("date", .string "9999-12-31T23:59:59-01:00")]) = .ok (r, []) ∧
    ("date", v) ∈ r.fields ∧ v.operand?.isSome ∧
    (Filter.compare .eq "date" v.toJson).check diary =
      .error (.invalidFilter (.wrongOperand "date" v.toJson)) :=
  ⟨diaryRecord "days/a.json" "+10000-01-01T00:59:59.000Z",
    .datetime "+10000-01-01T00:59:59.000Z", rfl, List.mem_singleton_self _, rfl, rfl⟩

end Graph

end ContentIndex
