import ContentIndex.Proofs.InstantText
import ContentIndex.Proofs.SortKeys

/-!
# Datetimes are ordered by their texts

A date field keeps the canonical text of its instant, and the text is what listings are ordered by
and what filters compare. So listings and filters are chronological for all years of four digits. An
offset, or a sign in front of the year, leads beyond them; there the order of two instants is the
chronological one exactly if the earlier year is not misplaced.

## Main results

* `Instant.chronological_iff_not_misplaced`: **listings and filters are chronological exactly for
  years that are not misplaced**
* `Instant.exists_misplaced`: an instant that is listed before an earlier one
-/

namespace ContentIndex

open Json (Value)

/-- Records are listed in the order of the texts of a datetime field. -/
theorem SortOrder.precedes_datetime_iff {name x y : String} {r r' : Record}
    (hname : name ≠ Graph.systemPath) (hr : Entries.find? name r.fields = some (.datetime x))
    (hr' : Entries.find? name r'.fields = some (.datetime y)) (hne : x ≠ y) :
    Precedes (some ⟨name, false⟩) r r' ↔ x < y := by
  rw [Precedes, if_neg hname, hr, hr']
  simp only [Option.bind_some, FieldValue.scalar?, ScalarLess.text_iff, Bytes.ofText_lt_iff]
  refine ⟨?_, .inl⟩
  rintro (h | ⟨hxy, hyx, -⟩)
  · exact h
  · -- different texts have an order, so the paths do not matter
    rcases Std.lt_trichotomy x y with h | h | h
    · exact h
    · exact absurd h hne
    · exact absurd h hyx

theorem Comparison.lt_holds_iff {x y : String} :
    Comparison.lt.holds (compareOfLessAndEq x y) ↔ x < y := by
  unfold holds compareOfLessAndEq
  split_ifs <;> simp [*]

theorem Comparison.gt_holds_iff {x y : String} (h : x ≠ y) :
    Comparison.gt.holds (compareOfLessAndEq x y) ↔ y < x := by
  unfold holds compareOfLessAndEq
  rw [if_neg h]
  rcases Std.lt_trichotomy x y with hxy | hxy | hyx
  · simpa [hxy] using fun hyx => Std.lt_irrefl (Std.lt_trans hxy hyx)
  · exact absurd hxy h
  · have hnot : ¬ x < y := fun hxy => Std.lt_irrefl (Std.lt_trans hxy hyx)
    simp only [hnot, hyx, if_false, decide_true]

namespace Graph

/-- A diary, with a date in each document. -/
def diary : Collection :=
  ⟨"days", "days", none, none, false, none, [⟨"day", [⟨"date", .datetime, false, true⟩]⟩]⟩

theorem diary_compiled : (ofCollections [diary]).IsCompiled :=
  ⟨⟨[⟨"days", "days", none, none, false, none, [],
    [.mk "day" [.mk "date" (.mk .datetime false none [] none [] [])]]⟩]⟩, rfl⟩

/-- The record of a day of the diary. -/
def diaryRecord (path date : String) : Record :=
  ⟨"days", path, "day", [("date", .datetime date)], ""⟩

end Graph

namespace Filter

variable {G : Graph} {c : Graph.Collection} {name x y b : String} {f : Graph.Field} {r : Record}

/-- A datetime field is compared with the canonical text of the value. -/
theorem selects_compare_datetime_iff (hG : G.IsCompiled) (hc : c ∈ G.collections)
    (hf : c.field? name = some f) (hkind : f.kind = .datetime)
    (hr : Entries.find? name r.fields = some (.datetime x))
    (hb : Instant.canonical? b = some y) (comparison : Comparison) :
    (compare comparison name (.string b)).Selects c r ↔
      comparison.holds (compareOfLessAndEq x y) := by
  have hnamed : Subject.named c name = .ok (.field name, .datetime) := by
    rw [hG.named_eq hc hf, hkind]
    rfl
  have hvalue : Operand.ofValue? .datetime (.string b) = some (.text y) := by
    rw [Operand.ofValue?, hb]
    rfl
  have hvalue' : (Subject.field name).of? r = some (.text x) := by
    rw [Subject.of?, hr]
    rfl
  exact selects_compare_of_some hnamed hvalue hvalue' rfl

end Filter

namespace Instant

open Graph (diary diary_compiled diaryRecord)

/-- **Datetimes are in chronological order exactly for years that are not misplaced.** Of two texts
that a date field accepts, the one of the earlier instant becomes the smaller text, or the same one
if the two agree in their milliseconds. If they do not agree, then an ascending order lists records
with them chronologically, and filters for earlier and for later values select them so. All of that
fails exactly if the year of the earlier instant is written after the year of the later one. -/
theorem chronological_iff_not_misplaced {a b : String} {s t : Instant} (ha : ofText? a = some s)
    (hb : ofText? b = some t) (h : s.Before t) :
    ∃ x y, canonical? a = some x ∧ canonical? b = some y ∧
      (Bytes.ofText x < Bytes.ofText y ∨ x = y ↔ ¬ Misplaced s.year t.year) ∧
      (s.millis ≠ t.millis →
        (Bytes.ofText x < Bytes.ofText y ↔ ¬ Misplaced s.year t.year) ∧
        ∀ (G : Graph) (c : Graph.Collection) (name : String) (f : Graph.Field) (r r' : Record),
          G.IsCompiled → c ∈ G.collections → c.field? name = some f → f.kind = .datetime →
          Entries.find? name r.fields = some (.datetime x) →
          Entries.find? name r'.fields = some (.datetime y) →
          (SortOrder.Precedes (some ⟨name, false⟩) r r' ↔ ¬ Misplaced s.year t.year) ∧
          ((Filter.compare .lt name (.string b)).Selects c r ↔ ¬ Misplaced s.year t.year) ∧
          ((Filter.compare .gt name (.string a)).Selects c r' ↔ ¬ Misplaced s.year t.year)) := by
  have hs := valid_of_ofText? ha
  have ht := valid_of_ofText? hb
  have hx : canonical? a = some (s.write .millis "Z") := by
    rw [canonical?, ha]
    rfl
  have hy : canonical? b = some (t.write .millis "Z") := by
    rw [canonical?, hb]
    rfl
  have hmisplaced (hplace : Misplaced s.year t.year) :
      t.write .millis "Z" < s.write .millis "Z" := write_lt_of_misplaced hplace
  have hplaced (hne : s.millis ≠ t.millis) (hplace : ¬ Misplaced s.year t.year) :
      s.write .millis "Z" < t.write .millis "Z" := write_lt hs ht h hne hplace
  have hsame (heq : s.millis = t.millis) :
      s.write .millis "Z" = t.write .millis "Z" ∧ ¬ Misplaced s.year t.year := by
    have hday : s.millis.day = t.millis.day := by rw [heq]
    refine ⟨write_eq_of_millis_eq heq, ?_⟩
    rw [year, year, show s.day = t.day from hday]
    exact not_misplaced_self _
  clear hs ht ha hb
  generalize s.write .millis "Z" = x, t.write .millis "Z" = y at *
  have hlt (hne : s.millis ≠ t.millis) : x < y ↔ ¬ Misplaced s.year t.year :=
    ⟨fun hxy hplace => Std.lt_irrefl (Std.lt_trans hxy (hmisplaced hplace)), hplaced hne⟩
  have hdiffer (hne : s.millis ≠ t.millis) : x ≠ y := by
    rintro rfl
    by_cases hplace : Misplaced s.year t.year
    · exact Std.lt_irrefl (hmisplaced hplace)
    · exact Std.lt_irrefl (hplaced hne hplace)
  simp only [Bytes.ofText_lt_iff]
  refine ⟨x, y, hx, hy, ?_, fun hne => ⟨hlt hne, ?_⟩⟩
  · by_cases hmillis : s.millis = t.millis
    · obtain ⟨heq, hplace⟩ := hsame hmillis
      exact iff_of_true (.inr heq) hplace
    · rw [← hlt hmillis]
      exact or_iff_left (hdiffer hmillis)
  · intro G c name f r r' hG hc hf hkind hr hr'
    have hname : name ≠ Graph.systemPath := by
      rintro rfl
      exact hG.not_reserved_of_field? hc hf rfl
    rw [SortOrder.precedes_datetime_iff hname hr hr' (hdiffer hne),
      Filter.selects_compare_datetime_iff hG hc hf hkind hr hy,
      Filter.selects_compare_datetime_iff hG hc hf hkind hr' hx, Comparison.lt_holds_iff,
      Comparison.gt_holds_iff (hdiffer hne).symm]
    exact ⟨hlt hne, hlt hne, hlt hne⟩

/-- With offsets that lead into another year, the day that comes first is listed first and selected. -/
theorem chronological_iff_not_misplaced_offset : ∃ x y,
    canonical? "2024-01-01T00:15:00Z" = some x ∧
      canonical? "2023-12-31T23:30:00-01:00" = some y ∧
      SortOrder.Precedes (some ⟨"date", false⟩) (diaryRecord "days/b.md" x)
        (diaryRecord "days/a.md" y) ∧
      (Filter.compare .lt "date" (.string "2023-12-31T23:30:00-01:00")).Selects diary
        (diaryRecord "days/b.md" x) := by
  have hs : ofText? "2024-01-01T00:15:00Z" = some ⟨739191, 900, 0⟩ := by rfl
  have ht : ofText? "2023-12-31T23:30:00-01:00" = some ⟨739191, 1800, 0⟩ := by rfl
  have hbefore : Before ⟨739191, 900, 0⟩ ⟨739191, 1800, 0⟩ := .inr ⟨rfl, .inl (by decide)⟩
  obtain ⟨x, y, hx, hy, -, h⟩ := chronological_iff_not_misplaced hs ht hbefore
  have hplace : ¬ Misplaced (year ⟨739191, 900, 0⟩) (year ⟨739191, 1800, 0⟩) :=
    not_misplaced_self _
  obtain ⟨hlisted, hselected, -⟩ := (h (by decide)).2 _ diary "date" ⟨"date", .datetime, false, true⟩
    (diaryRecord "days/b.md" x) (diaryRecord "days/a.md" y) diary_compiled
    (List.mem_singleton_self _) rfl rfl rfl rfl
  exact ⟨x, y, hx, hy, hlisted.mpr hplace, hselected.mpr hplace⟩

/-- A day that an offset leads into the year 10000 has a smaller text than a day of 2024, and is
listed before it. -/
theorem exists_misplaced : ∃ s t x y,
    ofText? "2024-01-01" = some s ∧ ofText? "9999-12-31T23:59:59-01:00" = some t ∧ s.Before t ∧
      canonical? "2024-01-01" = some x ∧ canonical? "9999-12-31T23:59:59-01:00" = some y ∧
      Bytes.ofText y < Bytes.ofText x ∧
      SortOrder.Precedes (some ⟨"date", false⟩) (diaryRecord "days/b.md" y)
        (diaryRecord "days/a.md" x) := by
  have hlt : "+10000-01-01T00:59:59.000Z" < "2024-01-01T00:00:00.000Z" := by decide
  refine ⟨⟨739191, 0, 0⟩, ⟨3652365, 3599, 0⟩, "2024-01-01T00:00:00.000Z",
    "+10000-01-01T00:59:59.000Z", by rfl, by rfl, .inl (by decide), by rfl, by rfl,
    Bytes.ofText_lt_iff.mpr hlt, ?_⟩
  exact (SortOrder.precedes_datetime_iff (by decide) rfl rfl (by decide)).mpr hlt

end Instant

end ContentIndex
