import ContentIndex.Index.Lock
import ContentIndex.Proofs.JsonReading
import ContentIndex.Record.Basic

/-!
# Stored values

Locks and the information on generations are stored as JSON, and what is stored tells what it was
made from.

## Main results

* `Lock.owner_eq_of_toBytes`: the bytes of a lock tell its owner
* `GenerationInfo.ofBytes?_toBytes`: the information on a generation is read back
* `Record.ofBytes?_toBytes_of_fields`: so is a record whose fields are
-/

namespace ContentIndex

open Json (Draft Number Value)

/-- The bytes of a lock are read as its draft. -/
theorem Lock.draftOfBytes?_toBytes (l : Lock) : Draft.ofBytes? l.toBytes = some l.toValue.draft := by
  refine Draft.ofBytes?_bytes_of_readsBack ?_ ?_
  · simp [toValue, Value.HasNumbers, Value.MembersHaveNumbers]
  · show 1 ≤ Json.Parser.maxDepth
    decide

/-- The bytes of a lock tell its owner. -/
theorem Lock.owner_eq_of_toBytes {l m : Lock} (h : l.toBytes = m.toBytes) : l.owner = m.owner := by
  have hdraft : l.toValue.draft = m.toValue.draft := by
    have hread := draftOfBytes?_toBytes l
    rw [h, draftOfBytes?_toBytes m] at hread
    exact (Option.some.inj hread).symm
  have hvalue := congrArg Draft.value? hdraft
  simp only [Draft.value?_draft, Option.some.injEq, toValue, Value.object.injEq, List.cons.injEq,
    Prod.mk.injEq, Value.string.injEq, true_and] at hvalue
  exact hvalue.1

namespace GenerationInfo

/-- A number is written as itself and read back. -/
theorem exists_numberValue (g : Generation) :
    ∃ n : Number, n.ReadsBack ∧ numberValue g = .number n ∧ number? (.number n) = some g := by
  obtain ⟨n, hint, hnat⟩ := Number.exists_ofInt? g.toNat_lt
  refine ⟨n, Number.readsBack_ofInt? hint, Value.nat_eq hint, ?_⟩
  rw [number?, hnat g.toNat_lt, Option.map_some, UInt64.ofNat_toNat]

/-- The information on a generation is read back from its bytes. -/
theorem ofBytes?_toBytes (i : GenerationInfo) : ofBytes? i.toBytes = some i := by
  obtain ⟨g, v, t, p⟩ := i
  obtain ⟨n, hn, hnv, hnr⟩ := exists_numberValue g
  cases p with
  | none =>
    have hread : Draft.ofBytes? (toBytes ⟨g, v, t, none⟩) =
        some (toValue ⟨g, v, t, none⟩).draft := by
      refine Draft.ofBytes?_bytes_of_readsBack ?_ ?_
      · simp [toValue, hnv, Value.HasNumbers, Value.MembersHaveNumbers, hn]
      · rw [toValue, hnv]
        show 1 ≤ Json.Parser.maxDepth
        decide
    rw [ofBytes?, hread, Option.bind_some]
    simp [ofDraft?, toValue, hnv, Value.draft, Value.memberDrafts, Draft.fields?, Draft.members?,
      Draft.fieldsAmong?, Draft.uniqueMember?, Json.MemberName.names, hnr, Draft.string?,
      Draft.optional, Draft.nullable?]
  | some p =>
    obtain ⟨m, hm, hmv, hmr⟩ := exists_numberValue p
    have hread : Draft.ofBytes? (toBytes ⟨g, v, t, some p⟩) =
        some (toValue ⟨g, v, t, some p⟩).draft := by
      refine Draft.ofBytes?_bytes_of_readsBack ?_ ?_
      · simp [toValue, hnv, hmv, Value.HasNumbers, Value.MembersHaveNumbers, hn, hm]
      · simp only [toValue, hnv, Option.map_some, hmv, Option.getD_some]
        show 1 ≤ Json.Parser.maxDepth
        decide
    rw [ofBytes?, hread, Option.bind_some]
    simp [ofDraft?, toValue, hnv, hmv, Value.draft, Value.memberDrafts, Draft.fields?,
      Draft.members?, Draft.fieldsAmong?, Draft.uniqueMember?, Json.MemberName.names, hnr, hmr,
      Draft.string?, Draft.optional, Draft.nullable?]

end GenerationInfo

/-- **A record is read back from its bytes if its fields are.** -/
theorem Record.ofBytes?_toBytes_of_fields {r : Record}
    (h : FieldValue.fieldMap? false (Value.echo 1 (.object (FieldValue.fieldsToValue r.fields))) =
      some r.fields) : ofBytes? r.toBytes = some r := by
  rw [ofBytes?, toBytes, Draft.ofBytes?_bytes, Option.bind_some, toValue, Value.echo,
    if_pos (by decide)]
  simp [Value.memberEchoes, ofDraft?, Draft.fields?, Draft.members?, Draft.fieldsAmong?,
    Draft.uniqueMember?, Json.MemberName.names, Draft.string?, Value.echo.eq_4, h]

end ContentIndex
