import ContentIndex.Proofs.Canonical

/-!
# Readable records

What is read where a record was written is the record with its numbers read again, or nothing. A
record is nested deeper than the document that it was made of, since each value has a tag of its own,
and a reader gives up on what is nested too deep. A double may be read as another one, or as none.

## Main definitions

* `Json.Value.reread?`, `FieldValue.reread?`, `Record.reread?`: what is read, the depth apart
* `Record.IsShallow`: records that are not nested too deep
* `Record.IsReadable`: such records whose numbers are all read

## Main results

* `Record.ofBytes?_toBytes`: **what is read where a record was written**
* `Record.isSome_ofBytes?_iff`: records of documents are read if and only if they are readable
* `Record.ofBytes?_eq_self_iff`: **they are read back if and only if their numbers are, too**
-/

namespace ContentIndex

open Json (Draft MemberName Number Value)
open Json.Parser (maxDepth)

/-! ### JSON values -/

namespace Json.Value

mutual

/-- What is read where the value was written, if it is not nested too deep. -/
def reread? : Value → Option Value
  | .number n => n.reread.map .number
  | .array items => (rereadItems? items).map .array
  | .object members => (rereadMembers? members).map .object
  | v => some v

/-- What is read where items were written. -/
def rereadItems? : List Value → Option (List Value)
  | [] => some []
  | v :: r => do return (← v.reread?) :: (← rereadItems? r)

/-- What is read where members were written. -/
def rereadMembers? : List (String × Value) → Option (List (String × Value))
  | [] => some []
  | (name, v) :: r => do return (name, ← v.reread?) :: (← rereadMembers? r)

end

mutual

/-- The value of an echo. -/
theorem value?_echo : ∀ (v : Value) (depth : Nat), depth ≤ maxDepth →
    (v.echo depth).value? = if depth + v.draft.depth ≤ maxDepth then v.reread? else none
  | .null, _, h | .bool _, _, h | .string _, _, h => (if_pos h).symm
  | .number n, _, h => by
    rw [show Draft.depth (draft (.number n)) = 0 from rfl, Nat.add_zero, if_pos h, echo, reread?]
    cases n.reread <;> rfl
  | .array items, depth, _ => by
    rw [echo, draft, Draft.depth, reread?]
    split
    · next hlt =>
      rw [Draft.value?, itemValues?_itemEchoes items (depth + 1) hlt]
      rw [show depth + (Draft.depthItems (itemDrafts items) + 1) =
        depth + 1 + Draft.depthItems (itemDrafts items) by omega]
      split <;> rfl
    · rw [if_neg (by omega)]
      rfl
  | .object members, depth, _ => by
    rw [echo, draft, Draft.depth, reread?]
    split
    · next hlt =>
      rw [Draft.value?, memberValues?_memberEchoes members (depth + 1) hlt]
      rw [show depth + (Draft.depthMembers (memberDrafts members) + 1) =
        depth + 1 + Draft.depthMembers (memberDrafts members) by omega]
      split <;> rfl
    · rw [if_neg (by omega)]
      rfl

theorem itemValues?_itemEchoes : ∀ (items : List Value) (depth : Nat), depth ≤ maxDepth →
    Draft.itemValues? (itemEchoes depth items) =
      if depth + Draft.depthItems (itemDrafts items) ≤ maxDepth then rereadItems? items else none
  | [], _, h => (if_pos h).symm
  | v :: r, depth, h => by
    rw [itemEchoes, Draft.itemValues?, value?_echo v depth h, itemValues?_itemEchoes r depth h,
      itemDrafts, Draft.depthItems, rereadItems?]
    split_ifs <;> first | rfl | omega | simp

theorem memberValues?_memberEchoes : ∀ (members : List (String × Value)) (depth : Nat),
    depth ≤ maxDepth → Draft.memberValues? (memberEchoes depth members) =
      if depth + Draft.depthMembers (memberDrafts members) ≤ maxDepth then rereadMembers? members
      else none
  | [], _, h => (if_pos h).symm
  | (name, v) :: r, depth, h => by
    rw [memberEchoes, Draft.memberValues?, value?_echo v depth h, memberValues?_memberEchoes r depth h,
      memberDrafts, Draft.depthMembers, rereadMembers?]
    split_ifs <;> first | rfl | omega | simp [MemberName.text?]

end

mutual

/-- A value is read if its numbers are. -/
theorem isSome_reread? : ∀ v : Value, v.reread?.isSome ↔ v.HasNumbers (·.reread.isSome)
  | .null | .bool _ | .string _ => by simp [reread?, HasNumbers]
  | .number n => by simp [reread?, HasNumbers]
  | .array items => by simp [reread?, HasNumbers, isSome_rereadItems? items]
  | .object members => by simp [reread?, HasNumbers, isSome_rereadMembers? members]

theorem isSome_rereadItems? : ∀ items : List Value,
    (rereadItems? items).isSome ↔ ItemsHaveNumbers (·.reread.isSome) items
  | [] => by simp [rereadItems?, ItemsHaveNumbers]
  | v :: r => by
    rw [ItemsHaveNumbers, ← isSome_reread? v, ← isSome_rereadItems? r, rereadItems?]
    cases v.reread? <;> cases rereadItems? r <;> simp

theorem isSome_rereadMembers? : ∀ members : List (String × Value),
    (rereadMembers? members).isSome ↔ MembersHaveNumbers (·.reread.isSome) members
  | [] => by simp [rereadMembers?, MembersHaveNumbers]
  | (name, v) :: r => by
    rw [MembersHaveNumbers, ← isSome_reread? v, ← isSome_rereadMembers? r, rereadMembers?]
    cases v.reread? <;> cases rereadMembers? r <;> simp

end

mutual

/-- A value is read back if its numbers are. -/
theorem reread?_eq_self_iff : ∀ v : Value, v.reread? = some v ↔ v.HasNumbers Number.ReadsBack
  | .null | .bool _ | .string _ => by simp [reread?, HasNumbers]
  | .number n => by simp [reread?, HasNumbers, Number.ReadsBack]
  | .array items => by simp [reread?, HasNumbers, ← rereadItems?_eq_self_iff items]
  | .object members => by simp [reread?, HasNumbers, ← rereadMembers?_eq_self_iff members]

theorem rereadItems?_eq_self_iff : ∀ items : List Value,
    rereadItems? items = some items ↔ ItemsHaveNumbers Number.ReadsBack items
  | [] => by simp [rereadItems?, ItemsHaveNumbers]
  | v :: r => by
    rw [ItemsHaveNumbers, ← reread?_eq_self_iff v, ← rereadItems?_eq_self_iff r, rereadItems?]
    cases v.reread? <;> cases rereadItems? r <;> simp

theorem rereadMembers?_eq_self_iff : ∀ members : List (String × Value),
    rereadMembers? members = some members ↔ MembersHaveNumbers Number.ReadsBack members
  | [] => by simp [rereadMembers?, MembersHaveNumbers]
  | (name, v) :: r => by
    rw [MembersHaveNumbers, ← reread?_eq_self_iff v, ← rereadMembers?_eq_self_iff r, rereadMembers?]
    cases v.reread? <;> cases rereadMembers? r <;> simp

end

/-- Members are read with their names. -/
theorem names_of_rereadMembers? {members : List (String × Value)} {us : List (String × Value)}
    (h : rereadMembers? members = some us) : us.map (·.1) = members.map (·.1) := by
  induction members generalizing us with
  | nil =>
    cases h
    rfl
  | cons m members ih =>
    obtain ⟨name, v⟩ := m
    rw [rereadMembers?] at h
    obtain ⟨u, -, h⟩ := Option.bind_eq_some_iff.mp h
    obtain ⟨us', hus, h⟩ := Option.bind_eq_some_iff.mp h
    cases h
    rw [List.map_cons, List.map_cons, ih hus]

mutual

/-- What is read of a canonical value is canonical. -/
theorem isCanonical_of_reread? : ∀ {v u : Value}, v.IsCanonical → v.reread? = some u → u.IsCanonical
  | .null, _, _, h | .bool _, _, _, h | .string _, _, _, h => by
    cases h
    trivial
  | .number _, _, _, h => by
    obtain ⟨m, -, rfl⟩ := Option.map_eq_some_iff.mp h
    trivial
  | .array _, _, hv, h => by
    obtain ⟨us, hus, rfl⟩ := Option.map_eq_some_iff.mp h
    exact itemsCanonical_of_rereadItems? hv hus
  | .object _, _, hv, h => by
    obtain ⟨us, hus, rfl⟩ := Option.map_eq_some_iff.mp h
    exact ⟨Entries.sorted_of_names (names_of_rereadMembers? hus) hv.1,
      membersCanonical_of_rereadMembers? hv.2 hus⟩

theorem itemsCanonical_of_rereadItems? : ∀ {items us : List Value}, ItemsCanonical items →
    rereadItems? items = some us → ItemsCanonical us
  | [], _, _, h => by
    cases h
    trivial
  | _ :: _, _, hv, h => by
    rw [rereadItems?] at h
    obtain ⟨u, hu, h⟩ := Option.bind_eq_some_iff.mp h
    obtain ⟨us, hus, h⟩ := Option.bind_eq_some_iff.mp h
    cases h
    exact ⟨isCanonical_of_reread? hv.1 hu, itemsCanonical_of_rereadItems? hv.2 hus⟩

theorem membersCanonical_of_rereadMembers? : ∀ {members us : List (String × Value)},
    MembersCanonical members → rereadMembers? members = some us → MembersCanonical us
  | [], _, _, h => by
    cases h
    trivial
  | (_, _) :: _, _, hv, h => by
    rw [rereadMembers?] at h
    obtain ⟨u, hu, h⟩ := Option.bind_eq_some_iff.mp h
    obtain ⟨us, hus, h⟩ := Option.bind_eq_some_iff.mp h
    cases h
    exact ⟨isCanonical_of_reread? hv.1 hu, membersCanonical_of_rereadMembers? hv.2 hus⟩

end

end Json.Value

/-! ### Field values -/

namespace FieldValue

mutual

/-- What is read where the value was written, if it is not nested too deep. -/
def reread? : FieldValue → Option FieldValue
  | .number x => (Number.ofFloat? x).bind fun n => n.reread.map fun m => .number m.toFloat
  | .richText v => v.reread?.map fun u => .richText u.canonical
  | .list items => (rereadItems? items).map .list
  | .object template fields =>
    (rereadFields? fields).map fun fs => .object template (Entries.ofList fs)
  | v => some v

/-- What is read where items were written. -/
def rereadItems? : List FieldValue → Option (List FieldValue)
  | [] => some []
  | v :: r => do return (← v.reread?) :: (← rereadItems? r)

/-- What is read where fields were written. -/
def rereadFields? : List (String × FieldValue) → Option (List (String × FieldValue))
  | [] => some []
  | (name, v) :: r => do return (name, ← v.reread?) :: (← rereadFields? r)

end

/-- A tag nests its content one level deeper. -/
theorem depth_tagged (tag : String) (content : Value) :
    (tagged tag content).draft.depth = content.draft.depth + 1 := by
  simp [tagged, Value.draft, Value.memberDrafts, Draft.depth, Draft.depthMembers]

/-- What is read of a tag, by what is read of its content. -/
theorem ofDraft?_echo_of_content {tag : String} {content : Value} {depth : Nat}
    {w : Option FieldValue} (h : depth < maxDepth →
      content? false tag (content.echo (depth + 1)) =
        if depth + 1 + content.draft.depth ≤ maxDepth then w else none) :
    ofDraft? false ((tagged tag content).echo depth) =
      if depth + (tagged tag content).draft.depth ≤ maxDepth then w else none := by
  rw [ofDraft?_echo_tagged, depth_tagged, Nat.add_comm content.draft.depth, ← Nat.add_assoc]
  split
  · next hlt => exact h hlt
  · rw [if_neg (by omega)]

/-- The content of a tag that stands for a value of JSON. -/
theorem content?_richText (d : Draft) :
    content? false "rich-text" d = d.value?.map fun v => .richText v.canonical := by
  cases d <;> rw [content?.eq_def] <;> rfl

mutual

/-- **What is read where a value was written.** -/
theorem ofDraft?_echo : ∀ (v : FieldValue) (depth : Nat),
    ofDraft? false (v.toValue.echo depth) =
      if depth + v.toValue.draft.depth ≤ maxDepth then v.reread? else none
  | .string _, _ | .datetime _, _ | .boolean _, _ =>
    ofDraft?_echo_of_content fun hlt => (if_pos hlt).symm
  | .number x, depth => by
    refine ofDraft?_echo_of_content fun hlt => ?_
    rw [reread?, Value.float]
    cases Number.ofFloat? x with
    | none => exact (ite_self _).symm
    | some n =>
      rw [Option.bind_some]
      refine Eq.trans ?_ (if_pos hlt).symm
      show content? false "number" (Value.echo (depth + 1) (.number n)) = _
      rw [Value.echo]
      cases n.reread <;> rfl
  | .richText v, depth => by
    refine ofDraft?_echo_of_content fun hlt => ?_
    rw [content?_richText, Value.value?_echo v _ hlt, reread?]
    split <;> rfl
  | .reference t, depth => by
    refine ofDraft?_echo_of_content fun hlt => ?_
    have hone : (Value.object [("collection", .optionalString t.collection),
        ("path", .string t.path)]).draft.depth = 1 := by
      cases t.collection <;> rfl
    rw [Value.echo, hone]
    split
    · next hdeep =>
      rw [if_pos (Nat.succ_le_of_lt hdeep)]
      obtain ⟨collection, path⟩ := t
      cases collection <;> rfl
    · next hdeep =>
      rw [if_neg fun h => hdeep (Nat.lt_of_succ_le h)]
      rfl
  | .list items, depth => by
    refine ofDraft?_echo_of_content fun hlt => ?_
    rw [Value.echo, Value.draft, Draft.depth, reread?, Nat.add_comm (Draft.depthItems _),
      ← Nat.add_assoc]
    split
    · next hdeep =>
      rw [content?.eq_def]
      simp only [if_true]
      rw [itemsOf?_itemEchoes items (depth + 1 + 1) hdeep]
      split <;> rfl
    · rw [if_neg (by omega)]
      rfl
  | .object template fields, depth => by
    refine ofDraft?_echo_of_content fun hlt => ?_
    have hdepth : (Value.object [("template", .string template),
        ("fields", .object (fieldsToValue fields))]).draft.depth =
          Draft.depthMembers (Value.memberDrafts (fieldsToValue fields)) + 2 := by
      simp [Value.draft, Value.memberDrafts, Draft.depth, Draft.depthMembers]
    rw [Value.echo, hdepth, reread?]
    split
    · next hdeep =>
      have hcontent : content? false "object" (.object (Value.memberEchoes (depth + 1 + 1)
          [("template", .string template), ("fields", .object (fieldsToValue fields))])) =
          (fieldMap? false (Value.echo (depth + 1 + 1) (.object (fieldsToValue fields)))).map
            (.object template) := by
        simp only [Value.memberEchoes, Value.echo.eq_4]
        generalize Value.echo (depth + 1 + 1) (.object (fieldsToValue fields)) = d
        simp [content?, Draft.members?, Draft.namedMember?, Draft.uniqueMember?, Draft.string?,
          fieldsIn?, Option.map_eq_bind]
      rw [hcontent, fieldMap?_echo fields (depth + 1 + 1), Value.draft, Draft.depth,
        show depth + 1 + 1 + (Draft.depthMembers (Value.memberDrafts (fieldsToValue fields)) + 1) =
          depth + 1 + (Draft.depthMembers (Value.memberDrafts (fieldsToValue fields)) + 2) by omega]
      split
      · rw [Option.map_map]
        rfl
      · rfl
    · rw [if_neg (by omega)]
      rfl

/-- What is read where a field map was written. -/
theorem fieldMap?_echo (fields : List (String × FieldValue)) (depth : Nat) :
    fieldMap? false (Value.echo depth (.object (fieldsToValue fields))) =
      if depth + (Value.object (fieldsToValue fields)).draft.depth ≤ maxDepth then
        (rereadFields? fields).map Entries.ofList else none := by
  rw [Value.echo, Value.draft, Draft.depth, Nat.add_comm (Draft.depthMembers _), ← Nat.add_assoc]
  split
  · next hdeep =>
    rw [fieldMap?, entriesOf?_memberEchoes fields (depth + 1) hdeep]
    split <;> rfl
  · rw [if_neg (by omega)]
    rfl

theorem itemsOf?_itemEchoes : ∀ (items : List FieldValue) (depth : Nat), depth ≤ maxDepth →
    itemsOf? false (Value.itemEchoes depth (itemsToValue items)) =
      if depth + Draft.depthItems (Value.itemDrafts (itemsToValue items)) ≤ maxDepth then
        rereadItems? items else none
  | [], _, h => (if_pos h).symm
  | v :: r, depth, h => by
    rw [itemsToValue, Value.itemEchoes, itemsOf?, ofDraft?_echo v depth,
      itemsOf?_itemEchoes r depth h, Value.itemDrafts, Draft.depthItems, rereadItems?]
    split_ifs <;> first | rfl | omega | simp

theorem entriesOf?_memberEchoes : ∀ (fields : List (String × FieldValue)) (depth : Nat),
    depth ≤ maxDepth → entriesOf? false (Value.memberEchoes depth (fieldsToValue fields)) =
      if depth + Draft.depthMembers (Value.memberDrafts (fieldsToValue fields)) ≤ maxDepth then
        rereadFields? fields else none
  | [], _, h => (if_pos h).symm
  | (name, v) :: r, depth, h => by
    rw [fieldsToValue, Value.memberEchoes, entriesOf?, ofDraft?_echo v depth,
      entriesOf?_memberEchoes r depth h, Value.memberDrafts, Draft.depthMembers, rereadFields?]
    split_ifs <;> first | rfl | omega | simp [MemberName.text?]

end

/-! ### Numbers in values -/

/-- A tag has no numbers of its own. -/
theorem hasNumbers_tagged {p : Number → Prop} {tag : String} {content : Value} :
    (tagged tag content).HasNumbers p ↔ content.HasNumbers p := by
  simp [tagged, Value.HasNumbers, Value.MembersHaveNumbers]

/-- A finite double is stored as a number. -/
theorem exists_number_of_isFinite {x : Binary64} (h : x.isFinite) :
    Number.ofFloat? x = some (.float x h) ∧ Value.float x = .number (.float x h) := by
  have hnumber : Number.ofFloat? x = some (.float x h) := dif_pos h
  exact ⟨hnumber, by rw [Value.float, hnumber]⟩

mutual

/-- A value of a document is read if its numbers are. -/
theorem isSome_reread? : ∀ {v : FieldValue}, v.Regular →
    (v.reread?.isSome ↔ v.toValue.HasNumbers (·.reread.isSome))
  | .string _, _ | .datetime _, _ | .boolean _, _ => by
    rw [toValue, hasNumbers_tagged]
    exact iff_of_true rfl trivial
  | .reference t, _ => by
    rw [toValue, hasNumbers_tagged]
    refine iff_of_true rfl ⟨?_, trivial, trivial⟩
    cases t.collection <;> trivial
  | .number x, h => by
    obtain ⟨hnumber, hfloat⟩ := exists_number_of_isFinite h
    rw [toValue, hasNumbers_tagged, hfloat, reread?, hnumber, Option.bind_some, Option.isSome_map]
    exact Iff.rfl
  | .richText v, _ => by
    rw [toValue, hasNumbers_tagged, reread?, Option.isSome_map, Value.isSome_reread? v]
  | .list items, h => by
    rw [toValue, hasNumbers_tagged, reread?, Option.isSome_map]
    exact isSome_rereadItems? h
  | .object template fields, h => by
    rw [toValue, hasNumbers_tagged, reread?, Option.isSome_map]
    simpa [Value.HasNumbers, Value.MembersHaveNumbers] using isSome_rereadFields? h.2

theorem isSome_rereadItems? : ∀ {items : List FieldValue}, ItemsRegular items →
    ((rereadItems? items).isSome ↔
      Value.ItemsHaveNumbers (·.reread.isSome) (itemsToValue items))
  | [], _ => by simp [rereadItems?, itemsToValue, Value.ItemsHaveNumbers]
  | v :: r, h => by
    rw [itemsToValue, Value.ItemsHaveNumbers, ← isSome_reread? h.1, ← isSome_rereadItems? h.2,
      rereadItems?]
    cases v.reread? <;> cases rereadItems? r <;> simp

theorem isSome_rereadFields? : ∀ {fields : List (String × FieldValue)}, FieldsRegular fields →
    ((rereadFields? fields).isSome ↔
      Value.MembersHaveNumbers (·.reread.isSome) (fieldsToValue fields))
  | [], _ => by simp [rereadFields?, fieldsToValue, Value.MembersHaveNumbers]
  | (name, v) :: r, h => by
    rw [fieldsToValue, Value.MembersHaveNumbers, ← isSome_reread? h.1, ← isSome_rereadFields? h.2,
      rereadFields?]
    cases v.reread? <;> cases rereadFields? r <;> simp

end

/-- Fields are read with their names. -/
theorem names_of_rereadFields? {fields fs : List (String × FieldValue)}
    (h : rereadFields? fields = some fs) : fs.map (·.1) = fields.map (·.1) := by
  induction fields generalizing fs with
  | nil =>
    cases h
    rfl
  | cons f fields ih =>
    obtain ⟨name, v⟩ := f
    rw [rereadFields?] at h
    obtain ⟨w, -, h⟩ := Option.bind_eq_some_iff.mp h
    obtain ⟨ws, hws, h⟩ := Option.bind_eq_some_iff.mp h
    cases h
    rw [List.map_cons, List.map_cons, ih hws]

/-- Fields in order are read in order. -/
theorem map_ofList_rereadFields? {fields : List (String × FieldValue)}
    (h : Entries.Sorted fields) : (rereadFields? fields).map Entries.ofList = rereadFields? fields := by
  cases hfs : rereadFields? fields with
  | none => rfl
  | some fs =>
    rw [Option.map_some, Entries.ofList_eq_self
      (Entries.sorted_of_names (names_of_rereadFields? hfs) h)]

mutual

/-- A value of a document is read back if its numbers are. -/
theorem reread?_eq_self_iff : ∀ {v : FieldValue}, v.Regular →
    (v.reread? = some v ↔ v.toValue.HasNumbers Number.ReadsBack)
  | .string _, _ | .datetime _, _ | .boolean _, _ => by
    rw [toValue, hasNumbers_tagged]
    exact iff_of_true rfl trivial
  | .reference t, _ => by
    rw [toValue, hasNumbers_tagged]
    refine iff_of_true rfl ⟨?_, trivial, trivial⟩
    cases t.collection <;> trivial
  | .number x, h => by
    obtain ⟨hnumber, hfloat⟩ := exists_number_of_isFinite h
    rw [toValue, hasNumbers_tagged, hfloat, reread?, hnumber, Option.bind_some]
    show _ ↔ (Number.float x h).reread = some (.float x h)
    constructor
    · intro hread
      obtain ⟨m, hm, heq⟩ := Option.map_eq_some_iff.mp hread
      obtain ⟨y, hy, rfl⟩ := Number.exists_float_of_reread hm
      cases heq
      exact hm
    · intro hread
      rw [hread]
      rfl
  | .richText v, h => by
    rw [toValue, hasNumbers_tagged, reread?, ← Value.reread?_eq_self_iff v]
    constructor
    · intro hread
      obtain ⟨u, hu, heq⟩ := Option.map_eq_some_iff.mp hread
      rw [Value.canonical_eq_self (Value.isCanonical_of_reread? h hu)] at heq
      cases heq
      exact hu
    · intro hread
      rw [hread, Option.map_some, Value.canonical_eq_self h]
  | .list items, h => by
    rw [toValue, hasNumbers_tagged, reread?]
    exact Iff.trans (by simp) (rereadItems?_eq_self_iff h)
  | .object template fields, h => by
    have hfields : rereadFields? fields = some fields ↔ _ := rereadFields?_eq_self_iff h.2
    rw [toValue, hasNumbers_tagged, reread?, ← Function.comp_def, ← Option.map_map,
      map_ofList_rereadFields? h.1]
    simpa [Value.HasNumbers, Value.MembersHaveNumbers] using hfields

theorem rereadItems?_eq_self_iff : ∀ {items : List FieldValue}, ItemsRegular items →
    (rereadItems? items = some items ↔
      Value.ItemsHaveNumbers Number.ReadsBack (itemsToValue items))
  | [], _ => by simp [rereadItems?, itemsToValue, Value.ItemsHaveNumbers]
  | v :: r, h => by
    rw [itemsToValue, Value.ItemsHaveNumbers, ← reread?_eq_self_iff h.1,
      ← rereadItems?_eq_self_iff h.2, rereadItems?]
    cases v.reread? <;> cases rereadItems? r <;> simp

theorem rereadFields?_eq_self_iff : ∀ {fields : List (String × FieldValue)}, FieldsRegular fields →
    (rereadFields? fields = some fields ↔
      Value.MembersHaveNumbers Number.ReadsBack (fieldsToValue fields))
  | [], _ => by simp [rereadFields?, fieldsToValue, Value.MembersHaveNumbers]
  | (name, v) :: r, h => by
    rw [fieldsToValue, Value.MembersHaveNumbers, ← reread?_eq_self_iff h.1,
      ← rereadFields?_eq_self_iff h.2, rereadFields?]
    cases v.reread? <;> cases rereadFields? r <;> simp

end

end FieldValue

/-! ### Records -/

namespace Record

/-- What is read where the record was written, if it is not nested too deep. -/
def reread? (r : Record) : Option Record :=
  (FieldValue.rereadFields? r.fields).map fun fields => { r with fields := Entries.ofList fields }

/-- The record is not nested too deep. -/
def IsShallow (r : Record) : Prop := r.toValue.draft.depth ≤ maxDepth

instance (r : Record) : Decidable r.IsShallow := inferInstanceAs (Decidable (_ ≤ _))

/-- The record is not nested too deep, and numbers are read where its numbers were written. -/
structure IsReadable (r : Record) : Prop where
  /-- It is not nested too deep. -/
  shallow : r.IsShallow
  /-- Its numbers are read. -/
  numbers : r.toValue.HasNumbers (·.reread.isSome)

/-- The record is nested two levels deeper than its fields. -/
theorem depth_toValue (r : Record) : r.toValue.draft.depth =
    (Value.object (FieldValue.fieldsToValue r.fields)).draft.depth + 1 := by
  simp [toValue, Value.draft, Value.memberDrafts, Draft.depth, Draft.depthMembers]

/-- **What is read where a record was written**: nothing if it is nested too deep, and otherwise the
record with its numbers read again, if they are. -/
theorem ofBytes?_toBytes (r : Record) :
    ofBytes? r.toBytes = if r.IsShallow then r.reread? else none := by
  obtain ⟨collection, path, template, fields, contentHash⟩ := r
  have hdraft (d : Draft) : ofDraft? (.object [(.text "collection", .string collection),
      (.text "path", .string path), (.text "template", .string template), (.text "fields", d),
      (.text "content_hash", .string contentHash)]) =
        (FieldValue.fieldMap? false d).map fun fs => ⟨collection, path, template, fs, contentHash⟩ := by
    simp [ofDraft?, Draft.fields?, Draft.members?, Draft.fieldsAmong?, Draft.uniqueMember?,
      MemberName.names, Draft.string?, Option.map_eq_bind]
  show _ = if Draft.depth (Value.draft (toValue _)) ≤ maxDepth then _ else none
  rw [depth_toValue, ofBytes?, toBytes, Draft.ofBytes?_bytes, Option.bind_some, toValue, Value.echo,
    if_pos (by decide)]
  simp only [Value.memberEchoes, Value.echo.eq_4]
  rw [hdraft, FieldValue.fieldMap?_echo, Nat.add_comm]
  split
  · rw [reread?, Option.map_map]
    rfl
  · rfl

variable {r : Record}

/-- All numbers of a record are in its fields. -/
theorem hasNumbers_toValue {p : Number → Prop} : r.toValue.HasNumbers p ↔
    Value.MembersHaveNumbers p (FieldValue.fieldsToValue r.fields) := by
  simp [toValue, Value.HasNumbers, Value.MembersHaveNumbers]

/-- A record whose values are those of a document is read if and only if it is readable. -/
theorem isSome_ofBytes?_iff (h : FieldValue.FieldsRegular r.fields) :
    (ofBytes? r.toBytes).isSome ↔ r.IsReadable := by
  rw [ofBytes?_toBytes]
  split
  · next hshallow =>
    rw [reread?, Option.isSome_map, FieldValue.isSome_rereadFields? h, ← hasNumbers_toValue]
    exact ⟨fun hnumbers => ⟨hshallow, hnumbers⟩, fun hread => hread.numbers⟩
  · next hdeep => exact iff_of_false nofun fun hread => hdeep hread.shallow

/-- It is read back if and only if it is not nested too deep and its numbers are read back. -/
theorem ofBytes?_eq_self_iff (hsorted : Entries.Sorted r.fields)
    (h : FieldValue.FieldsRegular r.fields) :
    ofBytes? r.toBytes = some r ↔ r.IsShallow ∧ r.toValue.HasNumbers Number.ReadsBack := by
  rw [ofBytes?_toBytes, hasNumbers_toValue, ← FieldValue.rereadFields?_eq_self_iff h]
  split
  · next hshallow =>
    have hmap : r.reread? = (FieldValue.rereadFields? r.fields).map fun fields => { r with fields } := by
      rw [← FieldValue.map_ofList_rereadFields? hsorted, Option.map_map]
      rfl
    rw [hmap, Option.map_eq_some_iff]
    constructor
    · rintro ⟨fs, hfs, heq⟩
      exact ⟨hshallow, hfs.trans (congrArg (fun r => some r.fields) heq)⟩
    · rintro ⟨-, hfields⟩
      exact ⟨r.fields, hfields, rfl⟩
  · next hdeep => exact iff_of_false nofun fun hread => hdeep hread.1

end Record

end ContentIndex
