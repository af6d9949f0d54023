import ContentIndex.Graph.Basic
import ContentIndex.Proofs.Declarations
import ContentIndex.Proofs.JsonReading
import ContentIndex.Proofs.RecordEntries

/-!
# What the version of a graph decides

The version of a graph is the hash of a JSON text. Different values have different texts, so if the
hash tells the texts apart, then graphs of one version differ in their default orders only. Records
have the same entries by both.

## Main definitions

* `Graph.VersionsApart`: graphs that the hash tells apart
* `Graph.plain`: a graph without the default orders

## Main results

* `Json.Value.bytes_injective`: different values are written differently
* `Graph.Kind.toValue_injective`: different kinds are hashed as different values
* `Graph.exists_alike_of_version`: **graphs of one version index alike**
* `Graph.version_eq_iff`: **they differ in their default orders only**
-/

namespace ContentIndex

namespace Json.Value

/-- A value starts with a token that ends nothing. -/
theorem exists_tokens_eq (v : Value) : ∃ t ts, v.tokens = t :: ts ∧ t ≠ .closeArray := by
  cases v
  all_goals
    refine ⟨_, _, rfl, fun h => ?_⟩
    cases h

mutual

/-- The tokens of a value are not the start of those of another, if numbers are read back. -/
theorem tokens_append_inj : ∀ (v w : Value) (x y : List Token), v.HasNumbers Number.ReadsBack →
    w.HasNumbers Number.ReadsBack → v.tokens ++ x = w.tokens ++ y → v = w ∧ x = y
  | .array items, w, x, y, hv, hw, h => by
    cases w with
    | array items' =>
      simp only [tokens, List.cons_append, List.append_assoc, List.nil_append, List.cons.injEq,
        true_and] at h
      obtain ⟨rfl, rfl⟩ := itemTokens_append_inj items items' x y hv hw h
      exact ⟨rfl, rfl⟩
    | _ => simp [tokens] at h
  | .object members, w, x, y, hv, hw, h => by
    cases w with
    | object members' =>
      simp only [tokens, List.cons_append, List.append_assoc, List.nil_append, List.cons.injEq,
        true_and] at h
      obtain ⟨rfl, rfl⟩ := memberTokens_append_inj members members' x y hv hw h
      exact ⟨rfl, rfl⟩
    | _ => simp [tokens] at h
  | .number n, w, x, y, hv, hw, h => by
    cases w with
    | number m =>
      have hv : n.reread = some n := hv
      have hw : m.reread = some m := hw
      simpa [tokens, hv, hw] using h
    | _ => simp [tokens] at h
  | .null, w, x, y, _, _, h => by cases w <;> simp_all [tokens]
  | .bool b, w, x, y, _, _, h => by cases w <;> simp_all [tokens]
  | .string s, w, x, y, _, _, h => by cases w <;> simp_all [tokens]

theorem itemTokens_append_inj : ∀ (vs ws : List Value) (x y : List Token),
    ItemsHaveNumbers Number.ReadsBack vs → ItemsHaveNumbers Number.ReadsBack ws →
    itemTokens vs ++ .closeArray :: x = itemTokens ws ++ .closeArray :: y → vs = ws ∧ x = y
  | [], [], x, y, _, _, h => by simpa [itemTokens] using h
  | [], w :: ws, x, y, _, _, h => by
    obtain ⟨t, ts, ht, hne⟩ := exists_tokens_eq w
    cases ws <;> simp [itemTokens, ht, hne.symm] at h
  | v :: vs, [], x, y, _, _, h => by
    obtain ⟨t, ts, ht, hne⟩ := exists_tokens_eq v
    cases vs <;> simp [itemTokens, ht, hne] at h
  | [v], [w], x, y, hv, hw, h => by
    obtain ⟨rfl, hx⟩ := tokens_append_inj v w _ _ hv.1 hw.1 h
    exact ⟨rfl, (List.cons.inj hx).2⟩
  | [v], w :: w' :: ws, x, y, hv, hw, h => by
    rw [itemTokens, itemTokens, List.append_assoc] at h
    · cases (tokens_append_inj v w _ _ hv.1 hw.1 h).2
    · nofun
  | v :: v' :: vs, [w], x, y, hv, hw, h => by
    rw [itemTokens, itemTokens, List.append_assoc] at h
    · cases (tokens_append_inj v w _ _ hv.1 hw.1 h).2
    · nofun
  | v :: v' :: vs, w :: w' :: ws, x, y, hv, hw, h => by
    have h' : v.tokens ++ .comma :: (itemTokens (v' :: vs) ++ .closeArray :: x) =
        w.tokens ++ .comma :: (itemTokens (w' :: ws) ++ .closeArray :: y) := by
      simpa [itemTokens] using h
    obtain ⟨rfl, hx⟩ := tokens_append_inj v w _ _ hv.1 hw.1 h'
    obtain ⟨hvs, rfl⟩ :=
      itemTokens_append_inj (v' :: vs) (w' :: ws) x y hv.2 hw.2 (List.cons.inj hx).2
    exact ⟨by rw [hvs], rfl⟩

theorem memberTokens_append_inj : ∀ (ms ns : List (String × Value)) (x y : List Token),
    MembersHaveNumbers Number.ReadsBack ms → MembersHaveNumbers Number.ReadsBack ns →
    memberTokens ms ++ .closeObject :: x = memberTokens ns ++ .closeObject :: y → ms = ns ∧ x = y
  | [], [], x, y, _, _, h => by simpa [memberTokens] using h
  | [], (k, v) :: ns, x, y, _, _, h => by cases ns <;> simp [memberTokens] at h
  | (k, v) :: ms, [], x, y, _, _, h => by cases ms <;> simp [memberTokens] at h
  | [(k, v)], [(l, w)], x, y, hv, hw, h => by
    simp only [memberTokens, List.cons_append, List.cons.injEq, Token.string.injEq,
      Option.some.injEq, true_and] at h
    obtain ⟨rfl, h⟩ := h
    obtain ⟨rfl, hx⟩ := tokens_append_inj v w _ _ hv.1 hw.1 h
    exact ⟨rfl, (List.cons.inj hx).2⟩
  | [(k, v)], (l, w) :: n :: ns, x, y, hv, hw, h => by
    simp only [memberTokens, List.cons_append, List.append_assoc, List.cons.injEq,
      Token.string.injEq, Option.some.injEq, true_and] at h
    cases (tokens_append_inj v w _ _ hv.1 hw.1 h.2).2
  | (k, v) :: m :: ms, [(l, w)], x, y, hv, hw, h => by
    simp only [memberTokens, List.cons_append, List.append_assoc, List.cons.injEq,
      Token.string.injEq, Option.some.injEq, true_and] at h
    cases (tokens_append_inj v w _ _ hv.1 hw.1 h.2).2
  | (k, v) :: m :: ms, (l, w) :: n :: ns, x, y, hv, hw, h => by
    have h' : k = l ∧ v.tokens ++ .comma :: (memberTokens (m :: ms) ++ .closeObject :: x) =
        w.tokens ++ .comma :: (memberTokens (n :: ns) ++ .closeObject :: y) := by
      simpa [memberTokens] using h
    obtain ⟨rfl, h'⟩ := h'
    obtain ⟨rfl, hx⟩ := tokens_append_inj v w _ _ hv.1 hw.1 h'
    obtain ⟨hms, rfl⟩ :=
      memberTokens_append_inj (m :: ms) (n :: ns) x y hv.2 hw.2 (List.cons.inj hx).2
    exact ⟨by rw [hms], rfl⟩

end

/-- **Different values are written differently**, if their numbers are read back. -/
theorem bytes_injective {v w : Value} (hv : v.HasNumbers Number.ReadsBack)
    (hw : w.HasNumbers Number.ReadsBack) (h : v.bytes = w.bytes) : v = w := by
  have htokens : v.tokens = w.tokens :=
    Option.some.inj ((Token.scan?_bytes v).symm.trans (h ▸ Token.scan?_bytes w))
  exact (tokens_append_inj v w [] [] hv hw (by simpa using htokens)).1

end Json.Value

/-! ### Graphs -/

namespace Graph

open Json (Value)

mutual

theorem hasNumbers_kind {p : Json.Number → Prop} : ∀ k : Kind, k.toValue.HasNumbers p
  | .reference targets => by
    have htargets : Value.ItemsHaveNumbers p (targets.map .string) := by
      induction targets with
      | nil => trivial
      | cons t ts ih => exact ⟨trivial, ih⟩
    exact ⟨trivial, htargets, trivial⟩
  | .list items => ⟨trivial, hasNumbers_kind items, trivial⟩
  | .object templates => ⟨trivial, hasNumbers_templates templates, trivial⟩
  | .string | .number | .boolean | .datetime | .richText => ⟨trivial, trivial⟩

theorem hasNumbers_templates {p : Json.Number → Prop} :
    ∀ ts : List Template, Value.ItemsHaveNumbers p (Template.toValues ts)
  | [] => trivial
  | ⟨_, fields⟩ :: r => ⟨⟨trivial, hasNumbers_fields fields, trivial⟩, hasNumbers_templates r⟩

theorem hasNumbers_fields {p : Json.Number → Prop} :
    ∀ fs : List Field, Value.ItemsHaveNumbers p (Field.toValues fs)
  | [] => trivial
  | ⟨_, kind, _, _⟩ :: r =>
    ⟨⟨trivial, hasNumbers_kind kind, trivial, trivial, trivial⟩, hasNumbers_fields r⟩

end

/-- There are no numbers in what is hashed. -/
theorem hasNumbers_collections (p : Json.Number → Prop) (cs : List Collection) :
    (collectionsValue cs).HasNumbers p := by
  have hoptional (s : Option String) : (Value.optionalString s).HasNumbers p := by
    cases s <;> trivial
  have hcollections : Value.ItemsHaveNumbers p (cs.map Collection.toValue) := by
    induction cs with
    | nil => trivial
    | cons c cs ih =>
      exact ⟨⟨trivial, trivial, hoptional _, hoptional _, trivial, hasNumbers_templates _, trivial⟩,
        ih⟩
  have hedges (es : List Edge) : Value.ItemsHaveNumbers p (es.map Edge.toValue) := by
    induction es with
    | nil => trivial
    | cons e es ih => exact ⟨⟨trivial, trivial, trivial, trivial⟩, ih⟩
  have hreverse (m : List (String × List Edge)) : Value.MembersHaveNumbers p
      (m.map fun x => (x.1, .array (x.2.map Edge.toValue))) := by
    induction m with
    | nil => trivial
    | cons x m ih => exact ⟨hedges x.2, ih⟩
  exact ⟨hcollections, hreverse _, trivial⟩

mutual

/-- **Different kinds are hashed as different values.** -/
theorem Kind.toValue_injective : ∀ {k l : Kind}, k.toValue = l.toValue → k = l
  | .reference targets, l, h => by
    cases l with
    | reference targets' =>
      have htargets : targets.map Value.string = targets'.map Value.string := by
        simpa [Kind.toValue] using h
      rw [List.map_injective_iff.mpr (fun _ _ => Value.string.inj) htargets]
    | _ => simp [Kind.toValue, Kind.label] at h
  | .list items, l, h => by
    cases l with
    | list items' =>
      have hitems : items.toValue = items'.toValue := by simpa [Kind.toValue] using h
      rw [Kind.toValue_injective hitems]
    | _ => simp [Kind.toValue, Kind.label] at h
  | .object templates, l, h => by
    cases l with
    | object templates' =>
      have htemplates : Template.toValues templates = Template.toValues templates' := by
        simpa [Kind.toValue] using h
      rw [Template.toValues_injective htemplates]
    | _ => simp [Kind.toValue, Kind.label] at h
  | .string, l, h | .number, l, h | .boolean, l, h | .datetime, l, h | .richText, l, h => by
    cases l <;> first | rfl | simp [Kind.toValue, Kind.label] at h

theorem Template.toValues_injective :
    ∀ {ts us : List Template}, Template.toValues ts = Template.toValues us → ts = us
  | [], [], _ => rfl
  | [], ⟨_, _⟩ :: _, h => by simp [Template.toValues] at h
  | ⟨_, _⟩ :: _, [], h => by simp [Template.toValues] at h
  | ⟨n, fs⟩ :: ts, ⟨m, gs⟩ :: us, h => by
    simp only [Template.toValues, List.cons.injEq, Value.object.injEq, Prod.mk.injEq, true_and,
      Value.string.injEq, Value.array.injEq, and_true] at h
    obtain ⟨⟨rfl, hfields⟩, hrest⟩ := h
    rw [Field.toValues_injective hfields, Template.toValues_injective hrest]

theorem Field.toValues_injective :
    ∀ {fs gs : List Field}, Field.toValues fs = Field.toValues gs → fs = gs
  | [], [], _ => rfl
  | [], ⟨_, _, _, _⟩ :: _, h => by simp [Field.toValues] at h
  | ⟨_, _, _, _⟩ :: _, [], h => by simp [Field.toValues] at h
  | ⟨n, k, r, i⟩ :: fs, ⟨m, l, r', i'⟩ :: gs, h => by
    simp only [Field.toValues, List.cons.injEq, Value.object.injEq, Prod.mk.injEq, true_and,
      Value.string.injEq, Value.bool.injEq, and_true] at h
    obtain ⟨⟨rfl, hkind, rfl, rfl⟩, hrest⟩ := h
    rw [Kind.toValue_injective hkind, Field.toValues_injective hrest]

end

theorem optionalString_injective {s t : Option String}
    (h : Value.optionalString s = Value.optionalString t) : s = t := by
  cases s <;> cases t <;> simp_all [Value.optionalString]

/-- The collection without its default order. -/
def Collection.plain (c : Collection) : Collection := { c with defaultSort := none }

/-- A pattern is hashed as its text. -/
theorem Collection.eq_of_toValue {c d : Collection} (h : c.toValue = d.toValue) :
    c.name = d.name ∧ c.path = d.path ∧ c.pattern.map (·.text) = d.pattern.map (·.text) ∧
      c.format = d.format ∧ c.strict = d.strict ∧ c.templates = d.templates := by
  simp only [Collection.toValue, Value.object.injEq, List.cons.injEq, Prod.mk.injEq, true_and,
    Value.string.injEq, Value.array.injEq, Value.bool.injEq, and_true] at h
  obtain ⟨hname, hpath, hpattern, hformat, hstrict, htemplates⟩ := h
  exact ⟨hname, hpath, optionalString_injective hpattern, optionalString_injective hformat, hstrict,
    Template.toValues_injective htemplates⟩

/-- Patterns that were read from the same text are the same. -/
theorem pattern_eq_of_text {p q : Option PathPattern}
    (hp : ∀ x ∈ p, Glob.parse? x.text = some x.glob)
    (hq : ∀ x ∈ q, Glob.parse? x.text = some x.glob)
    (h : p.map (·.text) = q.map (·.text)) : p = q := by
  match p, q with
  | none, none => rfl
  | none, some _ | some _, none => cases h
  | some ⟨text, glob⟩, some ⟨text', glob'⟩ =>
    obtain rfl : text = text' := Option.some.inj h
    have hglob : some glob = some glob' := (hp _ rfl).symm.trans (hq _ rfl)
    rw [Option.some.inj hglob]

/-- **Declared collections that are hashed alike differ in their default orders only.** -/
theorem Collection.plain_eq_of_toValue {c d : Collection} {names names' : List String}
    (hc : c.Declared names) (hd : d.Declared names') (h : c.toValue = d.toValue) :
    c.plain = d.plain := by
  obtain ⟨name, path, pattern, format, strict, order, templates⟩ := c
  obtain ⟨name', path', pattern', format', strict', order', templates'⟩ := d
  obtain ⟨rfl, rfl, htext, rfl, rfl, rfl⟩ := Collection.eq_of_toValue h
  obtain rfl : pattern = pattern' := pattern_eq_of_text hc.pattern hd.pattern htext
  rfl

/-- Default orders are not hashed. -/
theorem collectionsValue_plain (cs : List Collection) :
    collectionsValue (cs.map Collection.plain) = collectionsValue cs := by
  have hvalues : (cs.map Collection.plain).map Collection.toValue = cs.map Collection.toValue := by
    rw [List.map_map]
    rfl
  have hedges : reverseEdges (cs.map Collection.plain) = reverseEdges cs := by
    unfold reverseEdges
    rw [List.flatMap_map]
    rfl
  unfold collectionsValue
  rw [hvalues, hedges]

variable {g h : Graph}

/-- The hash tells the graphs apart. -/
def VersionsApart (g h : Graph) : Prop :=
  Sha256.hex (collectionsValue g.collections).bytes =
      Sha256.hex (collectionsValue h.collections).bytes →
    (collectionsValue g.collections).bytes = (collectionsValue h.collections).bytes

theorem map_toValue_eq_of_version (hversion : g.version = h.version) (hapart : VersionsApart g h) :
    g.collections.map Collection.toValue = h.collections.map Collection.toValue := by
  rw [g.version_eq, h.version_eq] at hversion
  have := Value.bytes_injective (hasNumbers_collections _ _) (hasNumbers_collections _ _)
    (hapart hversion)
  simp only [collectionsValue, Value.object.injEq, List.cons.injEq, Prod.mk.injEq, true_and,
    Value.array.injEq] at this
  exact this.1

/-- **Graphs of one version index alike**: each collection of one has its like in the other, by
which records have the same entries. -/
theorem exists_alike_of_version (hversion : g.version = h.version) (hapart : VersionsApart g h)
    {c : Collection} (hc : c ∈ g.collections) :
    ∃ d ∈ h.collections, d.name = c.name ∧
      ∀ (r : Record) (n : Generation), r.entries n c = r.entries n d := by
  have hmem : c.toValue ∈ h.collections.map Collection.toValue :=
    map_toValue_eq_of_version hversion hapart ▸ List.mem_map_of_mem hc
  obtain ⟨d, hd, hvalue⟩ := List.mem_map.mp hmem
  obtain ⟨hname, -, -, -, -, htemplates⟩ := Collection.eq_of_toValue hvalue
  refine ⟨d, hd, hname, fun r n => Record.entries_congr hname.symm ?_ r n⟩
  rw [Collection.sortableFields, Collection.sortableFields, htemplates]

/-- The graph without the default orders of its collections. -/
def plain (g : Graph) : Graph := ofCollections (g.collections.map Collection.plain)

theorem fingerprint_plain (cs : List Collection) :
    fingerprint (cs.map Collection.plain) = fingerprint cs := by
  rw [fingerprint, fingerprint, collectionsValue_plain]

theorem version_plain (g : Graph) : g.plain.version = g.version :=
  g.plain.version_eq.trans ((fingerprint_plain g.collections).trans g.version_eq.symm)

/-- **Graphs have one version if and only if they differ in their default orders only.** -/
theorem version_eq_iff (hg : g.IsCompiled) (hh : h.IsCompiled) (hapart : VersionsApart g h) :
    g.version = h.version ↔ g.plain = h.plain := by
  constructor
  · intro hversion
    have hlist {cs ds : List Collection} {names names' : List String}
        (hcs : ∀ c ∈ cs, c.Declared names) (hds : ∀ d ∈ ds, d.Declared names')
        (heq : cs.map Collection.toValue = ds.map Collection.toValue) :
        cs.map Collection.plain = ds.map Collection.plain := by
      induction cs generalizing ds with
      | nil =>
        rw [List.map_nil, List.nil_eq, List.map_eq_nil_iff] at heq
        rw [heq]
      | cons c cs ih =>
        cases ds with
        | nil => cases heq
        | cons d ds =>
          obtain ⟨hc, hcs⟩ := List.forall_mem_cons.mp hcs
          obtain ⟨hd, hds⟩ := List.forall_mem_cons.mp hds
          obtain ⟨hvalue, hrest⟩ := List.cons.inj heq
          rw [List.map_cons, List.map_cons, Collection.plain_eq_of_toValue hc hd hvalue,
            ih hcs hds hrest]
    rw [plain, plain, hlist hg.declared.2 hh.declared.2 (map_toValue_eq_of_version hversion hapart)]
  · intro hplain
    rw [← version_plain g, ← version_plain h, hplain]

end Graph

end ContentIndex
