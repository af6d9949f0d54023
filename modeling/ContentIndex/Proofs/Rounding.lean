import ContentIndex.Proofs.ExactDoubles
import ContentIndex.Proofs.Remarks

/-!
# Rounded numbers

A whole number is stored as the nearest double, and a warning tells if that is another number. The
number is compared as it was read, not as it was written. One that does not fit 64 bits has been read as
a double already, so nothing is noted about it, even if it was rounded.

## Main definitions

* `Json.Script.at?`: what is written at a position of a document
* `DecimalLiteral.wholeValue`: the number that a sign and digits stand for

## Main results

* `Json.Script.IsText.at?_eq`: what is at a position of a document was written there
* `Json.Number.read?_whole`: how whole numbers are read
* `Graph.Collection.rounded_iff`: what is noted about a number
* `Graph.Collection.rounded_iff_inexact`: **whole numbers of 64 bits are not rounded without a warning**
-/

namespace ContentIndex

open Json (Value Script Step Position)

-- powers as in the core library, whichever other modules are read
attribute [local instance (2000)] instPowNat

/-! ### Written positions -/

namespace Json

/-- What is written at the position; of several members of one name the last counts. -/
def Script.at? : Position → Script → Option Script
  | [], s => some s
  | .member name :: p, .object members => (members.reverse.find? (·.1 = name)).bind fun m => m.2.at? p
  | .item i :: p, .array items => items[i]?.bind (at? p)
  | _ :: _, _ => none

theorem Value.canonicalItems_eq (items : List Value) :
    canonicalItems items = items.map canonical := by
  induction items with
  | nil => rfl
  | cons v items ih => rw [canonicalItems, ih, List.map_cons]

theorem Value.canonicalMembers_eq (members : List (String × Value)) :
    canonicalMembers members = members.map fun m => (m.1, m.2.canonical) := by
  induction members with
  | nil => rfl
  | cons m members ih =>
    obtain ⟨name, v⟩ := m
    rw [canonicalMembers, ih, List.map_cons]

namespace Script

theorem forall₂_of_itemValues? {items : List Script} {depth : Nat} {vs : List Value}
    (h : Draft.itemValues? (itemEchoes depth items) = some vs) :
    List.Forall₂ (fun s v => (s.echo depth).value? = some v) items vs := by
  induction items generalizing vs with
  | nil =>
    cases h
    exact .nil
  | cons s items ih =>
    rw [itemEchoes, Draft.itemValues?] at h
    obtain ⟨v, hv, h⟩ := Option.bind_eq_some_iff.mp h
    obtain ⟨rest, hrest, h⟩ := Option.bind_eq_some_iff.mp h
    cases h
    exact .cons hv (ih hrest)

theorem forall₂_of_memberValues? {members : List (String × Script)} {depth : Nat}
    {ms : List (String × Value)} (h : Draft.memberValues? (memberEchoes depth members) = some ms) :
    List.Forall₂ (fun s m => s.1 = m.1 ∧ (s.2.echo depth).value? = some m.2) members ms := by
  induction members generalizing ms with
  | nil =>
    cases h
    exact .nil
  | cons s members ih =>
    obtain ⟨name, s⟩ := s
    rw [memberEchoes, Draft.memberValues?] at h
    obtain ⟨_, ⟨⟩, h⟩ := Option.bind_eq_some_iff.mp h
    obtain ⟨v, hv, h⟩ := Option.bind_eq_some_iff.mp h
    obtain ⟨rest, hrest, h⟩ := Option.bind_eq_some_iff.mp h
    cases h
    exact .cons ⟨rfl, hv⟩ (ih hrest)

/-- Of pairs that are related by their names, the first of a name are related. -/
theorem exists_find?_of_forall₂ {α β : Type} {P : α → β → Prop} {l : List (String × α)}
    {m : List (String × β)} (h : List.Forall₂ (fun x y => x.1 = y.1 ∧ P x.2 y.2) l m) {name : String}
    {x : String × α} (hx : l.find? (·.1 = name) = some x) :
    ∃ y, m.find? (·.1 = name) = some y ∧ P x.2 y.2 := by
  induction h with
  | nil => cases hx
  | @cons a b l m hab _ ih =>
    by_cases hname : a.1 = name
    · rw [List.find?_cons_of_pos (by simpa using hname)] at hx
      cases hx
      exact ⟨b, List.find?_cons_of_pos (by simpa [← hab.1] using hname), hab.2⟩
    · rw [List.find?_cons_of_neg (by simpa using hname)] at hx
      obtain ⟨y, hy, hP⟩ := ih hx
      exact ⟨y, by rwa [List.find?_cons_of_neg (by simpa [← hab.1] using hname)], hP⟩

/-- What is read of a script is found where it was written. -/
theorem at?_canonical {s t : Script} {depth : Nat} {v : Value} {p : Position}
    (hv : (s.echo depth).value? = some v) (ht : s.at? p = some t) :
    ∃ u depth', (t.echo depth').value? = some u ∧ v.canonical.at? p = some u.canonical := by
  induction p generalizing s depth v with
  | nil =>
    cases ht
    exact ⟨v, depth, hv, rfl⟩
  | cons step p ih =>
    cases step with
    | member name =>
      cases s with
      | object members =>
        rw [echo] at hv
        split at hv
        · rw [Draft.value?] at hv
          obtain ⟨ms, hms, rfl⟩ := Option.map_eq_some_iff.mp hv
          obtain ⟨m, hm, ht⟩ := Option.bind_eq_some_iff.mp ht
          -- of several members of the name, the last one is written and the last one is read
          have hlast := List.forall₂_reverse_iff.mpr (forall₂_of_memberValues? hms)
          obtain ⟨y, hy, hvalue⟩ := exists_find?_of_forall₂
            (P := fun s v => (s.echo (depth + 1)).value? = some v) hlast hm
          obtain ⟨u, depth', hu, hat⟩ := ih hvalue ht
          refine ⟨u, depth', hu, ?_⟩
          rw [Value.canonical, Value.at?, Entries.find?_ofList, Value.canonicalMembers_eq,
            ← List.map_reverse, List.find?_map]
          show ((Option.map _ (ms.reverse.find? (·.1 = name))).map _).bind _ = _
          rw [hy]
          exact hat
        · cases hv
      | _ => cases ht
    | item i =>
      cases s with
      | array items =>
        rw [echo] at hv
        split at hv
        · rw [Draft.value?] at hv
          obtain ⟨vs, hvs, rfl⟩ := Option.map_eq_some_iff.mp hv
          obtain ⟨s, hs, ht⟩ := Option.bind_eq_some_iff.mp ht
          have hitems := forall₂_of_itemValues? hvs
          obtain ⟨hi, rfl⟩ := List.getElem?_eq_some_iff.mp hs
          have hi' : i < vs.length := hitems.length_eq ▸ hi
          have hvalue := hitems.get (i := i) hi hi'
          obtain ⟨u, depth', hu, hat⟩ := ih hvalue ht
          refine ⟨u, depth', hu, ?_⟩
          rw [Value.canonical, Value.at?, Value.canonicalItems_eq, List.getElem?_map,
            List.getElem?_eq_getElem hi']
          exact hat
        · cases hv
      | _ => cases ht

/-- **What is at a position of a document was written there.** -/
theorem IsText.at?_eq {s t : Script} {text : List Char} {v : Value} {p : Position}
    (hs : s.IsText text) (hv : Value.parse? text = some v) (ht : s.at? p = some t) :
    ∃ u depth, (t.echo depth).value? = some u ∧ v.at? p = some u.canonical := by
  obtain ⟨w, hw, rfl⟩ := Option.map_eq_some_iff.mp hv
  rw [Value.document?, hs.document?_eq] at hw
  exact at?_canonical hw ht

end Script

end Json

/-! ### Whole numbers -/

namespace DecimalLiteral

/-- The number of a sign and digits. -/
def wholeValue (negative : Bool) (ds : List Char) : Int :=
  if negative then -(digitsValue ds : Int) else digitsValue ds

theorem le_foldl_digits (n : Nat) (ds : List Char) :
    n ≤ ds.foldl (fun n c => n * 10 + digitValue c) n := by
  induction ds generalizing n with
  | nil => exact Nat.le_refl n
  | cons c ds ih => exact Nat.le_trans (by omega) (ih (n * 10 + digitValue c))

/-- Digits of a number that fits are all taken. -/
theorem takeFitting_eq {n : Nat} {ds : List Char}
    (h : ds.foldl (fun n c => n * 10 + digitValue c) n < 2 ^ (64 : Nat)) :
    takeFitting n ds = (ds.foldl (fun n c => n * 10 + digitValue c) n, []) := by
  induction ds generalizing n with
  | nil => rfl
  | cons c ds ih =>
    have hle := le_foldl_digits (n * 10 + digitValue c) ds
    rw [List.foldl_cons] at h ⊢
    rw [takeFitting, if_pos (Nat.lt_of_le_of_lt hle h), ih h]

/-- Zero is read as a zero. -/
theorem rank_of_scaled?_zero {sign : Option Char} {ds : List Char} (h : digitsValue ds = 0)
    {x : Binary64} (hx : scaled? ⟨sign, ds, none, none⟩ = some x) : x.rank = 0 := by
  have htake : takeFitting 0 ds = (0, []) := by
    have hfold : ds.foldl (fun n c => n * 10 + digitValue c) 0 = 0 := h
    have hfits : ds.foldl (fun n c => n * 10 + digitValue c) 0 < 2 ^ (64 : Nat) := by
      rw [hfold]
      exact Nat.two_pow_pos 64
    rw [takeFitting_eq hfits, hfold]
  have hnone : takeFitting 0 [] = (0, []) := rfl
  have hzero : Binary64.ofFraction false 0 1 = Binary64.zero := by decide +kernel
  unfold scaled? at hx
  simp only [htake, fractionDigits, Option.getD_none, hnone, hzero] at hx
  rw [if_neg (by simp), if_pos (by decide)] at hx
  -- either zero is left, and both have the same rank
  cases hx
  split <;> decide

end DecimalLiteral

namespace Json.Number

open DecimalLiteral (text wholeValue)

theorem exists_of_ofInt? {i : Int} {n : Number} (h : ofInt? i = some n) : ∃ fits, n = .int i fits := by
  unfold ofInt? at h
  split at h
  · next fits =>
    cases h
    exact ⟨fits, rfl⟩
  · cases h

theorem ofInt?_eq {i : Int} (fits : -2 ^ (63 : Nat) ≤ i ∧ i < 2 ^ (64 : Nat)) :
    ofInt? i = some (.int i fits) :=
  dif_pos fits

/-- **How whole numbers are read**: as whole numbers if they fit 64 bits, and as doubles otherwise. The
negative zero is a double, too. -/
theorem read?_whole {negative : Bool} {ds : List Char} {n : Number} (hdigits : ∀ d ∈ ds, d.isDigit)
    (h : read? (text negative ds none none) = some n) :
    (∃ fits, n = .int (wholeValue negative ds) fits) ∨
      ∃ x finite, n = .float x finite ∧
        (-2 ^ (63 : Nat) ≤ wholeValue negative ds ∧ wholeValue negative ds < 2 ^ (64 : Nat) →
          wholeValue negative ds = 0 ∧ x.rank = 0) := by
  obtain ⟨l, hl, hread⟩ := Option.bind_eq_some_iff.mp h
  have hne : ds ≠ [] := by
    rintro rfl
    cases negative <;> cases hl
  obtain ⟨hsplit, -⟩ := exists_of_literal? hl
  have hparts : DecimalLiteral.split? (text negative ds none none) =
      some ⟨if negative then some '-' else none, ds, none, none⟩ :=
    DecimalLiteral.split?_text (e := none) hdigits hne nofun rfl
  cases hparts.symm.trans hsplit
  have hnegative : DecimalLiteral.isNegative ⟨if negative then some '-' else none, ds, none, none⟩ =
      negative := by
    cases negative <;> rfl
  have hdouble {x : Option Binary64} {n : Number} (hx : x.bind ofFloat? = some n) :
      ∃ x' finite, n = .float x' finite ∧ x = some x' := by
    obtain ⟨x', rfl, hfloat⟩ := Option.bind_eq_some_iff.mp hx
    unfold ofFloat? at hfloat
    split at hfloat
    · next finite =>
      cases hfloat
      exact ⟨x', finite, rfl, rfl⟩
    · cases hfloat
  unfold ofLiteral? at hread
  simp only [hnegative, DecimalLiteral.isWhole, Option.isNone_none, Bool.and_self, true_and] at hread
  -- a whole number is tried first, unless it is the negative zero
  split at hread
  · split at hread
    · next m hint =>
      obtain rfl : m = n := Option.some.inj hread
      exact Or.inl (exists_of_ofInt? hint)
    · next hint =>
      obtain ⟨x, finite, rfl, -⟩ := hdouble hread
      refine Or.inr ⟨x, finite, rfl, fun fits => ?_⟩
      exact absurd (ofInt?_eq fits) (hint _)
  · next hminus =>
    obtain ⟨x, finite, rfl, hx⟩ := hdouble hread
    rw [not_not] at hminus
    obtain ⟨rfl, hzero⟩ := hminus
    have hdigitsValue : digitsValue ds = 0 := Int.natCast_eq_zero.mp hzero
    refine Or.inr ⟨x, finite, rfl, fun _ => ⟨?_, DecimalLiteral.rank_of_scaled?_zero hdigitsValue hx⟩⟩
    rw [wholeValue, hdigitsValue]
    rfl

end Json.Number

/-- A finite double is a whole number if its rank is that of the number. -/
theorem Binary64.toInt?_eq_some_iff {x : Binary64} {i : Int} (hx : x.isFinite) :
    x.toInt? = some i ↔ x.rank = i * scale := by
  refine ⟨rank_of_toInt?, fun hrank => ?_⟩
  obtain ⟨n, hpower⟩ : ∃ n : Nat, scale = 2 ^ n := ⟨1074, by rw [scale]⟩
  have hscale : (scale : Int) ≠ 0 :=
    Int.natCast_ne_zero.mpr (hpower ▸ (Nat.two_pow_pos n).ne')
  -- the units are those of the number without its sign
  obtain ⟨j, hj, hsign⟩ : ∃ j : Int, (x.units : Int) = j * scale ∧
      (if x.isNegative then -j else j) = i := by
    rw [rank] at hrank
    split at hrank
    · next hnegative =>
      refine ⟨-i, ?_, by rw [if_pos hnegative, Int.neg_neg]⟩
      rw [Int.neg_mul, ← hrank, Int.neg_neg]
    · next hpositive => exact ⟨i, hrank, if_neg hpositive⟩
  have hwhole : x.units % scale = 0 :=
    Nat.mod_eq_zero_of_dvd (Int.natCast_dvd_natCast.mp ⟨j, by rw [hj, Int.mul_comm]⟩)
  have hquotient : (x.units : Int) / scale = j := by rw [hj, Int.mul_ediv_cancel j hscale]
  rw [toInt?, hx, hwhole, ← hsign, ← hquotient]
  rfl

/-! ### Numbers of documents -/

theorem Document.parse?_of_parse {bodyField file text : String} {content : Bytes}
    {ms : List (String × Value)} (hformat : DocumentFormat.ofPath? file = some .json)
    (htext : content.text? = some text) (h : parse bodyField file content = .ok ms) :
    Value.parse? text.toList = some (.object ms) := by
  rw [parse, hformat, htext] at h
  have hmembers : members bodyField text.toList .json = .ok ms := eq_ok_of_mapError h
  rw [members] at hmembers
  split at hmembers
  · next v hv =>
    unfold object at hmembers
    split at hmembers
    · cases hmembers
      exact hv
    · cases hmembers
  · cases hmembers

namespace Graph

section Documents

variable {G : Graph} {c : Collection} {policy : TemplatePolicy} {path contentHash : String}
  {document w : Value} {r : Record} {ws : List Warning} {p : Position}

/-- **What is noted about a number**: that it was rounded, if it was read as a whole number and the
nearest double is another one. -/
theorem Collection.rounded_iff (hG : G.IsCompiled) (hc : c ∈ G.collections)
    (hdocument : document.IsCanonical)
    (h : c.record G policy path contentHash document = .ok (r, ws))
    (hfield : c.Reads policy document p .number w) :
    ∃ n, w = .number n ∧ r.at? p = some (.number n.toFloat) ∧
      ((∃ written stored, .rounded (locate "" p) written stored ∈ ws) ↔
        ∃ i fits, n = .int i fits ∧ (Binary64.ofInt i).toInt? ≠ some i) := by
  have haccepts := accepts_of_record hG hc hdocument h
  obtain ⟨x, hx, hstores⟩ := haccepts.keeps p _ w hfield
  cases hstores with
  | number n =>
    refine ⟨n, rfl, hx, ?_, ?_⟩
    · rintro ⟨written, stored, hwarned⟩
      obtain ⟨⟨q, remark⟩, hremark, hwarning⟩ := haccepts.tells.accounts.exists_of_mem hwarned
      obtain ⟨p', k', v', q', hreads, hprompts, heq⟩ := hremark
      cases hprompts with
      | dropped => cases hwarning
      | @rounded i fits inexact =>
        -- the warning names a number at the same location, so it is the same number
        obtain rfl : q = p' := heq.trans (List.append_nil p')
        obtain ⟨hlocation, -⟩ := Warning.rounded.inj hwarning
        have hkind : (Kind.object c.templates).Declared (G.collections.map (·.name)) :=
          ⟨(hG.declared.2 c hc).union, (hG.declared.2 c hc).templates⟩
        obtain rfl := hreads.eq_of_locate hkind hfield hlocation
        obtain ⟨-, hnumber⟩ := hreads.unique hfield
        exact ⟨i, fits, (Value.number.inj hnumber).symm, inexact⟩
    · rintro ⟨i, fits, rfl, inexact⟩
      have hremark : (p, .rounded (.number (.int i fits)) (.ofInt i)) ∈
          (Kind.object c.templates).Remarks policy document :=
        ⟨p, .number, _, [], hfield, .rounded inexact, (List.append_nil p).symm⟩
      exact ⟨_, _, haccepts.tells.accounts.mem hremark⟩

/-- **Whole numbers of 64 bits are not rounded without a warning.** What is stored for a whole number
in a JSON text is finite. If the number fits 64 bits, then it is noted that it was rounded, if and only
if the double is another number: the rank of a double counts multiples of the smallest one. About a
number that does not fit nothing is noted. -/
theorem Collection.rounded_iff_inexact (hG : G.IsCompiled) (hc : c ∈ G.collections)
    {bodyField file text : String} {content : Bytes} {ms : List (String × Value)} {s : Script}
    {negative : Bool} {ds : List Char} (hformat : DocumentFormat.ofPath? file = some .json)
    (htext : content.text? = some text) (hparse : Document.parse bodyField file content = .ok ms)
    (hs : s.IsText text.toList) (hdigits : ∀ d ∈ ds, d.isDigit)
    (hliteral : s.at? p = some (.number (DecimalLiteral.text negative ds none none)))
    (hfield : c.Reads policy (.object ms) p .number w)
    (h : c.record G policy path contentHash (.object ms) = .ok (r, ws)) :
    ∃ x, r.at? p = some (.number x) ∧ x.isFinite ∧
      (-2 ^ (63 : Nat) ≤ DecimalLiteral.wholeValue negative ds ∧
          DecimalLiteral.wholeValue negative ds < 2 ^ (64 : Nat) →
        ((∃ written stored, .rounded (locate "" p) written stored ∈ ws) ↔
          x.rank ≠ DecimalLiteral.wholeValue negative ds * Binary64.scale)) ∧
      (¬(-2 ^ (63 : Nat) ≤ DecimalLiteral.wholeValue negative ds ∧
          DecimalLiteral.wholeValue negative ds < 2 ^ (64 : Nat)) →
        ∀ written stored, .rounded (locate "" p) written stored ∉ ws) := by
  have hread := Document.parse?_of_parse hformat htext hparse
  obtain ⟨n, rfl, hstored, hwarned⟩ :=
    rounded_iff hG hc (Document.isCanonical_of_parse hparse) h hfield
  -- the number of the field was read from the literal
  have hnumber : Json.Number.read? (DecimalLiteral.text negative ds none none) = some n := by
    obtain ⟨u, depth, hu, hat⟩ := hs.at?_eq hread hliteral
    rw [Script.echo] at hu
    cases hn : Json.Number.read? (DecimalLiteral.text negative ds none none) with
    | none =>
      rw [hn] at hu
      cases hu
    | some m =>
      rw [hn] at hu
      cases hu
      exact congrArg some (Value.number.inj (Option.some.inj (hat.symm.trans hfield.at?)))
  have hfloat {x : Binary64} {finite : x.isFinite} (hn : n = .float x finite) :
      ∀ written stored, .rounded (locate "" p) written stored ∉ ws := by
    intro written stored hmem
    obtain ⟨i, fits, hint, -⟩ := hwarned.mp ⟨written, stored, hmem⟩
    cases hn.symm.trans hint
  refine ⟨n.toFloat, hstored, toFloat_isFinite n, fun hfits => ?_, fun hfits => ?_⟩
  · rcases Json.Number.read?_whole hdigits hnumber with ⟨fits, rfl⟩ | ⟨x, finite, rfl, hzero⟩
    · rw [hwarned, ne_eq, ← Binary64.toInt?_eq_some_iff (toFloat_isFinite _)]
      constructor
      · rintro ⟨i, fits', hint, inexact⟩
        cases hint
        exact inexact
      · intro inexact
        exact ⟨_, fits, rfl, inexact⟩
    · -- the negative zero is read as a double, and is exact
      obtain ⟨hvalue, hrank⟩ := hzero hfits
      refine iff_of_false ?_ ?_
      · rintro ⟨written, stored, hmem⟩
        exact hfloat rfl written stored hmem
      · rw [hvalue, Int.zero_mul]
        exact not_not.mpr hrank
  · rcases Json.Number.read?_whole hdigits hnumber with ⟨fits, rfl⟩ | ⟨x, finite, rfl, -⟩
    · exact absurd fits hfits
    · exact hfloat rfl

/-- A post with a rank beyond 64 bits. -/
def hugePost : String := "\x7b\"body\":\"hi\",\"rank\":18446744073709551617\x7d"

/-- The rank is stored as another number, and nothing is noted about that. -/
theorem Collection.exists_rounded_hugePost : ∃ ms r x,
    Document.parse "text" "posts/a.json" (Bytes.ofText hugePost) = .ok ms ∧
      board.record (ofCollections [board]) .bestFit "posts/a.json" "" (.object ms) = .ok (r, []) ∧
      r.at? [.member "rank"] = some (.number x) ∧ x.rank ≠ 18446744073709551617 * Binary64.scale := by
  have hparse : Document.parse "text" "posts/a.json" (Bytes.ofText hugePost) =
      .ok [("body", .string "hi"), ("rank", .number (.float ⟨0x43F0000000000000⟩ (by decide)))] := by
    refine eq_ok_of_toOption ?_
    decide +kernel
  exact ⟨_, ⟨"posts", "posts/a.json", "text",
    [("body", .string "hi"), ("rank", .number ⟨0x43F0000000000000⟩)], ""⟩, _, hparse, rfl, rfl,
    by decide +kernel⟩

/-- A post with a rank that is no double. -/
def roundedPost : List (String × Value) :=
  [("body", .string "hi"), ("rank", .number (.int 9007199254740993 (by decide)))]

/-- If the rank is rounded, that is noted. -/
theorem Collection.rounded_iff_inexact_roundedPost : ∃ r ws x,
    board.record (ofCollections [board]) .bestFit "posts/a.json" "" (.object roundedPost) =
        .ok (r, ws) ∧
      r.at? [.member "rank"] = some (.number x) ∧
      ((∃ written stored, .rounded "rank" written stored ∈ ws) ↔
        x.rank ≠ 9007199254740993 * Binary64.scale) := by
  have hformat : DocumentFormat.ofPath? "posts/a.json" = some .json := by rfl
  have hparse : Document.parse "text" "posts/a.json" (Value.object roundedPost).bytes =
      .ok roundedPost := by
    refine eq_ok_of_toOption ?_
    decide +kernel
  have htext : (Value.object roundedPost).script.IsText (Value.object roundedPost).compact.toList := by
    rw [Value.compact, String.toList_ofList]
    exact Value.isText_script _
  have hliteral : (Value.object roundedPost).script.at? [.member "rank"] =
      some (.number (DecimalLiteral.text false (Nat.toDigits 10 9007199254740993) none none)) := by
    show some (Script.number (Json.Number.chars (.int 9007199254740993 _))) = _
    rw [Json.Number.chars_int]
    rfl
  have hfield : board.Reads .bestFit (.object roundedPost) [.member "rank"] .number
      (.number (.int 9007199254740993 (by decide))) := by
    have hchosen : selectTemplate .bestFit board.templates roundedPost = .ok board.templates[0] := by
      decide +kernel
    exact .member hchosen rfl rfl rfl (.here _ _)
  have hmade : (board.record (ofCollections [board]) .bestFit "posts/a.json" ""
      (.object roundedPost)).isOk := by
    decide +kernel
  cases h : board.record (ofCollections [board]) .bestFit "posts/a.json" "" (.object roundedPost) with
  | error skip =>
    rw [h] at hmade
    cases hmade
  | ok made =>
    obtain ⟨r, ws⟩ := made
    obtain ⟨x, hx, -, hnoted, -⟩ := rounded_iff_inexact board_compiled (List.mem_singleton_self board)
      hformat (Bytes.text?_ofText _) hparse htext (fun d => isDigit_of_mem_toDigits) hliteral hfield h
    have hvalue : DecimalLiteral.wholeValue false (Nat.toDigits 10 9007199254740993) =
        9007199254740993 := by
      rw [DecimalLiteral.wholeValue, digitsValue_toDigits]
      rfl
    rw [hvalue] at hnoted
    exact ⟨r, ws, x, rfl, hx, hnoted (by decide)⟩

end Documents

end Graph

end ContentIndex
