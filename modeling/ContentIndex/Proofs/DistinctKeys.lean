import ContentIndex.Proofs.CapitalNames
import ContentIndex.Proofs.KeyLayout

/-!
# Distinct keys

A key can be taken apart. Its generation has a fixed number of digits, and the letter after it tells
the family. Names and field paths end at a separator, which they do not hold themselves, and a sort
value has an end of its own. Only the path of the target of a reference may hold separators: what
stands behind it is read from the end of the key.

## Main definitions

* `Key.Proper`: keys of proper names
* `Key.Same`: keys with the same components
* `Key.generation?`, `Key.family?`: what a key belongs to

## Main results

* `Key.generationPrefix_prefix_iff`, `Key.start_prefix_iff`: the generation and the family of a key
  are told by how it begins
* `Key.same_of_encode_eq`: keys with the same bytes have the same components
* `Key.encode_eq_iff_and_prefix_iff`: **keys are told apart by their bytes, and the start of a
  generation, a collection or an order is that of its own keys only**
-/

namespace ContentIndex

namespace Text

/-- Names with dots between them. -/
def Dotted (s : String) : Prop := ∀ c ∈ s.toList, IsNameChar c ∨ c = '.'

instance (s : String) : Decidable (Dotted s) :=
  List.decidableBAll (fun c => IsNameChar c ∨ c = '.') s.toList

theorem Plain.zeroFree {s : String} (h : Plain s) : ZeroFree s := h.not_mem (by decide)

theorem Dotted.zeroFree {s : String} (h : Dotted s) : ZeroFree s := by
  intro hmem
  rcases h _ hmem with hname | hdot
  · exact absurd hname (by decide)
  · exact absurd hdot (by decide)

end Text

namespace Key

open Text (ZeroFree Plain Dotted)

/-- The names in a key are proper ones, and the path of the document that it belongs to has no zero
in it. The path of the target of a reference may be any. -/
def Proper : Key → Prop
  | active | lock | counter | info _ => True
  | document _ c p => Plain c ∧ ZeroFree p
  | sort _ c f _ _ p => Plain c ∧ Dotted f ∧ ZeroFree p
  | backlink _ c _ s => Plain c ∧ Plain s.collection ∧ ZeroFree s.path ∧ Dotted s.field

/-- The keys are of one family and have the same components; sort values are the same if their bytes
are. -/
inductive Same : Key → Key → Prop
  | refl (k : Key) : Same k k
  | sort {g : Generation} {c f p : String} {d : Bool} {v w : Option FieldValue}
    (h : SortValue.encode v = SortValue.encode w) : Same (sort g c f d v p) (sort g c f d w p)

/-- The generation that a key belongs to. -/
def generation? : Key → Option Generation
  | active | lock | counter => none
  | info g | document g _ _ | sort g _ _ _ _ _ | backlink g _ _ _ => some g

/-- The family of a key that belongs to a document. -/
def family? : Key → Option Family
  | document _ _ _ => some .document
  | sort _ _ _ _ _ _ => some .sort
  | backlink _ _ _ _ => some .backlink
  | _ => none

variable {k l : Key} {g : Generation}

/-! ### Generations and families -/

/-- The prefix of a generation is the start of its keys and of no others. -/
theorem generationPrefix_prefix_iff :
    generationPrefix g <+: k.encode ↔ k.generation? = some g := by
  have hstarts : ∀ h, k.generation? = some h → generationPrefix h <+: k.encode := by
    intro h heq
    cases k with
    | active | lock | counter => cases heq
    | info => cases heq; exact info_starts
    | document _ c p =>
      cases heq
      exact (Family.starts_start .document).trans (document_starts c p)
    | sort _ c f d v p =>
      cases heq
      exact (Family.starts_start .sort).trans (sort_starts c f d v p)
    | backlink _ c p s =>
      cases heq
      exact (Family.starts_start .backlink).trans (backlink_starts c p s)
  refine ⟨fun hg => ?_, hstarts g⟩
  have houter : generationsPrefix <+: k.encode := (starts_generationPrefix g).trans hg
  cases hk : k.generation? with
  | some h => rw [eq_of_generationPrefix hg (hstarts h hk)]
  | none =>
    cases k with
    | active => exact absurd houter not_starts_active
    | lock => exact absurd houter not_starts_lock
    | counter => exact absurd houter not_starts_counter
    | info | document | sort | backlink => cases hk

/-- The start of a family in a generation is that of its keys and of no others. -/
theorem start_prefix_iff {a : Family} :
    Family.start g a <+: k.encode ↔ k.generation? = some g ∧ k.family? = some a := by
  constructor
  · intro h
    have hg : k.generation? = some g := generationPrefix_prefix_iff.mp (a.starts_start.trans h)
    refine ⟨hg, ?_⟩
    cases k with
    | active | lock | counter => cases hg
    | info => cases hg; exact absurd h not_start_info
    | document _ c p => cases hg; rw [Family.eq_of_start h (document_starts c p) rfl]; rfl
    | sort _ c f d v p => cases hg; rw [Family.eq_of_start h (sort_starts c f d v p) rfl]; rfl
    | backlink _ c p s => cases hg; rw [Family.eq_of_start h (backlink_starts c p s) rfl]; rfl
  · rintro ⟨hg, ha⟩
    cases k with
    | active | lock | counter | info => cases ha
    | document _ c p => cases hg; cases ha; exact document_starts c p
    | sort _ c f d v p => cases hg; cases ha; exact sort_starts c f d v p
    | backlink _ c p s => cases hg; cases ha; exact backlink_starts c p s

/-- Keys with the same bytes belong to one generation and are of one family. -/
theorem generation?_eq_and_family?_eq (h : k.encode = l.encode) :
    k.generation? = l.generation? ∧ k.family? = l.family? := by
  have hgeneration : k.generation? = l.generation? := Option.ext fun g => by
    rw [← generationPrefix_prefix_iff, ← generationPrefix_prefix_iff, h]
  refine ⟨hgeneration, ?_⟩
  cases hg : k.generation? with
  | none =>
    -- keys outside of generations are of no family
    have hnone : ∀ {k : Key}, k.generation? = none → k.family? = none := by
      intro k hk
      cases k with
      | active | lock | counter => rfl
      | info | document | sort | backlink => cases hk
    rw [hnone hg, hnone (hgeneration ▸ hg)]
  | some g =>
    refine Option.ext fun a => ?_
    have hiff := start_prefix_iff (k := k) (g := g) (a := a)
    rw [h, start_prefix_iff, ← hgeneration, hg] at hiff
    simpa using hiff.symm

/-! ### Components -/

theorem sortBytes_inj {d : Bool} {v w : Option FieldValue} (h : sortBytes d v = sortBytes d w) :
    SortValue.encode v = SortValue.encode w := by
  cases d with
  | false => exact h
  | true =>
    have hinj : Function.Injective fun b : UInt8 => ~~~b :=
      Function.LeftInverse.injective (g := fun b => ~~~b) fun b => UInt8.not_not
    exact hinj.list_map h

/-- The target and the source of a reference are told by its key. -/
theorem backlink_encode_inj {c c' p p' : String} {s s' : Backlink} (hc : ZeroFree c)
    (hc' : ZeroFree c')
    (hs : ZeroFree s.collection ∧ ZeroFree s.path ∧ ZeroFree s.field)
    (hs' : ZeroFree s'.collection ∧ ZeroFree s'.path ∧ ZeroFree s'.field)
    (h : (backlink g c p s).encode = (backlink g c' p' s').encode) :
    (c = c' ∧ p = p') ∧ s = s' := by
  rw [encode_backlink, encode_backlink] at h
  obtain ⟨htarget, hsource⟩ := sourceBytes_append_inj hs hs' h
  simp only [part, List.append_assoc, List.append_cancel_left_eq, List.cons_append,
    List.nil_append] at htarget
  obtain ⟨hcollection, hpath⟩ := append_zero_inj hc.zero_notMem hc'.zero_notMem htarget
  exact ⟨⟨Bytes.ofText_inj.mp hcollection, Bytes.ofText_inj.mp hpath⟩, hsource⟩

theorem Same.encode_eq (h : Same k l) : k.encode = l.encode := by
  cases h with
  | refl => rfl
  | sort h => simp only [encode, sortBytes, h]

/-- Keys with the same bytes have the same components. -/
theorem same_of_encode_eq (hk : k.Proper) (hl : l.Proper) (h : k.encode = l.encode) :
    Same k l := by
  obtain ⟨hgeneration, hfamily⟩ := generation?_eq_and_family?_eq h
  cases k with
  | active =>
    cases l with
    | active => exact .refl _
    | lock | counter => exact absurd h (by decide)
    | info | document | sort | backlink => cases hgeneration
  | lock =>
    cases l with
    | lock => exact .refl _
    | active | counter => exact absurd h (by decide)
    | info | document | sort | backlink => cases hgeneration
  | counter =>
    cases l with
    | counter => exact .refl _
    | active | lock => exact absurd h (by decide)
    | info | document | sort | backlink => cases hgeneration
  | info g =>
    cases l with
    | info g' => cases hgeneration; exact .refl _
    | active | lock | counter => cases hgeneration
    | document | sort | backlink => cases hfamily
  | document g c p =>
    cases l with
    | document g' c' p' =>
      cases hgeneration
      obtain ⟨rfl, rfl⟩ := document_inj hk.1.zeroFree hl.1.zeroFree h
      exact .refl _
    | active | lock | counter => cases hgeneration
    | info | sort | backlink => cases hfamily
  | sort g c f d v p =>
    cases l with
    | sort g' c' f' d' v' p' =>
      cases hgeneration
      simp only [encode, List.append_assoc] at h
      obtain ⟨⟨rfl, rfl⟩, rfl, h⟩ := sortPrefix_append_inj hk.1.zeroFree hl.1.zeroFree
        hk.2.1.zeroFree hl.2.1.zeroFree h
      have hpath := sortBytes_append_inj h
      obtain rfl := Bytes.ofText_inj.mp hpath
      exact .sort (sortBytes_inj (List.append_cancel_right h))
    | active | lock | counter => cases hgeneration
    | info | document | backlink => cases hfamily
  | backlink g c p s =>
    cases l with
    | backlink g' c' p' s' =>
      cases hgeneration
      obtain ⟨hc, hsc, hsp, hsf⟩ := hk
      obtain ⟨hc', hsc', hsp', hsf'⟩ := hl
      obtain ⟨⟨rfl, rfl⟩, rfl⟩ := backlink_encode_inj hc.zeroFree hc'.zeroFree
        ⟨hsc.zeroFree, hsp, hsf.zeroFree⟩ ⟨hsc'.zeroFree, hsp', hsf'.zeroFree⟩ h
      exact .refl _
    | active | lock | counter => cases hgeneration
    | info | document | sort => cases hfamily

/-! ### Collections and orders -/

/-- The prefix of a collection is the start of the keys of its documents. -/
theorem documentPrefix_prefix_iff {c : String} (hk : k.Proper) (hc : Plain c) :
    documentPrefix g c <+: k.encode ↔ ∃ p, k = document g c p := by
  constructor
  · intro h
    have hstart : Family.start g .document <+: k.encode :=
      List.IsPrefix.trans (by simp [Family.start, documentPrefix]) h
    obtain ⟨hg, ha⟩ := start_prefix_iff.mp hstart
    cases k with
    | document g' c' p =>
      cases hg
      obtain ⟨x, hx⟩ := h
      obtain ⟨rfl, -⟩ := documentPrefix_append_inj hc.zeroFree hk.1.zeroFree hx
      exact ⟨p, rfl⟩
    | active | lock | counter | info | sort | backlink => cases ha
  · rintro ⟨p, rfl⟩
    exact List.prefix_append _ _

/-- The prefix of an order is the start of the keys of its entries. -/
theorem sortPrefix_prefix_iff {c f : String} {d : Bool} (hk : k.Proper) (hc : Plain c)
    (hf : Dotted f) : sortPrefix g c f d <+: k.encode ↔ ∃ v p, k = sort g c f d v p := by
  constructor
  · intro h
    have hstart : Family.start g .sort <+: k.encode :=
      List.IsPrefix.trans (by simp [Family.start, sortPrefix]) h
    obtain ⟨hg, ha⟩ := start_prefix_iff.mp hstart
    cases k with
    | sort g' c' f' d' v p =>
      cases hg
      obtain ⟨x, hx⟩ := h
      rw [encode, List.append_assoc] at hx
      obtain ⟨⟨rfl, rfl⟩, rfl, -⟩ := sortPrefix_append_inj hc.zeroFree hk.1.zeroFree hf.zeroFree
        hk.2.1.zeroFree hx
      exact ⟨v, p, rfl⟩
    | active | lock | counter | info | document | backlink => cases ha
  · rintro ⟨v, p, rfl⟩
    rw [encode, List.append_assoc]
    exact List.prefix_append _ _

/-- **Keys are told apart by their bytes, and the start of a generation, a collection or an order is
that of its own keys only.** Two keys with the same bytes are of one family, and have the same
components but for sort values with the same bytes. The prefix of a generation is the start of
exactly the keys of that generation, that of a collection of exactly the keys of its documents, and
that of an order of exactly the keys of its entries. -/
theorem encode_eq_iff_and_prefix_iff (hk : k.Proper) (hl : l.Proper) :
    (k.encode = l.encode ↔ Same k l) ∧
    (∀ g, generationPrefix g <+: k.encode ↔ k.generation? = some g) ∧
    (∀ g c, Plain c → (documentPrefix g c <+: k.encode ↔ ∃ p, k = document g c p)) ∧
    ∀ g c f d, Plain c → Dotted f →
      (sortPrefix g c f d <+: k.encode ↔ ∃ v p, k = sort g c f d v p) :=
  ⟨⟨same_of_encode_eq hk hl, Same.encode_eq⟩, fun _ => generationPrefix_prefix_iff,
    fun _ _ hc => documentPrefix_prefix_iff hk hc,
    fun _ _ _ _ hc hf => sortPrefix_prefix_iff hk hc hf⟩

/-- A target whose path goes on after a separator like the source of another reference: one key
begins like the references to the target of the other one, and yet they are different keys. -/
theorem encode_eq_iff_and_prefix_iff_target :
    (backlink 1 "a" "x\x00b" ⟨"b", "p", "f"⟩).Proper ∧
    (backlink 1 "a" "x" ⟨"b", "p", "f"⟩).Proper ∧
    backlinkPrefix 1 "a" "x" <+: (backlink 1 "a" "x\x00b" ⟨"b", "p", "f"⟩).encode ∧
    (backlink 1 "a" "x\x00b" ⟨"b", "p", "f"⟩).encode ≠
      (backlink 1 "a" "x" ⟨"b", "p", "f"⟩).encode ∧
    generationPrefix 1 <+: (backlink 1 "a" "x\x00b" ⟨"b", "p", "f"⟩).encode ∧
    ¬ documentPrefix 1 "a" <+: (backlink 1 "a" "x\x00b" ⟨"b", "p", "f"⟩).encode ∧
    ¬ sortPrefix 1 "a" "f.g" true <+: (backlink 1 "a" "x\x00b" ⟨"b", "p", "f"⟩).encode := by
  have hk : (backlink 1 "a" "x\x00b" ⟨"b", "p", "f"⟩).Proper := by unfold Proper; decide
  have hl : (backlink 1 "a" "x" ⟨"b", "p", "f"⟩).Proper := by unfold Proper; decide
  obtain ⟨hsame, hgeneration, hdocument, hsort⟩ := encode_eq_iff_and_prefix_iff hk hl
  refine ⟨hk, hl, by decide, fun h => ?_, (hgeneration 1).mpr rfl, fun h => ?_, fun h => ?_⟩
  · replace h := hsame.mp h
    generalize hpath : "x\x00b" = path at h
    cases h
    exact absurd hpath (by decide)
  · obtain ⟨p, hp⟩ := (hdocument 1 "a" (by decide)).mp h
    cases hp
  · obtain ⟨v, p, hp⟩ := (hsort 1 "a" "f.g" true (by decide) (by decide)).mp h
    cases hp

end Key

end ContentIndex
