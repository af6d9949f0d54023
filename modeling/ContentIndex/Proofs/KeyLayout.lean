import Mathlib.Algebra.Group.Nat.Defs
import ContentIndex.Index.Key
import ContentIndex.Index.Generations
import ContentIndex.Proofs.MapEntries
import ContentIndex.Proofs.PrefixRange
import ContentIndex.Proofs.Text

/-!
# The layout of keys

Generations are written with a fixed number of digits, so their prefixes are ordered like their
numbers and none is the start of another. Under the prefix of a generation the families of keys
start differently, and a key of a family tells the document that it belongs to.

## Main definitions

* `SortValue.skip`: what follows a sort value
* `Key.Owned`: the keys that belong to a document

## Main results

* `Key.eq_of_generationPrefix`: a key lies in at most one generation
* `Key.not_prefix_of_mem_rangesExcept`: what is removed lies outside of the generations that are
  kept
* `Key.sort_inj`, `Key.document_inj`, `Key.backlink_inj`: a key of a family tells its document
* `Key.Owned.unique`: **the keys that belong to a document belong to no other one**
-/

namespace ContentIndex

namespace Key

open Text (ZeroFree)

/-- A hexadecimal digit as a byte. -/
def hexByte (n : Nat) : UInt8 := UInt8.ofNat (Bytes.hexDigit n).toNat

theorem utf8EncodeChar_hexDigit : ∀ n < 16,
    String.utf8EncodeChar (Bytes.hexDigit n) = [hexByte n] := by decide

theorem hexByte_lt_hexByte : ∀ n < 16, ∀ m < n, hexByte m < hexByte n := by decide

/-- The last `n` digits of a number to a base, the most significant first. -/
def digits (base : Nat) : Nat → Nat → List Nat
  | 0, _ => []
  | n + 1, a => a / base ^ n % base :: digits base n a

@[simp] theorem length_digits (base n a : Nat) : (digits base n a).length = n := by
  induction n with
  | zero => rfl
  | succ n ih => simp [digits, ih]

theorem flatMap_hexChars (b : Bytes) :
    (Bytes.hexChars b).flatMap String.utf8EncodeChar =
      b.flatMap fun x => [hexByte (x.toNat / 16), hexByte (x.toNat % 16)] := by
  induction b with
  | nil => rfl
  | cons x r ih =>
    have hx := x.toNat_lt
    simp [Bytes.hexChars, ih, utf8EncodeChar_hexDigit (x.toNat / 16) (by omega),
      utf8EncodeChar_hexDigit (x.toNat % 16) (by omega)]

theorem generationDigits_eq (g : Generation) :
    generationDigits g = (digits 16 16 g.toNat).map hexByte := by
  have h (n k : Nat) : n / k % 256 / 16 = n / (k * 16) % 16 := by
    rw [← Nat.div_div_eq_div_mul]
    exact Nat.mod_mul_right_div_self (n / k) 16 16
  simp only [generationDigits, Bytes.ofText_eq_flatMap, Bytes.toHex, String.toList_ofList,
    flatMap_hexChars, SortValue.bigEndian, digits, List.map_cons, List.map_nil,
    List.flatMap_cons, List.flatMap_nil, List.cons_append, List.nil_append, List.append_nil]
  simp [UInt64.toNat_shiftRight, Nat.shiftRight_eq_div_pow, h]
  exact congrArg hexByte (by omega)

/-- The digits of a number are those of its remainder. -/
theorem digits_mod (base : Nat) {n m : Nat} (a : Nat) (h : n ≤ m) :
    digits base n (a % base ^ m) = digits base n a := by
  induction n with
  | zero => rfl
  | succ n ih =>
    have hd : a % base ^ m / base ^ n % base = a / base ^ n % base := by
      obtain ⟨k, rfl⟩ := Nat.exists_eq_add_of_le h
      rw [Nat.pow_add, Nat.pow_succ, Nat.mul_assoc, Nat.mod_mul_right_div_self,
        Nat.mod_mod_of_dvd _ (Nat.dvd_mul_right base _)]
    rw [digits, digits, hd, ih (by omega)]

/-- Numbers with the same number of digits are ordered like the bytes that stand for them, if those
are ordered like the digits. -/
theorem map_digits_lt {base : Nat} {f : Nat → UInt8} (hf : ∀ n < base, ∀ m < n, f m < f n)
    {n a b : Nat} (hb : b < base ^ n) (h : a < b) :
    (digits base n a).map f < (digits base n b).map f := by
  induction n generalizing a b with
  | zero =>
    rw [Nat.pow_zero] at hb
    omega
  | succ n ih =>
    have hbase : 0 < base := by
      rcases Nat.eq_zero_or_pos base with rfl | hpos
      · simp at hb
      · exact hpos
    have hpos : 0 < base ^ n := Nat.pow_pos hbase
    have hbn : b / base ^ n < base := by
      rw [Nat.div_lt_iff_lt_mul hpos, Nat.mul_comm, ← Nat.pow_succ]
      exact hb
    have hle : a / base ^ n ≤ b / base ^ n := Nat.div_le_div_right (by omega)
    simp only [digits, List.map_cons, List.cons_lt_cons_iff]
    rw [Nat.mod_eq_of_lt hbn, Nat.mod_eq_of_lt (by omega)]
    rcases Nat.lt_or_eq_of_le hle with hlt | heq
    · exact Or.inl (hf _ hbn _ hlt)
    · refine Or.inr ⟨by rw [heq], ?_⟩
      rw [← digits_mod base a (Nat.le_refl n), ← digits_mod base b (Nat.le_refl n)]
      refine ih (Nat.mod_lt _ hpos) ?_
      have ha := Nat.div_add_mod a (base ^ n)
      have hb := Nat.div_add_mod b (base ^ n)
      rw [heq] at ha
      omega

@[simp] theorem length_generationDigits (g : Generation) : (generationDigits g).length = 16 := by
  simp [generationDigits_eq]

theorem generationDigits_lt {g h : Generation} (hlt : g < h) :
    generationDigits g < generationDigits h := by
  rw [generationDigits_eq, generationDigits_eq]
  exact map_digits_lt hexByte_lt_hexByte h.toNat_lt (UInt64.lt_iff_toNat_lt.mp hlt)

theorem generationDigits_injective : Function.Injective generationDigits := by
  intro g h heq
  rcases Std.lt_trichotomy g h with hlt | rfl | hlt
  · exact absurd (heq ▸ generationDigits_lt hlt) Std.lt_irrefl
  · rfl
  · exact absurd (heq ▸ generationDigits_lt hlt) Std.lt_irrefl

/-! ### Prefixes of generations -/

theorem starts_generationPrefix (g : Generation) : generationsPrefix <+: generationPrefix g :=
  ⟨generationDigits g ++ Bytes.ofText "/", by simp [generationPrefix]⟩

@[simp] theorem length_generationPrefix (g : Generation) : (generationPrefix g).length = 20 := by
  have h₁ : generationsPrefix.length = 3 := by decide
  have h₂ : (Bytes.ofText "/").length = 1 := by decide
  simp [generationPrefix, h₁, h₂]

theorem generationPrefix_injective : Function.Injective generationPrefix := by
  intro g h heq
  simp only [generationPrefix, List.append_cancel_right_eq, List.append_cancel_left_eq] at heq
  exact generationDigits_injective heq

/-- A key lies in at most one generation. -/
theorem eq_of_generationPrefix {g h : Generation} {k : Bytes} (hg : generationPrefix g <+: k)
    (hh : generationPrefix h <+: k) : g = h := by
  have hp : generationPrefix g <+: generationPrefix h :=
    List.prefix_of_prefix_length_le hg hh (by simp)
  exact generationPrefix_injective (hp.eq_of_length (by simp))

theorem append_lt_append_left {p a b : Bytes} (h : a < b) : p ++ a < p ++ b := by
  induction p with
  | nil => exact h
  | cons c p ih => exact List.cons_lt_cons_iff.mpr (Or.inr ⟨rfl, ih⟩)

theorem append_lt_append {a b : Bytes} (hlen : a.length = b.length) (h : a < b) (x y : Bytes) :
    a ++ x < b ++ y := by
  induction a generalizing b with
  | nil =>
    cases b with
    | nil => exact absurd h Std.lt_irrefl
    | cons c b => simp at hlen
  | cons c a ih =>
    cases b with
    | nil => simp at hlen
    | cons d b =>
      rcases List.cons_lt_cons_iff.mp h with hc | ⟨rfl, hr⟩
      · exact List.cons_lt_cons_iff.mpr (Or.inl hc)
      · exact List.cons_lt_cons_iff.mpr (Or.inr ⟨rfl, ih (by simpa using hlen) hr⟩)

/-- The keys of a generation come before those of a greater one. -/
theorem lt_generationPrefix {g h : Generation} (hlt : g < h) {k : Bytes}
    (hk : generationPrefix g <+: k) : k < generationPrefix h := by
  obtain ⟨r, rfl⟩ := hk
  simp only [generationPrefix, List.append_assoc]
  exact append_lt_append_left (append_lt_append (by simp) (generationDigits_lt hlt) _ _)

theorem generationPrefix_le {g h : Generation} (hle : g ≤ h) :
    generationPrefix g ≤ generationPrefix h := by
  rcases Std.lt_trichotomy g h with hlt | rfl | hlt
  · exact Std.le_of_lt (lt_generationPrefix hlt (List.prefix_refl _))
  · exact Std.le_refl _
  · exact absurd hle (Std.not_le.mpr hlt)

/-- After the keys of a generation there is a least byte string, which comes before all greater
generations. -/
theorem exists_prefixSuccessor?_generationPrefix (g : Generation) :
    ∃ s, (generationPrefix g).prefixSuccessor? = some s ∧ generationPrefix g ≤ s ∧
      (∀ k, s ≤ k → ¬ generationPrefix g <+: k) ∧ ∀ h, g < h → s ≤ generationPrefix h := by
  rcases (generationPrefix g).prefixSuccessor?_cases with ⟨q, b, n, hp, hb, hs⟩ | ⟨n, hp, -⟩
  · have hlt : ∀ k, generationPrefix g <+: k → k < q ++ [b + 1] := fun k hk =>
      (Bytes.prefix_iff_le_and_lt hb |>.mp (hp ▸ hk)).2
    refine ⟨_, hs, Std.le_of_lt (hlt _ (List.prefix_refl _)), fun k hk hpre => ?_, fun h hh => ?_⟩
    · exact absurd hk (Std.not_le.mpr (hlt k hpre))
    · refine Std.not_lt.mp fun hsh => ?_
      have hpre : generationPrefix g <+: generationPrefix h := by
        rw [hp, Bytes.prefix_iff_le_and_lt hb, ← hp]
        exact ⟨generationPrefix_le (Std.le_of_lt hh), hsh⟩
      exact absurd (eq_of_generationPrefix hpre (List.prefix_refl _) ▸ hh) Std.lt_irrefl
  · have hmem : (110 : UInt8) ∈ generationPrefix g :=
      (starts_generationPrefix g).subset (by decide)
    rw [hp] at hmem
    exact absurd (List.eq_of_mem_replicate hmem) (by decide)

/-! ### Removal -/

/-- The gaps between generations begin at their start and leave the generations out. -/
theorem le_and_not_prefix_of_mem_gaps {keep : List Generation} (hsorted : keep.Pairwise (· < ·))
    {start : Bytes} (hstart : ∀ g ∈ keep, start ≤ generationPrefix g) {r : KeyRange}
    (hr : r ∈ Generation.gaps start keep) {k : Bytes} (hk : r.contains k) :
    start ≤ k ∧ ∀ g ∈ keep, ¬ generationPrefix g <+: k := by
  induction keep generalizing start with
  | nil =>
    rw [Generation.gaps, List.mem_singleton] at hr
    subst hr
    exact ⟨(KeyRange.contains_iff.mp hk).1, by simp⟩
  | cons g keep ih =>
    obtain ⟨hfirst, hrest⟩ := List.pairwise_cons.mp hsorted
    rcases List.mem_cons.mp hr with rfl | hr
    · obtain ⟨hle, hlt⟩ := KeyRange.contains_iff.mp hk
      have hlt : k < generationPrefix g := hlt _ rfl
      refine ⟨hle, fun h hh hpre => ?_⟩
      have hgh : generationPrefix g ≤ generationPrefix h := by
        rcases List.mem_cons.mp hh with rfl | hh
        · exact Std.le_refl _
        · exact generationPrefix_le (Std.le_of_lt (hfirst h hh))
      exact Std.lt_irrefl (Std.lt_of_lt_of_le (Std.lt_of_lt_of_le hlt hgh) hpre.le)
    · obtain ⟨s, hs, hgs, hnot, hnext⟩ := exists_prefixSuccessor?_generationPrefix g
      rw [hs, Option.getD_some] at hr
      obtain ⟨hsk, hk'⟩ := ih hrest (fun h hh => hnext h (hfirst h hh)) hr
      refine ⟨Std.le_trans (Std.le_trans (hstart g (List.mem_cons_self ..)) hgs) hsk, ?_⟩
      intro h hh
      rcases List.mem_cons.mp hh with rfl | hh
      · exact hnot k hsk
      · exact hk' h hh

/-- The gaps between generations hold keys of generations only. -/
theorem generationsPrefix_prefix_of_mem_gaps {keep : List Generation} {start : Bytes}
    (hsorted : keep.Pairwise (· < ·)) (hstart : ∀ g ∈ keep, start ≤ generationPrefix g)
    (hns : generationsPrefix ≤ start) {r : KeyRange} (hr : r ∈ Generation.gaps start keep)
    {k : Bytes} (hk : r.contains k) : generationsPrefix <+: k := by
  have hle := (le_and_not_prefix_of_mem_gaps hsorted hstart hr hk).1
  refine KeyRange.contains_ofPrefix_iff.mp (KeyRange.contains_iff.mpr ⟨Std.le_trans hns hle, ?_⟩)
  clear hle hns hstart hsorted
  induction keep generalizing start with
  | nil =>
    rw [Generation.gaps, List.mem_singleton] at hr
    subst hr
    exact (KeyRange.contains_iff.mp hk).2
  | cons g keep ih =>
    rcases List.mem_cons.mp hr with rfl | hr
    · intro stop hstop
      have hlt : k < generationPrefix g := (KeyRange.contains_iff.mp hk).2 _ rfl
      have hg := KeyRange.contains_ofPrefix_iff.mpr (starts_generationPrefix g)
      exact Std.lt_trans hlt ((KeyRange.contains_iff.mp hg).2 stop hstop)
    · exact ih hr

theorem pairwise_ascending (gs : List Generation) :
    (Generation.ascending gs).Pairwise (· < ·) := by
  rw [Generation.ascending, List.pairwise_map]
  exact Entries.sorted_ofList _

theorem mem_ascending {gs : List Generation} {g : Generation} (h : g ∈ gs) :
    g ∈ Generation.ascending gs := by
  obtain ⟨u, hu⟩ := Entries.exists_mem_ofList (List.mem_map_of_mem (f := fun g => (g, ())) h)
  exact List.mem_map_of_mem hu

/-- What is removed lies in a generation, and in none of those that are kept. -/
theorem not_prefix_of_mem_rangesExcept {keep : List Generation} {r : KeyRange}
    (hr : r ∈ Generation.rangesExcept keep) {k : Bytes} (hk : r.contains k) :
    generationsPrefix <+: k ∧ ∀ g ∈ keep, ¬ generationPrefix g <+: k := by
  have hsorted := pairwise_ascending keep
  have hstart : ∀ g ∈ Generation.ascending keep, generationsPrefix ≤ generationPrefix g :=
    fun g _ => (starts_generationPrefix g).le
  refine ⟨generationsPrefix_prefix_of_mem_gaps hsorted hstart (Std.le_refl _) hr hk,
    fun g hg => ?_⟩
  exact (le_and_not_prefix_of_mem_gaps hsorted hstart hr hk).2 g (mem_ascending hg)

/-! ### Keys outside of generations -/

theorem not_starts_active : ¬ generationsPrefix <+: Key.active.encode := by decide

theorem not_starts_lock : ¬ generationsPrefix <+: Key.lock.encode := by decide

theorem not_starts_counter : ¬ generationsPrefix <+: Key.counter.encode := by decide

/-! ### Families -/

/-- Before the first zero byte two equal strings agree. -/
theorem append_zero_inj {a b x y : Bytes} (ha : 0 ∉ a) (hb : 0 ∉ b)
    (h : a ++ 0 :: x = b ++ 0 :: y) : a = b ∧ x = y := by
  induction a generalizing b with
  | nil =>
    cases b with
    | nil => simpa using h
    | cons d b =>
      obtain ⟨rfl, -⟩ := List.cons.inj h
      simp at hb
  | cons c a ih =>
    cases b with
    | nil =>
      obtain ⟨rfl, -⟩ := List.cons.inj h
      simp at ha
    | cons d b =>
      obtain ⟨rfl, h'⟩ := List.cons.inj h
      obtain ⟨rfl, rfl⟩ := ih (fun hm => ha (List.mem_cons_of_mem _ hm))
        (fun hm => hb (List.mem_cons_of_mem _ hm)) h'
      exact ⟨rfl, rfl⟩

/-- After the last zero byte two equal strings agree. -/
theorem zero_append_inj {a b x y : Bytes} (hx : 0 ∉ x) (hy : 0 ∉ y)
    (h : a ++ 0 :: x = b ++ 0 :: y) : a = b ∧ x = y := by
  have hr := congrArg List.reverse h
  simp only [List.reverse_append, List.reverse_cons, List.append_assoc, List.cons_append,
    List.nil_append] at hr
  obtain ⟨h₁, h₂⟩ := append_zero_inj (by simpa using hx) (by simpa using hy) hr
  exact ⟨List.reverse_inj.mp h₂, List.reverse_inj.mp h₁⟩

theorem documentPrefix_append_inj {g : Generation} {c c' : String} {x y : Bytes} (hc : ZeroFree c)
    (hc' : ZeroFree c') (h : documentPrefix g c ++ x = documentPrefix g c' ++ y) :
    c = c' ∧ x = y := by
  simp only [documentPrefix, part, List.append_assoc, List.append_cancel_left_eq,
    List.cons_append, List.nil_append] at h
  obtain ⟨hcollection, hrest⟩ := append_zero_inj hc.zero_notMem hc'.zero_notMem h
  exact ⟨Bytes.ofText_inj.mp hcollection, hrest⟩

theorem document_inj {g : Generation} {c c' p p' : String} (hc : ZeroFree c) (hc' : ZeroFree c')
    (h : (document g c p).encode = (document g c' p').encode) : c = c' ∧ p = p' := by
  obtain ⟨hcollection, hpath⟩ := documentPrefix_append_inj hc hc' h
  exact ⟨hcollection, Bytes.ofText_inj.mp hpath⟩

/-- What comes before a source without zeros is told apart from it. -/
theorem sourceBytes_append_inj {a b : Bytes} {s s' : Backlink}
    (hs : ZeroFree s.collection ∧ ZeroFree s.path ∧ ZeroFree s.field)
    (hs' : ZeroFree s'.collection ∧ ZeroFree s'.path ∧ ZeroFree s'.field)
    (h : a ++ 0 :: sourceBytes s = b ++ 0 :: sourceBytes s') : a = b ∧ s = s' := by
  obtain ⟨sc, sp, sf⟩ := s
  obtain ⟨sc', sp', sf'⟩ := s'
  simp only [sourceBytes, part, List.append_assoc, List.cons_append, List.nil_append] at h
  simp only [← List.append_assoc, ← List.cons_append] at h
  obtain ⟨h, hf⟩ := zero_append_inj hs.2.2.zero_notMem hs'.2.2.zero_notMem h
  obtain ⟨h, hp⟩ := zero_append_inj hs.2.1.zero_notMem hs'.2.1.zero_notMem h
  obtain ⟨hab, hc⟩ := zero_append_inj hs.1.zero_notMem hs'.1.zero_notMem h
  simp only [Bytes.ofText_inj] at hf hp hc
  subst hf hp hc
  exact ⟨hab, rfl⟩

/-- The key of a reference ends with its source. -/
theorem encode_backlink (g : Generation) (c p : String) (s : Backlink) :
    (backlink g c p s).encode =
      (generationPrefix g ++ Bytes.ofText "ref/" ++ part c ++ Bytes.ofText p) ++
        0 :: sourceBytes s := by
  simp [encode, backlinkPrefix, part]

theorem backlink_inj {g : Generation} {c c' p p' : String} {s s' : Backlink}
    (hs : ZeroFree s.collection ∧ ZeroFree s.path ∧ ZeroFree s.field)
    (hs' : ZeroFree s'.collection ∧ ZeroFree s'.path ∧ ZeroFree s'.field)
    (h : (backlink g c p s).encode = (backlink g c' p' s').encode) : s = s' := by
  rw [encode_backlink, encode_backlink] at h
  exact (sourceBytes_append_inj hs hs' h).2

end Key

/-! ### Sort values -/

namespace SortValue

/-- What follows an escaped text. -/
def skipText : Bytes → Option Bytes
  | [] => none
  | b :: r =>
    if b = 0 then
      match r with
      | [] => none
      | c :: r => if c = 0x01 then some r else skipText r
    else skipText r

/-- What follows a sort value, which its lead byte tells. -/
def skip : Bytes → Option Bytes
  | [] => none
  | b :: r =>
    if b = missingTag then some r
    else if b = boolTag then some (r.drop 1)
    else if b = numberTag then some (r.drop 8)
    else skipText r

theorem skipText_escapeZeros (b x : Bytes) :
    skipText (escapeZeros b ++ 0x00 :: 0x01 :: x) = some x := by
  induction b with
  | nil => rfl
  | cons c b ih =>
    by_cases hc : c = 0
    · subst hc
      exact ih
    · rw [escapeZeros, if_neg hc, List.cons_append, skipText.eq_def]
      simpa [hc] using ih

/-- No sort value is the start of another. -/
theorem skip_encode_append (v : Option FieldValue) (x : Bytes) : skip (encode v ++ x) = some x := by
  match v with
  | none => rfl
  | some (.string s) => simp [encode, skip, textTag, missingTag, boolTag, numberTag,
      skipText_escapeZeros]
  | some (.datetime s) => simp [encode, skip, textTag, missingTag, boolTag, numberTag,
      skipText_escapeZeros]
  | some (.number n) => rfl
  | some (.boolean b) => rfl
  | some (.richText _) => rfl
  | some (.reference _) => rfl
  | some (.list _) => rfl
  | some (.object _ _) => rfl

theorem encode_append_inj {v w : Option FieldValue} {x y : Bytes}
    (h : encode v ++ x = encode w ++ y) : x = y := by
  have := skip_encode_append v x
  rw [h, skip_encode_append] at this
  exact (Option.some.inj this).symm

end SortValue

namespace Key

open Text (ZeroFree)

theorem sortBytes_append_inj {d : Bool} {v w : Option FieldValue} {x y : Bytes}
    (h : sortBytes d v ++ x = sortBytes d w ++ y) : x = y := by
  cases d with
  | false => exact SortValue.encode_append_inj h
  | true =>
    -- turned round again, the descending value is the ascending one
    have hnot (b : Bytes) : (b.map (~~~·)).map (~~~·) = b := by
      simp [List.map_map, Function.comp_def]
    have h' := congrArg (List.map (~~~·)) h
    simp only [sortBytes, if_true, List.map_append, hnot] at h'
    have := congrArg (List.map (~~~·)) (SortValue.encode_append_inj h')
    rwa [hnot, hnot] at this

theorem sortPrefix_append_inj {g : Generation} {c c' f f' : String} {d d' : Bool} {x y : Bytes}
    (hc : ZeroFree c) (hc' : ZeroFree c') (hf : ZeroFree f) (hf' : ZeroFree f')
    (h : sortPrefix g c f d ++ x = sortPrefix g c' f' d' ++ y) :
    (c = c' ∧ f = f') ∧ d = d' ∧ x = y := by
  simp only [sortPrefix, part, List.append_assoc, List.append_cancel_left_eq,
    List.cons_append, List.nil_append] at h
  obtain ⟨hcollection, h⟩ := append_zero_inj hc.zero_notMem hc'.zero_notMem h
  obtain ⟨hfield, h⟩ := append_zero_inj hf.zero_notMem hf'.zero_notMem h
  have hd : d = d' := by
    have ha : Bytes.ofText "a" = [97] := by decide
    have hd : Bytes.ofText "d" = [100] := by decide
    have := congrArg List.head? h
    cases d <;> cases d' <;> simp [ha, hd] at this ⊢
  subst hd
  exact ⟨⟨Bytes.ofText_inj.mp hcollection, Bytes.ofText_inj.mp hfield⟩, rfl,
    List.append_cancel_left h⟩

theorem sort_inj {g : Generation} {c c' f f' p p' : String} {d d' : Bool}
    {v v' : Option FieldValue} (hc : ZeroFree c) (hc' : ZeroFree c') (hf : ZeroFree f)
    (hf' : ZeroFree f') (h : (sort g c f d v p).encode = (sort g c' f' d' v' p').encode) :
    c = c' ∧ p = p' := by
  simp only [encode, List.append_assoc] at h
  obtain ⟨⟨hcollection, -⟩, rfl, h⟩ := sortPrefix_append_inj hc hc' hf hf' h
  exact ⟨hcollection, Bytes.ofText_inj.mp (sortBytes_append_inj h)⟩

/-! ### Keys of a document -/

/-- The keys that belong to a document in a generation. -/
inductive Owned (g : Generation) (c p : String) : Bytes → Prop
  /-- The key of its record. -/
  | document : Owned g c p (document g c p).encode
  /-- The key of its place in an order. -/
  | sort (f : String) (d : Bool) (v : Option FieldValue) (hf : ZeroFree f) :
    Owned g c p (sort g c f d v p).encode
  /-- The key of a reference from it. -/
  | backlink (c' p' f : String) (hf : ZeroFree f) : Owned g c p (backlink g c' p' ⟨c, p, f⟩).encode

/-- The families of keys of documents. -/
inductive Family
  | document
  | sort
  | backlink

/-- How the keys of a family begin. -/
def Family.start (g : Generation) : Family → Bytes
  | document => generationPrefix g ++ Bytes.ofText "doc/"
  | sort => generationPrefix g ++ Bytes.ofText "sort/"
  | backlink => generationPrefix g ++ Bytes.ofText "ref/"

variable {g : Generation}

theorem Family.starts_start (a : Family) : generationPrefix g <+: start g a := by
  cases a <;> exact List.prefix_append _ _

theorem document_starts (c p : String) : Family.start g .document <+: (document g c p).encode := by
  simp [Family.start, encode, documentPrefix, List.append_assoc]

theorem sort_starts (c f : String) (d : Bool) (v : Option FieldValue) (p : String) :
    Family.start g .sort <+: (sort g c f d v p).encode := by
  simp [Family.start, encode, sortPrefix, List.append_assoc]

theorem backlink_starts (c p : String) (s : Backlink) :
    Family.start g .backlink <+: (backlink g c p s).encode := by
  simp [Family.start, encode, backlinkPrefix, List.append_assoc]

/-- The first letter of a family. -/
def Family.letter : Family → UInt8
  | document => 100
  | sort => 115
  | backlink => 114

theorem Family.letter_injective : Function.Injective letter := by
  intro a b h
  cases a <;> cases b <;> first | rfl | exact absurd h (by decide)

/-- The letter of a family follows the prefix of the generation. -/
theorem Family.head?_of_start {a : Family} {k : Bytes} (ha : start g a <+: k) :
    (k.drop 20).head? = some a.letter := by
  obtain ⟨r, rfl⟩ := ha
  have hdrop (x : Bytes) : (generationPrefix g ++ x).drop 20 = x := by
    rw [List.drop_append_of_le_length (by simp), List.drop_of_length_le (by simp)]
    rfl
  cases a <;> simp only [start, List.append_assoc, hdrop] <;> rfl

/-- A key belongs to one family at most. -/
theorem Family.eq_of_start {a b : Family} {k l : Bytes} (ha : start g a <+: k)
    (hb : start g b <+: l) (h : k = l) : a = b := by
  subst h
  exact letter_injective (Option.some.inj ((head?_of_start ha).symm.trans (head?_of_start hb)))

theorem info_starts : generationPrefix g <+: (info g).encode := List.prefix_append _ _

/-- The information on a generation belongs to no document. -/
theorem not_start_info {a : Family} : ¬ Family.start g a <+: (info g).encode := by
  have h {x : Bytes} : ¬ x <+: Bytes.ofText "info" →
      ¬ generationPrefix g ++ x <+: generationPrefix g ++ Bytes.ofText "info" := fun h =>
    fun h' => h ((List.prefix_append_right_inj _).mp h')
  cases a with
  | document => exact h (by decide)
  | sort => exact h (by decide)
  | backlink => exact h (by decide)

namespace Owned

variable {c c' p p' : String} {k : Bytes}

/-- The family of a key that belongs to a document. -/
theorem exists_start (h : Owned g c p k) : ∃ a, Family.start g a <+: k := by
  cases h with
  | document => exact ⟨.document, document_starts c p⟩
  | sort f d v _ => exact ⟨.sort, sort_starts c f d v p⟩
  | backlink c' p' f _ => exact ⟨.backlink, backlink_starts c' p' _⟩

theorem starts (h : Owned g c p k) : generationPrefix g <+: k := by
  obtain ⟨a, ha⟩ := h.exists_start
  exact a.starts_start.trans ha

theorem ne_info (h : Owned g c p k) : k ≠ (info g).encode := by
  rintro rfl
  obtain ⟨a, ha⟩ := h.exists_start
  exact not_start_info ha

/-- **A key that belongs to a document belongs to no other one.** -/
theorem unique (hc : ZeroFree c) (hc' : ZeroFree c') (hp : ZeroFree p) (hp' : ZeroFree p')
    (h : Owned g c p k) (h' : Owned g c' p' k) : c = c' ∧ p = p' := by
  generalize hk : k = l at h'
  cases h with
  | document =>
    cases h' with
    | document => exact document_inj hc hc' hk
    | sort f d v _ => cases Family.eq_of_start (document_starts c p) (sort_starts c' f d v p') hk
    | backlink c₂ p₂ f _ =>
      cases Family.eq_of_start (document_starts c p) (backlink_starts c₂ p₂ _) hk
  | sort f d v hf =>
    cases h' with
    | document => cases Family.eq_of_start (sort_starts c f d v p) (document_starts c' p') hk
    | sort f' d' v' hf' => exact sort_inj hc hc' hf hf' hk
    | backlink c₂ p₂ f' _ =>
      cases Family.eq_of_start (sort_starts c f d v p) (backlink_starts c₂ p₂ _) hk
  | backlink c₁ p₁ f hf =>
    cases h' with
    | document => cases Family.eq_of_start (backlink_starts c₁ p₁ _) (document_starts c' p') hk
    | sort f' d v _ =>
      cases Family.eq_of_start (backlink_starts c₁ p₁ _) (sort_starts c' f' d v p') hk
    | backlink c₂ p₂ f' hf' =>
      have hs := backlink_inj ⟨hc, hp, hf⟩ ⟨hc', hp', hf'⟩ hk
      exact ⟨congrArg Backlink.collection hs, congrArg Backlink.path hs⟩

end Owned

end Key

end ContentIndex
