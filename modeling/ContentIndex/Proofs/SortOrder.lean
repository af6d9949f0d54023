import ContentIndex.Proofs.KeyLayout
import ContentIndex.Proofs.Ranges
import ContentIndex.Query.Listing
import ContentIndex.Query.Filter
import Mathlib.Order.Monotone.Basic

/-!
# The order of sort values

The bytes of a sort value are ordered like the value, and none is the start of another one. So two
keys of an order differ first in their values, and in their paths only if the values are the same.
With all bits of the values inverted the order of the values is turned round, and that of the paths
is not.

## Main definitions

* `FieldValue.scalar?`, `ScalarLess`: what is sorted, and its order
* `SortOrder.Precedes`: the order of records that a request asks for
* `Listing.suffix`: what the key of a record has after the start of an order

## Main results

* `SortValue.encode_lt_iff`: **the bytes of values are ordered like the values**
* `Listing.before_suffix_iff`: **the keys of an order are ordered like the records**
-/

namespace ContentIndex

/-! ### Byte strings that part -/

namespace Bytes

variable {a b : Bytes}

/-- Neither byte string is the start of the other one. -/
def Apart (a b : Bytes) : Prop := ¬ a <+: b ∧ ¬ b <+: a

theorem Apart.symm (h : Apart a b) : Apart b a := ⟨h.2, h.1⟩

/-- Such byte strings part at some byte. -/
theorem Apart.exists_split (h : Apart a b) : ∃ p x y a' b', x ≠ y ∧ a = p ++ x :: a' ∧
    b = p ++ y :: b' := by
  induction a generalizing b with
  | nil => exact absurd (List.nil_prefix) h.1
  | cons x a ih =>
    cases b with
    | nil => exact absurd (List.nil_prefix) h.2
    | cons y b =>
      by_cases hxy : x = y
      · subst hxy
        have htail : Apart a b := by
          simpa [Apart, List.cons_prefix_cons] using h
        obtain ⟨p, x', y', a', b', hne, rfl, rfl⟩ := ih htail
        exact ⟨x :: p, x', y', a', b', hne, rfl, rfl⟩
      · exact ⟨[], x, y, a, b, hxy, rfl, rfl⟩

/-- Where they part decides. -/
theorem append_cons_lt_iff {p a' b' : Bytes} {x y : UInt8} (hxy : x ≠ y) :
    p ++ x :: a' < p ++ y :: b' ↔ x < y := by
  induction p with
  | nil => simp [List.cons_lt_cons_iff, hxy]
  | cons z p ih => simpa [List.cons_lt_cons_iff, Std.lt_irrefl] using ih

theorem append_lt_append_left_iff {p : Bytes} : p ++ a < p ++ b ↔ a < b := by
  induction p with
  | nil => exact Iff.rfl
  | cons z p ih => simpa [List.cons_lt_cons_iff, Std.lt_irrefl] using ih

/-- What follows does not matter. -/
theorem Apart.append_lt_append_iff (h : Apart a b) (u v : Bytes) : a ++ u < b ++ v ↔ a < b := by
  obtain ⟨p, x, y, a', b', hxy, rfl, rfl⟩ := h.exists_split
  rw [List.append_assoc, List.append_assoc, List.cons_append, List.cons_append,
    append_cons_lt_iff hxy, append_cons_lt_iff hxy]

theorem not_lt_not_iff : ∀ x y : UInt8, ~~~x < ~~~y ↔ y < x := by
  intro x y
  rw [UInt8.lt_iff_toNat_lt, UInt8.lt_iff_toNat_lt]
  have hx := x.toNat_lt
  have hy := y.toNat_lt
  simp
  omega

/-- With all bits inverted they come the other way round. -/
theorem Apart.map_not (h : Apart a b) :
    Apart (a.map (~~~·)) (b.map (~~~·)) ∧ (a.map (~~~·) < b.map (~~~·) ↔ b < a) := by
  obtain ⟨p, x, y, a', b', hxy, rfl, rfl⟩ := h.exists_split
  have hne : ~~~x ≠ ~~~y := fun h => hxy (by simpa using congrArg (~~~·) h)
  refine ⟨?_, ?_⟩
  · simp [Apart, List.prefix_append_right_inj, List.cons_prefix_cons, hne, hne.symm]
  · rw [List.map_append, List.map_append, List.map_cons, List.map_cons, append_cons_lt_iff hne,
      append_cons_lt_iff hxy.symm, not_lt_not_iff]

end Bytes

/-! ### Numbers -/

namespace Binary64

/-- The size of a double with the given magnitude. -/
def unitsOf (m : Nat) : Nat :=
  (if m / hidden = 0 then m else hidden + m % hidden) * 2 ^ (m / hidden - 1)

/-- Greater magnitudes are those of greater numbers. -/
theorem unitsOf_strictMono : StrictMono unitsOf := by
  intro m m' hlt
  have hpos : 0 < hidden := by decide
  have hsplit := Nat.div_add_mod m hidden
  have hsplit' := Nat.div_add_mod m' hidden
  have hmod := Nat.mod_lt m hpos
  have hmod' := Nat.mod_lt m' hpos
  rcases Nat.lt_or_eq_of_le (Nat.div_le_div_right (c := hidden) (Nat.le_of_lt hlt)) with he | he
  · -- with a greater exponent, even the least significand is greater
    have hbelow : unitsOf m < hidden * 2 ^ (m / hidden) := by
      unfold unitsOf
      generalize m / hidden = e at hsplit
      cases e with
      | zero =>
        rw [Nat.mul_zero, Nat.zero_add] at hsplit
        rw [if_pos rfl, Nat.zero_sub, Nat.pow_zero, Nat.mul_one, Nat.mul_one, ← hsplit]
        exact hmod
      | succ e =>
        rw [if_neg (Nat.succ_ne_zero e), Nat.succ_sub_one, Nat.pow_succ, ← Nat.mul_assoc,
          Nat.mul_right_comm]
        refine Nat.mul_lt_mul_of_pos_right ?_ (Nat.two_pow_pos e)
        omega
    have habove : hidden * 2 ^ (m' / hidden - 1) ≤ unitsOf m' := by
      unfold unitsOf
      rw [if_neg (Nat.ne_zero_of_lt he)]
      exact Nat.mul_le_mul_right _ (Nat.le_add_right ..)
    have hpow : 2 ^ (m / hidden) ≤ 2 ^ (m' / hidden - 1) :=
      Nat.pow_le_pow_right (by decide) (Nat.le_sub_one_of_lt he)
    exact Nat.lt_of_lt_of_le hbelow (Nat.le_trans (Nat.mul_le_mul_left _ hpow) habove)
  · have hrest : m % hidden < m' % hidden := by
      rw [he] at hsplit
      omega
    unfold unitsOf
    rw [he]
    refine Nat.mul_lt_mul_of_pos_right ?_ (Nat.two_pow_pos _)
    split
    · exact hlt
    · omega

theorem magnitude_lt (x : Binary64) : x.magnitude < 2 ^ 63 :=
  Nat.mod_lt _ (by decide)

/-- The bits of a double in its order, as a number. -/
theorem toNat_orderedBits (x : Binary64) : (SortValue.orderedBits x).toNat =
    if x.magnitude = 0 then 2 ^ 63
    else if x.isNegative then 2 ^ 63 - 1 - x.magnitude
    else 2 ^ 63 + x.magnitude := by
  have hbits := x.bits.toNat_lt
  by_cases hzero : x.magnitude = 0
  · rw [if_pos hzero, SortValue.orderedBits, isZero, if_pos (decide_eq_true hzero)]
    rfl
  · rw [if_neg hzero, SortValue.orderedBits, isZero, if_neg (by simpa using hzero)]
    by_cases hneg : 2 ^ 63 ≤ x.bits.toNat
    · have hmagnitude : x.magnitude = x.bits.toNat - 2 ^ 63 := by
        unfold magnitude
        omega
      rw [isNegative, if_pos (decide_eq_true hneg), if_pos (decide_eq_true hneg), UInt64.toNat_not,
        UInt64.size]
      omega
    · have hmagnitude : x.magnitude = x.bits.toNat := Nat.mod_eq_of_lt (by omega)
      have hpositive : ¬ decide (2 ^ 63 ≤ x.bits.toNat) = true := by simpa using hneg
      rw [isNegative, if_neg hpositive, if_neg hpositive, UInt64.toNat_or, hmagnitude, Nat.or_comm]
      exact (Nat.two_pow_add_eq_or_of_lt (i := 63) (by omega) 1).symm

/-- Two doubles compare like their signed magnitudes. -/
theorem units_facts (x y : Binary64) :
    (x.units < y.units ↔ x.magnitude < y.magnitude) ∧
      (x.units = y.units ↔ x.magnitude = y.magnitude) ∧
      (x.units = 0 ↔ x.magnitude = 0) ∧ (y.units = 0 ↔ y.magnitude = 0) := by
  have hzero (m : Nat) : unitsOf m = 0 ↔ m = 0 := unitsOf_strictMono.injective.eq_iff (b := 0)
  exact ⟨unitsOf_strictMono.lt_iff_lt, unitsOf_strictMono.injective.eq_iff, hzero _, hzero _⟩

/-- The bits of doubles in their order are ordered like the doubles. -/
theorem orderedBits_lt {x y : Binary64} (h : x.rank < y.rank) :
    SortValue.orderedBits x < SortValue.orderedBits y := by
  rw [UInt64.lt_iff_toNat_lt, toNat_orderedBits, toNat_orderedBits]
  obtain ⟨hlt, heq, hx, hy⟩ := units_facts x y
  have hxm := x.magnitude_lt
  have hym := y.magnitude_lt
  unfold rank at h
  generalize x.isNegative = negative, y.isNegative = negative' at h ⊢
  cases negative <;> cases negative' <;>
    simp only [Bool.false_eq_true, if_true, if_false] at h ⊢ <;> split <;> split <;> omega

/-- Doubles of one size, as both zeros are, have the same bits there. -/
theorem orderedBits_eq {x y : Binary64} (h : x.rank = y.rank) :
    SortValue.orderedBits x = SortValue.orderedBits y := by
  rw [← UInt64.toNat_inj, toNat_orderedBits, toNat_orderedBits]
  obtain ⟨hlt, heq, hx, hy⟩ := units_facts x y
  have hxm := x.magnitude_lt
  have hym := y.magnitude_lt
  unfold rank at h
  generalize x.isNegative = negative, y.isNegative = negative' at h ⊢
  cases negative <;> cases negative' <;>
    simp only [Bool.false_eq_true, if_true, if_false] at h ⊢ <;> split <;> split <;> omega

end Binary64

/-! ### Values -/

namespace SortValue

theorem bigEndian_eq (w : UInt64) :
    bigEndian w = (Key.digits 256 8 w.toNat).map UInt8.ofNat := by
  simp only [bigEndian, Key.digits, List.map_cons, List.map_nil]
  simp [← UInt8.toNat_inj, UInt64.toNat_shiftRight, Nat.shiftRight_eq_div_pow]

/-- Words are ordered like their bytes. -/
theorem bigEndian_lt {v w : UInt64} (h : v < w) : bigEndian v < bigEndian w := by
  rw [bigEndian_eq, bigEndian_eq]
  refine Key.map_digits_lt (fun n hn m hm => ?_) w.toNat_lt (UInt64.lt_iff_toNat_lt.mp h)
  rw [UInt8.lt_iff_toNat_lt, UInt8.toNat_ofNat', UInt8.toNat_ofNat']
  omega

/-- Texts are ordered like their bytes with zeros escaped, up to the end that is marked. -/
theorem escapeZeros_lt {s t : Bytes} (h : s < t) :
    escapeZeros s ++ [0x00, 0x01] < escapeZeros t ++ [0x00, 0x01] := by
  induction s generalizing t with
  | nil =>
    cases t with
    | nil => exact absurd h Std.lt_irrefl
    | cons b t =>
      -- the end comes before a zero that is escaped, and before everything else
      by_cases hb : b = 0
      · subst hb
        simp [escapeZeros, List.cons_lt_cons_iff]
      · have : 0 < b := UInt8.pos_iff_ne_zero.mpr hb
        simp [escapeZeros, hb, List.cons_lt_cons_iff, this]
  | cons a s ih =>
    cases t with
    | nil => exact absurd h (List.not_lt_nil _)
    | cons b t =>
      rcases List.cons_lt_cons_iff.mp h with hlt | ⟨rfl, hrest⟩
      · have hb : b ≠ 0 := by
          rintro rfl
          simp at hlt
        by_cases ha : a = 0
        · subst ha
          simp [escapeZeros, hb, List.cons_lt_cons_iff, hlt]
        · simp [escapeZeros, ha, hb, List.cons_lt_cons_iff, hlt]
      · have := ih hrest
        by_cases ha : a = 0
        · subst ha
          simpa [escapeZeros, List.cons_lt_cons_iff] using this
        · simpa [escapeZeros, ha, List.cons_lt_cons_iff] using this

end SortValue

/-- What a field value is sorted as; what is no scalar is not sorted. -/
def FieldValue.scalar? : FieldValue → Option Operand
  | .boolean b => some (.boolean b)
  | .number x => some (.number x)
  | .string s | .datetime s => some (.text s)
  | _ => none

/-- The order of scalars that may be missing: what is missing comes first, and then false, true,
numbers by their size, and texts by their bytes. -/
inductive ScalarLess : Option Operand → Option Operand → Prop
  | missing (v : Operand) : ScalarLess none (some v)
  | boolean : ScalarLess (some (.boolean false)) (some (.boolean true))
  | number {x y : Binary64} (h : x.rank < y.rank) :
    ScalarLess (some (.number x)) (some (.number y))
  | text {s t : String} (h : Bytes.ofText s < Bytes.ofText t) :
    ScalarLess (some (.text s)) (some (.text t))
  | booleanNumber (b : Bool) (x : Binary64) :
    ScalarLess (some (.boolean b)) (some (.number x))
  | booleanText (b : Bool) (s : String) : ScalarLess (some (.boolean b)) (some (.text s))
  | numberText (x : Binary64) (s : String) : ScalarLess (some (.number x)) (some (.text s))

namespace SortValue

/-- The bytes of a scalar that may be missing. -/
def encodeScalar : Option Operand → Bytes
  | none => [missingTag]
  | some (.boolean b) => [boolTag, if b then 1 else 0]
  | some (.number x) => numberTag :: bigEndian (orderedBits x)
  | some (.text s) => textTag :: (escapeZeros (Bytes.ofText s) ++ [0x00, 0x01])

theorem encode_eq (v : Option FieldValue) :
    encode v = encodeScalar (v.bind FieldValue.scalar?) := by
  match v with
  | none => rfl
  | some (.boolean _) => rfl
  | some (.number _) => rfl
  | some (.string _) => rfl
  | some (.datetime _) => rfl
  | some (.richText _) => rfl
  | some (.reference _) => rfl
  | some (.list _) => rfl
  | some (.object _ _) => rfl

/-- The bytes of scalars are ordered like the scalars. -/
theorem encodeScalar_lt {v w : Option Operand} (h : ScalarLess v w) :
    encodeScalar v < encodeScalar w := by
  cases h with
  | missing v => cases v <;> exact List.cons_lt_cons_iff.mpr (Or.inl (by decide))
  | boolean => decide
  | number h =>
    exact List.cons_lt_cons_iff.mpr (Or.inr ⟨rfl, bigEndian_lt (Binary64.orderedBits_lt h)⟩)
  | text h => exact List.cons_lt_cons_iff.mpr (Or.inr ⟨rfl, escapeZeros_lt h⟩)
  | booleanNumber => exact List.cons_lt_cons_iff.mpr (Or.inl (by decide))
  | booleanText => exact List.cons_lt_cons_iff.mpr (Or.inl (by decide))
  | numberText => exact List.cons_lt_cons_iff.mpr (Or.inl (by decide))

/-- Scalars without an order have the same bytes. -/
theorem encodeScalar_eq {v w : Option Operand} (h : ¬ ScalarLess v w) (h' : ¬ ScalarLess w v) :
    encodeScalar v = encodeScalar w := by
  match v, w with
  | none, none => rfl
  | none, some w => exact absurd (.missing w) h
  | some v, none => exact absurd (.missing v) h'
  | some (.boolean false), some (.boolean false) => rfl
  | some (.boolean false), some (.boolean true) => exact absurd .boolean h
  | some (.boolean true), some (.boolean false) => exact absurd .boolean h'
  | some (.boolean true), some (.boolean true) => rfl
  | some (.number x), some (.number y) =>
    have hrank : x.rank = y.rank := by
      rcases Int.lt_trichotomy x.rank y.rank with hlt | heq | hlt
      · exact absurd (.number hlt) h
      · exact heq
      · exact absurd (.number hlt) h'
    rw [encodeScalar, encodeScalar, Binary64.orderedBits_eq hrank]
  | some (.text s), some (.text t) =>
    rcases Std.lt_trichotomy (Bytes.ofText s) (Bytes.ofText t) with hlt | heq | hlt
    · exact absurd (.text hlt) h
    · rw [encodeScalar, encodeScalar, heq]
    · exact absurd (.text hlt) h'
  | some (.boolean b), some (.number x) => exact absurd (.booleanNumber b x) h
  | some (.boolean b), some (.text s) => exact absurd (.booleanText b s) h
  | some (.number x), some (.text s) => exact absurd (.numberText x s) h
  | some (.number x), some (.boolean b) => exact absurd (.booleanNumber b x) h'
  | some (.text s), some (.boolean b) => exact absurd (.booleanText b s) h'
  | some (.text s), some (.number x) => exact absurd (.numberText x s) h'

variable {v w : Option FieldValue}

/-- **The bytes of values are ordered like the values.** -/
theorem encode_lt_iff : encode v < encode w ↔
    ScalarLess (v.bind FieldValue.scalar?) (w.bind FieldValue.scalar?) := by
  rw [encode_eq, encode_eq]
  constructor
  · intro hlt
    by_contra h
    by_cases h' : ScalarLess (w.bind FieldValue.scalar?) (v.bind FieldValue.scalar?)
    · exact Std.lt_irrefl (Std.lt_trans hlt (encodeScalar_lt h'))
    · rw [encodeScalar_eq h h'] at hlt
      exact Std.lt_irrefl hlt
  · exact encodeScalar_lt

theorem encode_eq_iff : encode v = encode w ↔
    ¬ ScalarLess (v.bind FieldValue.scalar?) (w.bind FieldValue.scalar?) ∧
      ¬ ScalarLess (w.bind FieldValue.scalar?) (v.bind FieldValue.scalar?) := by
  constructor
  · intro h
    rw [← encode_lt_iff, ← encode_lt_iff, h]
    exact ⟨Std.lt_irrefl, Std.lt_irrefl⟩
  · rintro ⟨h, h'⟩
    rw [encode_eq, encode_eq, encodeScalar_eq h h']

/-- Different sort values part before either ends. -/
theorem apart_encode (h : encode v ≠ encode w) : Bytes.Apart (encode v) (encode w) := by
  constructor
  · rintro ⟨x, hx⟩
    have : x = [] := encode_append_inj (x := x) (y := []) (by rw [hx, List.append_nil])
    exact h (by rw [← hx, this, List.append_nil])
  · rintro ⟨x, hx⟩
    have : x = [] := encode_append_inj (x := x) (y := []) (by rw [hx, List.append_nil])
    exact h (by rw [← hx, this, List.append_nil])

end SortValue

/-- In either direction two sort values that are followed by something are ordered like the values,
and those of one value like what follows. -/
theorem Key.sortBytes_append_lt_iff {d : Bool} {v w : Option FieldValue} {p q : Bytes} :
    sortBytes d v ++ p < sortBytes d w ++ q ↔
      (if d then ScalarLess (w.bind FieldValue.scalar?) (v.bind FieldValue.scalar?)
        else ScalarLess (v.bind FieldValue.scalar?) (w.bind FieldValue.scalar?)) ∨
      ¬ ScalarLess (v.bind FieldValue.scalar?) (w.bind FieldValue.scalar?) ∧
        ¬ ScalarLess (w.bind FieldValue.scalar?) (v.bind FieldValue.scalar?) ∧ p < q := by
  rw [← and_assoc, ← SortValue.encode_eq_iff, ← SortValue.encode_lt_iff,
    ← SortValue.encode_lt_iff]
  by_cases heq : SortValue.encode v = SortValue.encode w
  · have hsame : sortBytes d v = sortBytes d w := by
      rw [sortBytes, sortBytes, heq]
    rw [hsame, Bytes.append_lt_append_left_iff, heq]
    simp [Std.lt_irrefl]
  · -- the values part, so the paths do not matter
    have hapart := SortValue.apart_encode heq
    cases d with
    | false => simpa [sortBytes, heq] using hapart.append_lt_append_iff p q
    | true =>
      obtain ⟨hapart', hnot⟩ := hapart.map_not
      simpa [sortBytes, heq] using (hapart'.append_lt_append_iff p q).trans hnot

/-! ### The order of records -/

/-- The order that a request asks for. Without one it is by path, and so it is, in either direction,
if the system field is asked for; otherwise the values of a field come first, where a missing one
is the least, and records of one value are ordered by path in both directions. -/
def SortOrder.Precedes (order : Option SortOrder) (r r' : Record) : Prop :=
  match order with
  | none => Bytes.ofText r.path < Bytes.ofText r'.path
  | some ⟨field, descending⟩ =>
    if field = Graph.systemPath then
      if descending then Bytes.ofText r'.path < Bytes.ofText r.path
      else Bytes.ofText r.path < Bytes.ofText r'.path
    else
      let v := (Entries.find? field r.fields).bind FieldValue.scalar?
      let v' := (Entries.find? field r'.fields).bind FieldValue.scalar?
      (if descending then ScalarLess v' v else ScalarLess v v') ∨
        ¬ ScalarLess v v' ∧ ¬ ScalarLess v' v ∧ Bytes.ofText r.path < Bytes.ofText r'.path

namespace Listing

/-- What the key of a record has after the start of the order. -/
def suffix (l : Listing) (r : Record) : Bytes :=
  match l with
  | byPath _ => Bytes.ofText r.path
  | byField field descending =>
    Key.sortBytes descending (Entries.find? field r.fields) ++ Bytes.ofText r.path

/-- **The keys of an order are ordered like the records.** -/
theorem before_suffix_iff {c : Graph.Collection} {order : Option SortOrder} {l : Listing}
    (h : c.listing order = .ok l) {r r' : Record} :
    l.direction.Before (l.suffix r) (l.suffix r') ↔ SortOrder.Precedes order r r' := by
  unfold Graph.Collection.listing at h
  split at h
  · cases h
    exact Iff.rfl
  · next order =>
    obtain ⟨field, descending⟩ := order
    dsimp only at h
    split at h
    · next hpath =>
      cases h
      cases descending <;> simp [SortOrder.Precedes, hpath, direction, suffix, Direction.Before]
    · next hpath =>
      split at h
      · cases h
        rw [SortOrder.Precedes, if_neg hpath]
        exact Key.sortBytes_append_lt_iff
      · cases h

end Listing

end ContentIndex
