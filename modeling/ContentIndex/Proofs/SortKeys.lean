import ContentIndex.Proofs.Filters
import ContentIndex.Proofs.SortOrder
import ContentIndex.Proofs.TextOrder
import Mathlib.Algebra.Order.Field.Rat
import Mathlib.Tactic.FieldSimp
import Mathlib.Tactic.Positivity

/-!
# Keys of orders

The keys of an order by a scalar field are ordered like what the field values stand for: truth
values, the exact values of doubles, and the bytes of texts. Filters compare values in the same
order.

## Main definitions

* `Binary64.value`: the exact value of a finite double
* `Measure`, `Measure.Less`: what scalars stand for, and its order

## Main results

* `Measure.less_iff_and_eq_iff`: scalars of one kind are sorted like what they stand for
* `Operand.compare?_eq`: filters compare values as their sort bytes are ordered
* `Key.sort_lt_iff_and_compare`: **the keys of an order, and filters, follow the order of values**
-/

namespace ContentIndex

/-! ### Exact values -/

namespace Binary64

/-- The exact size of a finite double by its eleven bits of exponent and 52 bits of fraction. Unless
the exponent field is zero, a bit that is not stored precedes the fraction. -/
def size (x : Binary64) : ℚ :=
  let exponent := x.bits.toNat / 2 ^ 52 % 2 ^ 11
  let fraction : ℚ := (x.bits.toNat % 2 ^ 52 : Nat)
  if exponent = 0 then fraction / 2 ^ 1074 else (2 ^ 52 + fraction) * 2 ^ exponent / 2 ^ 1075

/-- The exact value of a finite double; both zeros have the same one. -/
def value (x : Binary64) : ℚ := if 2 ^ 63 ≤ x.bits.toNat then -x.size else x.size

/-- The size is a whole number of units of the least positive double. -/
theorem size_eq (x : Binary64) : x.size = x.units / 2 ^ 1074 := by
  have hexponent : x.magnitude / hidden = x.bits.toNat / 2 ^ 52 % 2 ^ 11 := by
    unfold magnitude hidden
    omega
  have hfraction : x.magnitude % hidden = x.bits.toNat % 2 ^ 52 := by
    unfold magnitude hidden
    omega
  have hsplit := Nat.div_add_mod x.magnitude hidden
  rw [size, units, significand, shift]
  rw [hexponent, hfraction] at hsplit ⊢
  generalize x.bits.toNat / 2 ^ 52 % 2 ^ 11 = exponent at hsplit ⊢
  generalize x.bits.toNat % 2 ^ 52 = fraction at hsplit ⊢
  cases exponent with
  | zero =>
    rw [Nat.mul_zero, Nat.zero_add] at hsplit
    simp [hsplit]
  | succ e =>
    have hhidden : ((hidden : Nat) : ℚ) = 2 ^ 52 := by norm_num [hidden]
    rw [if_neg (Nat.succ_ne_zero e), if_neg (Nat.succ_ne_zero e), Nat.succ_sub_one, Nat.cast_mul,
      Nat.cast_add, Nat.cast_pow, hhidden, pow_succ (2 : ℚ) 1074, pow_succ (2 : ℚ) e, ← mul_assoc,
      mul_div_mul_right _ _ two_ne_zero]
    rfl

/-- The value is the rank in these units. -/
theorem value_eq (x : Binary64) : x.value = x.rank / 2 ^ 1074 := by
  rw [value, rank, isNegative, size_eq]
  by_cases h : 2 ^ 63 ≤ x.bits.toNat
  · rw [if_pos h, if_pos (decide_eq_true h), Int.cast_neg, Int.cast_natCast, neg_div]
  · rw [if_neg h, if_neg (by simpa using h), Int.cast_natCast]

theorem value_lt_iff {x y : Binary64} : x.value < y.value ↔ x.rank < y.rank := by
  rw [value_eq, value_eq, div_lt_div_iff_of_pos_right (by positivity), Int.cast_lt]

theorem value_eq_iff {x y : Binary64} : x.value = y.value ↔ x.rank = y.rank := by
  rw [value_eq, value_eq, div_left_inj' (by positivity), Int.cast_inj]

end Binary64

/-! ### What scalars stand for -/

/-- What the values of a scalar kind are compared by. -/
inductive Measure
  /-- A truth value. -/
  | truth (b : Bool)
  /-- An exact number. -/
  | number (q : ℚ)
  /-- The bytes of a text. -/
  | text (b : Bytes)

/-- What a field value stands for, if it is a scalar. -/
def FieldValue.measure? : FieldValue → Option Measure
  | .boolean b => some (.truth b)
  | .number x => some (.number x.value)
  | .string s | .datetime s => some (.text (Bytes.ofText s))
  | _ => none

/-- Of two byte strings that differ, one is less. -/
theorem Bytes.eq_iff_not_lt {a b : Bytes} : a = b ↔ ¬ a < b ∧ ¬ b < a := by
  constructor
  · rintro rfl
    exact ⟨Std.lt_irrefl, Std.lt_irrefl⟩
  · rintro ⟨hab, hba⟩
    rcases Std.lt_trichotomy a b with h | h | h
    · exact absurd h hab
    · exact h
    · exact absurd h hba

namespace Measure

/-- The order of what values of one kind stand for. An absent value is the least one. -/
inductive Less : Option Measure → Option Measure → Prop
  | absent (m : Measure) : Less none (some m)
  | truth : Less (some (.truth false)) (some (.truth true))
  | number {p q : ℚ} (h : p < q) : Less (some (.number p)) (some (.number q))
  | text {a b : Bytes} (h : a < b) : Less (some (.text a)) (some (.text b))

@[simp] theorem not_less_none {v : Option Measure} : ¬ Less v none := nofun

@[simp] theorem less_truth {a b : Bool} :
    Less (some (.truth a)) (some (.truth b)) ↔ a = false ∧ b = true := by
  constructor
  · rintro ⟨⟩
    exact ⟨rfl, rfl⟩
  · rintro ⟨rfl, rfl⟩
    exact .truth

@[simp] theorem less_number {p q : ℚ} : Less (some (.number p)) (some (.number q)) ↔ p < q :=
  ⟨fun | .number h => h, .number⟩

@[simp] theorem less_text {a b : Bytes} : Less (some (.text a)) (some (.text b)) ↔ a < b :=
  ⟨fun | .text h => h, .text⟩

end Measure

namespace ScalarLess

@[simp] theorem not_none {v : Option Operand} : ¬ ScalarLess v none := nofun

@[simp] theorem boolean_iff {a b : Bool} :
    ScalarLess (some (.boolean a)) (some (.boolean b)) ↔ a = false ∧ b = true := by
  constructor
  · rintro ⟨⟩
    exact ⟨rfl, rfl⟩
  · rintro ⟨rfl, rfl⟩
    exact .boolean

@[simp] theorem number_iff {x y : Binary64} :
    ScalarLess (some (.number x)) (some (.number y)) ↔ x.rank < y.rank :=
  ⟨fun | .number h => h, .number⟩

@[simp] theorem text_iff {s t : String} :
    ScalarLess (some (.text s)) (some (.text t)) ↔ Bytes.ofText s < Bytes.ofText t :=
  ⟨fun | .text h => h, .text⟩

end ScalarLess

section OneKind

open Graph (Kind)

variable {G : Graph} {k : Kind}

/-- Two values of a scalar kind are both truth values, finite numbers, or texts. -/
theorem FieldValue.Conforms.scalar_cases {x y : FieldValue} (hk : k.isScalar)
    (hx : x.Conforms G k) (hy : y.Conforms G k) :
    (∃ a b, x = .boolean a ∧ y = .boolean b) ∨
    (∃ a b, (x = .number a ∧ a.isFinite) ∧ y = .number b ∧ b.isFinite) ∨
    ∃ s t, (x = .string s ∨ x = .datetime s) ∧ (y = .string t ∨ y = .datetime t) := by
  cases hx with
  | boolean a =>
    cases hy with
    | boolean b => exact .inl ⟨a, b, rfl, rfl⟩
  | number ha =>
    cases hy with
    | number hb => exact .inr (.inl ⟨_, _, ⟨rfl, ha⟩, rfl, hb⟩)
  | string s =>
    cases hy with
    | string t => exact .inr (.inr ⟨s, t, .inl rfl, .inl rfl⟩)
  | datetime s =>
    cases hy with
    | datetime t => exact .inr (.inr ⟨s, t, .inr rfl, .inr rfl⟩)
  | _ => cases hk

variable {v w : Option FieldValue}

/-- Scalars of one kind are sorted like what they stand for, and sorted alike only if they stand for
the same. -/
theorem Measure.less_iff_and_eq_iff (hk : k.isScalar) (hv : ∀ x ∈ v, x.Conforms G k)
    (hw : ∀ y ∈ w, y.Conforms G k) :
    (ScalarLess (v.bind FieldValue.scalar?) (w.bind FieldValue.scalar?) ↔
      Less (v.bind FieldValue.measure?) (w.bind FieldValue.measure?)) ∧
    (v.bind FieldValue.measure? = w.bind FieldValue.measure? ↔
      SortValue.encode v = SortValue.encode w) := by
  rw [SortValue.encode_eq_iff]
  match v, w with
  | none, none => simp
  | none, some y =>
    have hy := hw y rfl
    obtain ⟨_, b, -, rfl⟩ | ⟨_, b, -, rfl, -⟩ | ⟨_, t, -, rfl | rfl⟩ := hy.scalar_cases hk hy
    all_goals simp [FieldValue.scalar?, FieldValue.measure?, Less.absent, ScalarLess.missing]
  | some x, none =>
    have hx := hv x rfl
    obtain ⟨a, _, rfl, -⟩ | ⟨a, _, ⟨rfl, -⟩, -⟩ | ⟨s, _, rfl | rfl, -⟩ := hx.scalar_cases hk hx
    all_goals simp [FieldValue.scalar?, FieldValue.measure?, ScalarLess.missing]
  | some x, some y =>
    obtain ⟨a, b, rfl, rfl⟩ | ⟨a, b, ⟨rfl, -⟩, rfl, -⟩ | ⟨s, t, rfl | rfl, rfl | rfl⟩ :=
      (hv x rfl).scalar_cases hk (hw y rfl)
    · cases a <;> cases b <;> simp [FieldValue.scalar?, FieldValue.measure?]
    · simp [FieldValue.scalar?, FieldValue.measure?, Binary64.value_lt_iff, Binary64.value_eq_iff]
      omega
    all_goals
      simpa [FieldValue.scalar?, FieldValue.measure?, and_comm] using
        Bytes.eq_iff_not_lt (a := Bytes.ofText s) (b := Bytes.ofText t)

/-- Orders with the same smaller and the same equal ones compare alike. -/
theorem compareOfLessAndEq_congr {α β : Type} [LT α] [DecidableLT α] [DecidableEq α] [LT β]
    [DecidableLT β] [DecidableEq β] {a b : α} {a' b' : β} (hlt : a < b ↔ a' < b')
    (heq : a = b ↔ a' = b') : compareOfLessAndEq a b = compareOfLessAndEq a' b' := by
  unfold compareOfLessAndEq
  simp only [hlt, heq]

/-- Filters compare values as their sort bytes are ordered. -/
theorem Operand.compare?_eq {x y : FieldValue} (hk : k.isScalar) (hx : x.Conforms G k)
    (hy : y.Conforms G k) : ∃ a b, x.operand? = some a ∧ y.operand? = some b ∧
      a.compare? b =
        some (compareOfLessAndEq (SortValue.encode (some x)) (SortValue.encode (some y))) := by
  obtain ⟨hless, heq⟩ := Measure.less_iff_and_eq_iff (v := some x) (w := some y) hk
    (by simpa using hx) (by simpa using hy)
  rw [← SortValue.encode_lt_iff] at hless
  obtain ⟨a, b, rfl, rfl⟩ | ⟨a, b, ⟨rfl, ha⟩, rfl, hb⟩ | ⟨s, t, rfl | rfl, rfl | rfl⟩ :=
    hx.scalar_cases hk hy
  · refine ⟨_, _, rfl, rfl, congrArg some (compareOfLessAndEq_congr ?_ ?_)⟩
    · rw [hless]
      cases a <;> cases b <;> simp [FieldValue.measure?]
    · rw [← heq]
      cases a <;> cases b <;> simp [FieldValue.measure?]
  · refine ⟨_, _, rfl, rfl, ?_⟩
    rw [compare?, Binary64.compare?, Binary64.not_isNaN ha, Binary64.not_isNaN hb, if_neg (by simp)]
    refine congrArg some (compareOfLessAndEq_congr ?_ ?_)
    · rw [hless]
      simp [FieldValue.measure?, Binary64.value_lt_iff]
    · rw [← heq]
      simp [FieldValue.measure?, Binary64.value_eq_iff]
  all_goals
    refine ⟨_, _, rfl, rfl, congrArg some (compareOfLessAndEq_congr ?_ ?_)⟩
    · rw [hless]
      simp [FieldValue.measure?, Bytes.ofText_lt_iff]
    · rw [← heq]
      simp [FieldValue.measure?]

/-- **The keys of an order, and filters, follow the order of values.** Of two keys of an order by a
field that holds values of a scalar kind, the one whose value stands for less comes first when the
order ascends, and last when it descends. Only when both stand for the same, or are absent, the
paths decide, in both directions by ascending bytes. No sort value is the start of another one, and
a filter compares two values as their sort bytes are ordered. -/
theorem Key.sort_lt_iff_and_compare (hk : k.isScalar) (hv : ∀ x ∈ v, x.Conforms G k)
    (hw : ∀ y ∈ w, y.Conforms G k) :
    (∀ g c f p q,
      ((Key.sort g c f false v p).encode < (Key.sort g c f false w q).encode ↔
        Measure.Less (v.bind FieldValue.measure?) (w.bind FieldValue.measure?) ∨
          v.bind FieldValue.measure? = w.bind FieldValue.measure? ∧
            Bytes.ofText p < Bytes.ofText q) ∧
      ((Key.sort g c f true v p).encode < (Key.sort g c f true w q).encode ↔
        Measure.Less (w.bind FieldValue.measure?) (v.bind FieldValue.measure?) ∨
          v.bind FieldValue.measure? = w.bind FieldValue.measure? ∧
            Bytes.ofText p < Bytes.ofText q)) ∧
    (∀ d, sortBytes d v <+: sortBytes d w → sortBytes d v = sortBytes d w) ∧
    ∀ x ∈ v, ∀ y ∈ w, ∃ a b, x.operand? = some a ∧ y.operand? = some b ∧ a.compare? b =
      some (compareOfLessAndEq (SortValue.encode (some x)) (SortValue.encode (some y))) := by
  obtain ⟨hless, heq⟩ := Measure.less_iff_and_eq_iff hk hv hw
  obtain ⟨hgreater, -⟩ := Measure.less_iff_and_eq_iff hk hw hv
  have hkey (g : Generation) (c f : String) (d : Bool) (p q : String) :
      (Key.sort g c f d v p).encode < (Key.sort g c f d w q).encode ↔
        (if d then Measure.Less (w.bind FieldValue.measure?) (v.bind FieldValue.measure?)
          else Measure.Less (v.bind FieldValue.measure?) (w.bind FieldValue.measure?)) ∨
        v.bind FieldValue.measure? = w.bind FieldValue.measure? ∧
          Bytes.ofText p < Bytes.ofText q := by
    rw [encode, encode, List.append_assoc, List.append_assoc, Bytes.append_lt_append_left_iff,
      sortBytes_append_lt_iff, hless, hgreater, heq, SortValue.encode_eq_iff, hless, hgreater,
      and_assoc]
  refine ⟨fun g c f p q => ⟨hkey g c f false p q, hkey g c f true p q⟩, fun d hstart => ?_,
    fun x hx y hy => Operand.compare?_eq hk (hv x hx) (hw y hy)⟩
  by_contra hne
  have hencode : SortValue.encode v ≠ SortValue.encode w := by
    intro h
    rw [sortBytes, sortBytes, h] at hne
    exact hne rfl
  have hapart := SortValue.apart_encode hencode
  cases d with
  | false => exact hapart.1 hstart
  | true => exact hapart.map_not.1.1 hstart

/-- A zero after a text makes it a greater one, whatever the paths are, and a descending order turns
that round. -/
theorem Key.sort_lt_iff_and_compare_zero :
    (FieldValue.string "a").Conforms (.ofCollections []) .string ∧
    (FieldValue.string "a\x00").Conforms (.ofCollections []) .string ∧
    (Key.sort 1 "c" "f" false (some (.string "a")) "q").encode <
      (Key.sort 1 "c" "f" false (some (.string "a\x00")) "p").encode ∧
    (Key.sort 1 "c" "f" true (some (.string "a\x00")) "q").encode <
      (Key.sort 1 "c" "f" true (some (.string "a")) "p").encode := by
  have ha : (FieldValue.string "a").Conforms (.ofCollections []) .string := .string _
  have hb : (FieldValue.string "a\x00").Conforms (.ofCollections []) .string := .string _
  have hless : Measure.Less (some (.text (Bytes.ofText "a"))) (some (.text (Bytes.ofText "a\x00"))) :=
    .text (by decide)
  refine ⟨ha, hb, ?_, ?_⟩
  · exact ((sort_lt_iff_and_compare (v := some _) (w := some _) rfl (by simpa using ha)
      (by simpa using hb)).1 1 "c" "f" "q" "p").1.mpr (.inl hless)
  · exact ((sort_lt_iff_and_compare (v := some _) (w := some _) rfl (by simpa using hb)
      (by simpa using ha)).1 1 "c" "f" "q" "p").2.mpr (.inl hless)

end OneKind

end ContentIndex
