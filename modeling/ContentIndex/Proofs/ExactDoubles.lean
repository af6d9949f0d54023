import ContentIndex.Proofs.Filters
import Mathlib.Data.Nat.Log

/-!
# Whole numbers as doubles

A whole number of at most 53 bits is a double, so it is the same number when it has been written and
is read again. A larger one, and every number that is not whole, is written as the double it is.

## Main results

* `Binary64.rank_ofInt`: **a whole number of 53 bits is not rounded**
* `exists_numberToJson_eq`: **a number is equal to the JSON number that is written for it**
-/

namespace ContentIndex

theorem divHalfEven_mul (a : Nat) {b : Nat} (hb : 0 < b) : divHalfEven (a * b) b = a := by
  unfold divHalfEven
  simp [Nat.mul_div_cancel a hb, hb]

/-- A power of two moves the leading bit. -/
theorem log2_mul_two_pow {n b s : Nat} (hs : s = 2 ^ b) (h : n ≠ 0) :
    Nat.log2 (n * s) = Nat.log2 n + b := by
  subst hs
  have hle := Nat.log2_self_le h
  have hlt := Nat.lt_log2_self (n := n)
  rw [Nat.log2_eq_iff (Nat.mul_ne_zero h (Nat.two_pow_pos b).ne')]
  constructor
  · rw [Nat.pow_add]
    exact Nat.mul_le_mul_right _ hle
  · rw [Nat.add_right_comm, Nat.pow_add]
    exact Nat.mul_lt_mul_of_pos_right hlt (Nat.two_pow_pos b)

namespace Binary64

/-- A significand with its hidden bit stands above the exponent. -/
theorem units_ofMagnitude {negative : Bool} {k q : Nat} (hk : k < 2046) (hq : hidden ≤ q)
    (hq' : q < 2 * hidden) : (ofMagnitude negative (k * hidden + q)).units = q * 2 ^ k := by
  have hsmall : k * hidden + q < 2 ^ 63 := by
    unfold hidden at *
    omega
  have hdiv : (k * hidden + q) / hidden = k + 1 := by
    unfold hidden at *
    omega
  have hmod : (k * hidden + q) % hidden = q - hidden := by
    unfold hidden at *
    omega
  rw [units, significand, shift, magnitude_ofMagnitude hsmall, hdiv, hmod,
    if_neg (Nat.succ_ne_zero k), Nat.add_sub_cancel' hq, Nat.add_sub_cancel]

theorem isNegative_ofMagnitude {negative : Bool} {m : Nat} (h : m < 2 ^ 63) :
    (ofMagnitude negative m).isNegative = negative := by
  unfold ofMagnitude isNegative
  rw [UInt64.toNat_ofNat']
  cases negative <;> simp <;> omega

/-- A number of 53 bits, with its leading bit in the place of the hidden bit. -/
theorem units_ofFraction (negative : Bool) {n : Nat} (h : n < 2 ^ 53) :
    (ofFraction negative n 1).units = n * scale ∧
      (ofFraction negative n 1).isNegative = negative := by
  by_cases hn : n = 0
  · subst hn
    have hzero : ofFraction negative 0 1 = ofMagnitude negative 0 := by
      simp [ofFraction, divHalfEven]
    rw [hzero, Nat.zero_mul]
    cases negative <;> decide
  obtain ⟨l, hl⟩ : ∃ l, Nat.log2 n = l := ⟨_, rfl⟩
  have hle := Nat.log2_self_le hn
  have hlt := Nat.lt_log2_self (n := n)
  have hlog : l < 53 := hl ▸ (Nat.log2_lt hn).mpr h
  rw [hl] at hle hlt
  have hlow : hidden ≤ n * 2 ^ (52 - l) := by
    calc hidden = 2 ^ l * 2 ^ (52 - l) := by
          rw [hidden, ← Nat.pow_add, Nat.add_sub_cancel' (Nat.lt_succ_iff.mp hlog)]
      _ ≤ n * 2 ^ (52 - l) := Nat.mul_le_mul_right _ hle
  have hhigh : n * 2 ^ (52 - l) < 2 * hidden := by
    calc n * 2 ^ (52 - l) < 2 ^ (l + 1) * 2 ^ (52 - l) :=
          Nat.mul_lt_mul_of_pos_right hlt (Nat.two_pow_pos _)
      _ = 2 * hidden := by
          rw [hidden, ← Nat.pow_add, ← Nat.pow_succ']
          congr 1
          omega
  have hfinite : (l + 1022) * hidden + n * 2 ^ (52 - l) < infinite := by
    unfold infinite
    unfold hidden at hhigh ⊢
    omega
  have hscale : scale = 2 ^ 1074 := by rw [scale]
  have hexponent : Nat.log2 (n * scale) - 52 = l + 1022 := by
    rw [log2_mul_two_pow hscale hn, hl]
    rfl
  -- the leading bit is moved up to the place of the hidden bit
  have hsplit : n * scale = n * 2 ^ (52 - l) * 2 ^ (l + 1022) := by
    have hsum : 52 - l + (l + 1022) = 1074 := by omega
    rw [hscale, Nat.mul_assoc, ← Nat.pow_add, hsum]
  have hround : ofFraction negative n 1 =
      ofMagnitude negative ((l + 1022) * hidden + n * 2 ^ (52 - l)) := by
    rw [ofFraction, Nat.div_one, Nat.one_mul, hexponent, hsplit,
      divHalfEven_mul _ (Nat.two_pow_pos _), Nat.min_eq_right (Nat.le_of_lt hfinite)]
  have hsmall : infinite < 2 ^ 63 := by decide
  rw [hround, units_ofMagnitude (by omega) hlow hhigh, ← hsplit,
    isNegative_ofMagnitude (Nat.lt_trans hfinite hsmall)]
  exact ⟨rfl, rfl⟩

/-- **A whole number of 53 bits is not rounded.** -/
theorem rank_ofInt {i : Int} (h : i.natAbs < 2 ^ 53) : (ofInt i).rank = i * scale := by
  obtain ⟨hunits, hnegative⟩ := units_ofFraction (decide (i < 0)) h
  rw [ofInt, rank, hunits, hnegative, Int.natCast_mul]
  by_cases hneg : i < 0
  · have habs : (i.natAbs : Int) = -i := by omega
    rw [if_pos (decide_eq_true hneg), habs, Int.neg_mul, Int.neg_neg]
  · have habs : (i.natAbs : Int) = i := by omega
    rw [if_neg (by simpa using hneg), habs]

/-- A double that is a whole number has the rank of the number. -/
theorem rank_of_toInt? {x : Binary64} {i : Int} (h : x.toInt? = some i) : x.rank = i * scale := by
  unfold toInt? at h
  split at h
  · next hwhole =>
    rw [Bool.and_eq_true, decide_eq_true_eq] at hwhole
    have hunits : (x.units : Int) / scale * scale = x.units :=
      Int.ediv_mul_cancel (Int.natCast_dvd_natCast.mpr (Nat.dvd_of_mod_eq_zero hwhole.2))
    cases h
    rw [rank]
    split
    · rw [Int.neg_mul, hunits]
    · rw [hunits]
  · cases h

/-- Numbers of one rank are equal to each other. -/
theorem compare?_of_rank_eq {x y : Binary64} (hx : x.isFinite) (hy : y.isFinite)
    (h : x.rank = y.rank) : x.compare? y = some .eq := by
  rw [compare?, not_isNaN hx, not_isNaN hy, h]
  simp

end Binary64

/-- **A number is equal to the JSON number that is written for it.** -/
theorem exists_numberToJson_eq {x : Binary64} (h : x.isFinite) :
    ∃ n : Json.Number, numberToJson x = .number n ∧ x.compare? n.toFloat = some .eq := by
  have hself : ∃ n : Json.Number, Json.Value.float x = .number n ∧
      x.compare? n.toFloat = some .eq := by
    refine ⟨.float x h, ?_, Binary64.compare?_of_rank_eq h h rfl⟩
    rw [Json.Value.float, Json.Number.ofFloat?, dif_pos h]
  unfold numberToJson
  split
  · next i hi =>
    split
    · next hsmall =>
      have hfits : -2 ^ 63 ≤ i ∧ i < 2 ^ 64 := by omega
      rw [Json.Number.ofInt?, dif_pos hfits]
      refine ⟨.int i hfits, rfl, Binary64.compare?_of_rank_eq h ?_ ?_⟩
      · exact Graph.toFloat_isFinite _
      · rw [Binary64.rank_of_toInt? hi]
        exact (Binary64.rank_ofInt (by omega)).symm
    · exact hself
  · exact hself

end ContentIndex
