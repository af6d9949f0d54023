import ContentIndex.Proofs.Calendar
import ContentIndex.Proofs.Numerals
import ContentIndex.Proofs.TextOrder
import ContentIndex.Time.Reading
import Mathlib.Data.String.Basic

/-!
# The order of canonical texts

The canonical text of an instant begins with its year, and all that follows the year is written with
fixed widths. So instants of one year are ordered like their texts, up to the milliseconds. Years of
four digits are ordered like their texts as well. Other years have a sign in front, which comes before
every digit, and as many digits as they need: some of them are written after later years.

## Main definitions

* `Instant.Before`: the order of instants
* `Instant.millis`: the part of an instant that its canonical text has
* `Instant.Misplaced`: the earlier one of two years is written after the later one

## Main results

* `Instant.valid_of_ofText?`: what is read is a time of day
* `Instant.write_lt`, `Instant.write_lt_of_misplaced`: **an earlier instant has the smaller text unless
  its year is misplaced**
-/

namespace ContentIndex

namespace Instant

/-! ### Padded numbers -/

/-- The last digit is written last. -/
theorem padded_succ (w n : Nat) :
    padded (w + 2) n = padded (w + 1) (n / 10) ++ [(n % 10).digitChar] := by
  unfold padded
  by_cases h : n < 10
  · rw [Nat.toDigits_of_lt_base h, Nat.div_eq_of_lt h, Nat.mod_eq_of_lt h,
      Nat.toDigits_of_lt_base (by decide)]
    show List.replicate (w + 1) '0' ++ _ = List.replicate w '0' ++ ['0'] ++ _
    rw [← List.replicate_succ']
  · rw [Nat.toDigits_of_base_le (by decide) (by omega), ← List.append_assoc, List.length_append]
    simp

theorem padded_one {n : Nat} (h : n < 10) : padded 1 n = [n.digitChar] := by
  rw [padded, Nat.toDigits_of_lt_base h]
  rfl

theorem isDigit_of_mem_padded {w n : Nat} {c : Char} (h : c ∈ padded w n) : c.isDigit := by
  rcases List.mem_append.mp h with h | h
  · rw [List.eq_of_mem_replicate h]
    rfl
  · exact isDigit_of_mem_toDigits h

theorem exists_padded_eq_cons (w n : Nat) : ∃ c r, padded w n = c :: r ∧ c.isDigit := by
  have hne : padded w n ≠ [] := by simp [padded]
  obtain ⟨c, r, hcr⟩ := List.exists_cons_of_ne_nil hne
  refine ⟨c, r, hcr, isDigit_of_mem_padded (w := w) (n := n) ?_⟩
  rw [hcr]
  exact List.mem_cons_self ..

/-- Numbers are ordered like their digits. -/
theorem digitChar_lt : ∀ n < 10, ∀ m < n, m.digitChar < n.digitChar := by decide

/-- Of two numbers with one width the less one has the smaller text, whatever follows. -/
theorem padded_append_lt {w a b : Nat} (hb : b < 10 ^ w) (h : a < b) (x y : List Char) :
    padded w a ++ x < padded w b ++ y := by
  induction w generalizing a b x y with
  | zero =>
    rw [Nat.pow_zero] at hb
    omega
  | succ w ih =>
    cases w with
    | zero =>
      rw [padded_one (by omega), padded_one (by omega)]
      exact List.cons_lt_cons_iff.mpr (.inl (digitChar_lt b (by omega) a h))
    | succ w =>
      rw [Nat.pow_succ] at hb
      rw [padded_succ, padded_succ, List.append_assoc, List.append_assoc]
      rcases Nat.lt_or_ge (a / 10) (b / 10) with hlead | hlead
      · exact ih (by omega) hlead _ _
      · -- the last digit decides
        have heq : a / 10 = b / 10 := by omega
        rw [heq]
        refine List.append_left_lt (List.cons_lt_cons_iff.mpr (.inl ?_))
        exact digitChar_lt _ (by omega) _ (by omega)

/-- Numbers come first, and what follows them decides between equal ones. -/
theorem padded_lt_of_lex {w a b : Nat} {c : Char} {x y : List Char} (hb : b < 10 ^ w)
    (h : a < b ∨ a = b ∧ x < y) : padded w a ++ c :: x < padded w b ++ c :: y := by
  rcases h with h | ⟨rfl, h⟩
  · exact padded_append_lt hb h _ _
  · exact List.append_left_lt (List.cons_lt_cons_iff.mpr (.inr ⟨rfl, h⟩))

/-- A number begins with its leading digits. -/
theorem exists_padded_add (w k n : Nat) : ∃ ds : List Char, ds.length = k ∧
    (∀ c ∈ ds, c.isDigit) ∧ padded (w + 1 + k) n = padded (w + 1) (n / 10 ^ k) ++ ds := by
  induction k generalizing n with
  | zero => exact ⟨[], rfl, nofun, by simp⟩
  | succ k ih =>
    obtain ⟨ds, hlength, hds, heq⟩ := ih (n / 10)
    refine ⟨ds ++ [(n % 10).digitChar], by simp [hlength], ?_, ?_⟩
    · intro c hc
      rcases List.mem_append.mp hc with hc | hc
      · exact hds c hc
      · rw [List.mem_singleton.mp hc, Nat.isDigit_digitChar]
        exact decide_eq_true (Nat.mod_lt _ (by decide))
    · rw [show w + 1 + (k + 1) = w + k + 2 by omega, padded_succ,
        show w + k + 1 = w + 1 + k by omega, heq, Nat.div_div_eq_div_mul, ← Nat.pow_succ',
        List.append_assoc]

/-! ### Years -/

/-- The number of digits that a year is written with. -/
def yearWidth (n : Nat) : Nat := max 4 (Nat.toDigits 10 n).length

/-- The leading digits of a year, as many as given. -/
def leading (width n : Nat) : Nat := n / 10 ^ (yearWidth n - width)

/-- The first year is earlier than the second one and is written after it. A negative year comes
after those later ones that do not exceed its leading digits. A year beyond four digits comes before
all years up to them, and before those earlier ones beyond them that exceed its leading digits. -/
def Misplaced (y z : Int) : Prop :=
  y < z ∧ (z < 0 ∧ z.natAbs ≤ leading (yearWidth z.natAbs) y.natAbs ∨
    9999 < z ∧ (y ≤ 9999 ∨ leading (yearWidth y.natAbs) z.natAbs < y.natAbs))

instance (y z : Int) : Decidable (Misplaced y z) := by
  unfold Misplaced
  infer_instance

/-- Years of four digits are where they belong. -/
theorem not_misplaced {y z : Int} (hy : 0 ≤ y) (hz : z ≤ 9999) : ¬ Misplaced y z := by
  unfold Misplaced
  omega

theorem not_misplaced_self (y : Int) : ¬ Misplaced y y := fun h => Int.lt_irrefl y h.1

theorem lt_pow_yearWidth (n : Nat) : n < 10 ^ yearWidth n :=
  (Nat.length_toDigits_le_iff (by decide) (by unfold yearWidth; omega)).mp (Nat.le_max_right ..)

theorem yearWidth_mono {m n : Nat} (h : m ≤ n) : yearWidth m ≤ yearWidth n := by
  refine Nat.max_le.mpr ⟨Nat.le_max_left .., ?_⟩
  rw [Nat.length_toDigits_le_iff (by decide) (by unfold yearWidth; omega)]
  exact Nat.lt_of_le_of_lt h (lt_pow_yearWidth n)

theorem padded_yearWidth (n : Nat) : padded 4 n = padded (yearWidth n) n := by
  have h : yearWidth n - (Nat.toDigits 10 n).length = 4 - (Nat.toDigits 10 n).length := by
    unfold yearWidth
    omega
  rw [padded, padded, h]

theorem sign_lt_digit {c : Char} (h : c.isDigit) : '+' < c ∧ '-' < c := by
  have hc : 48 ≤ c.toNat ∧ c.toNat ≤ 57 := by
    simpa [Char.isDigit, UInt32.le_iff_toNat_le] using h
  simp only [Char.lt_def, UInt32.lt_iff_toNat_lt]
  exact ⟨Nat.lt_of_lt_of_le (by decide) hc.1, Nat.lt_of_lt_of_le (by decide) hc.1⟩

section Years

variable {m n : Nat} (x y : List Char)

/-- A year of more digits is written as its leading ones compare. -/
theorem exists_padded_leading (h : n ≤ m) : ∃ ds : List Char,
    padded 4 m = padded (yearWidth n) (leading (yearWidth n) m) ++ ds ∧
      ds.length = yearWidth m - yearWidth n ∧ ∀ c ∈ ds, c.isDigit := by
  have hwidth := yearWidth_mono h
  obtain ⟨w, hw⟩ : ∃ w, yearWidth n = w + 1 :=
    Nat.exists_eq_succ_of_ne_zero (by unfold yearWidth; omega)
  obtain ⟨ds, hlength, hds, heq⟩ := exists_padded_add w (yearWidth m - yearWidth n) m
  refine ⟨ds, ?_, hlength, hds⟩
  rw [← hw, Nat.add_sub_cancel' hwidth] at heq
  rw [padded_yearWidth, leading, heq]

theorem padded_lt_of_leading_lt (h : n ≤ m) (hlead : leading (yearWidth n) m < n) :
    padded 4 m ++ x < padded 4 n ++ y := by
  obtain ⟨ds, hm, -, -⟩ := exists_padded_leading h
  rw [hm, padded_yearWidth n, List.append_assoc]
  exact padded_append_lt (lt_pow_yearWidth n) hlead _ _

/-- Between equal digits the mark after the shorter year comes before the next digit. -/
theorem padded_lt_of_le_leading (h : n < m) (hlead : n ≤ leading (yearWidth n) m) :
    padded 4 n ++ '-' :: x < padded 4 m ++ y := by
  obtain ⟨ds, hm, hlength, hds⟩ := exists_padded_leading (Nat.le_of_lt h)
  rw [hm, padded_yearWidth n, List.append_assoc]
  rcases Nat.lt_or_eq_of_le hlead with hlt | heq
  · refine padded_append_lt ?_ hlt _ _
    rw [leading, Nat.div_lt_iff_lt_mul (Nat.pow_pos (by decide)), ← Nat.pow_add,
      Nat.add_sub_cancel' (yearWidth_mono (Nat.le_of_lt h))]
    exact lt_pow_yearWidth m
  · rw [← heq]
    refine List.append_left_lt ?_
    cases ds with
    | nil =>
      -- years of one width are their own leading digits
      rw [leading, ← hlength, List.length_nil, Nat.pow_zero, Nat.div_one] at heq
      omega
    | cons c ds =>
      exact List.cons_lt_cons_iff.mpr (.inl (sign_lt_digit (hds c (List.mem_cons_self ..))).2)

end Years

theorem sign_cons_lt_padded (w n : Nat) (x y : List Char) :
    '+' :: x < padded w n ++ y ∧ '-' :: x < padded w n ++ y := by
  obtain ⟨c, r, hcr, hc⟩ := exists_padded_eq_cons w n
  rw [hcr, List.cons_append]
  exact ⟨List.cons_lt_cons_iff.mpr (.inl (sign_lt_digit hc).1),
    List.cons_lt_cons_iff.mpr (.inl (sign_lt_digit hc).2)⟩

/-- Of two years the later one has the greater text, unless the earlier one is misplaced; then it
has the smaller one. -/
theorem yearChars_lt {y z : Int} (h : y < z) (u v : List Char) :
    (¬ Misplaced y z → yearChars y ++ '-' :: u < yearChars z ++ '-' :: v) ∧
      (Misplaced y z → yearChars z ++ '-' :: v < yearChars y ++ '-' :: u) := by
  unfold yearChars
  by_cases hz : z < 0
  · -- both are negative
    have hy : y < 0 := by omega
    have habs : z.natAbs < y.natAbs := by omega
    simp only [hy, hz, if_true, List.cons_append, List.nil_append, List.cons_lt_cons_iff,
      Char.lt_irrefl, true_and, false_or]
    refine ⟨fun hnot => padded_lt_of_leading_lt _ _ (Nat.le_of_lt habs) ?_,
      fun hmis => padded_lt_of_le_leading _ _ habs ?_⟩
    · unfold Misplaced at hnot
      omega
    · unfold Misplaced at hmis
      omega
  by_cases hz' : z ≤ 9999
  · simp only [hz, hz', if_true, if_false, List.nil_append]
    refine ⟨fun _ => ?_, fun hmis => ?_⟩
    · by_cases hy : y < 0
      · simp only [hy, if_true, List.cons_append, List.nil_append]
        exact (sign_cons_lt_padded _ _ _ _).2
      · simp only [hy, if_false, show y ≤ 9999 by omega, if_true, List.nil_append]
        exact padded_append_lt (by omega) (by omega) _ _
    · unfold Misplaced at hmis
      omega
  -- the later one has a plus, which comes before the minus and before the digits
  simp only [hz, hz', if_false, List.cons_append, List.nil_append]
  by_cases hy : y ≤ 9999
  · have hmis : Misplaced y z := by
      unfold Misplaced
      omega
    refine ⟨fun hnot => absurd hmis hnot, fun _ => ?_⟩
    by_cases hneg : y < 0
    · simp only [hneg, if_true, List.cons_append, List.nil_append]
      exact List.cons_lt_cons_iff.mpr (.inl (by decide))
    · simp only [hneg, hy, if_true, if_false, List.nil_append]
      exact (sign_cons_lt_padded _ _ _ _).1
  · have hneg : ¬ y < 0 := by omega
    have habs : y.natAbs < z.natAbs := by omega
    simp only [hneg, hy, if_false, List.cons_append, List.nil_append, List.cons_lt_cons_iff,
      Char.lt_irrefl, true_and, false_or]
    refine ⟨fun hnot => padded_lt_of_le_leading _ _ habs ?_,
      fun hmis => padded_lt_of_leading_lt _ _ (Nat.le_of_lt habs) ?_⟩
    · unfold Misplaced at hnot
      omega
    · unfold Misplaced at hmis
      omega

/-! ### Instants -/

/-- The instant is a time of day. A leap second follows the last second of a minute. -/
structure Valid (i : Instant) : Prop where
  /-- The second is one of the day. -/
  second_lt : i.second < daySeconds
  /-- There is no more than one leap second. -/
  nanosecond_lt : i.nanosecond < 2 * billion
  /-- Only the last second of a minute has one. -/
  leap : billion ≤ i.nanosecond → i.second % 60 = 59

/-- The year of the date. -/
def year (i : Instant) : Int := (Calendar.dateOf i.day).1

/-- The instant is earlier than the other one. -/
def Before (i j : Instant) : Prop :=
  i.day < j.day ∨ i.day = j.day ∧ (i.second < j.second ∨
    i.second = j.second ∧ i.nanosecond < j.nanosecond)

/-- The instant cut down to milliseconds. -/
def millis (i : Instant) : Instant := { i with nanosecond := i.nanosecond / 1000000 }

/-- The second of the minute as it is written; that of a leap second is the 60th. -/
def shownSecond (i : Instant) : Nat := i.second % 60 + if billion ≤ i.nanosecond then 1 else 0

/-- The millisecond of the second as it is written. -/
def shownMilli (i : Instant) : Nat :=
  (if billion ≤ i.nanosecond then i.nanosecond - billion else i.nanosecond) / 1000000

/-- The canonical text after the year. -/
def afterYear (i : Instant) : List Char :=
  padded 2 (Calendar.dateOf i.day).2.1 ++ '-' :: (padded 2 (Calendar.dateOf i.day).2.2 ++
    'T' :: (padded 2 (i.second / 3600) ++ ':' :: (padded 2 (i.second / 60 % 60) ++
      ':' :: (padded 2 i.shownSecond ++ '.' :: (padded 3 i.shownMilli ++ ['Z'])))))

theorem toList_write (i : Instant) :
    (i.write .millis "Z").toList = yearChars i.year ++ '-' :: i.afterYear := by
  simp [write, afterYear, year, shownSecond, shownMilli, Fraction.chars]

/-! ### Instants that are read -/

/-- Digits are a number of at most as many. -/
theorem digitsValue_lt {ds : List Char} (h : ∀ c ∈ ds, c.isDigit) :
    digitsValue ds < 10 ^ ds.length := by
  induction ds using List.reverseRecOn with
  | nil => decide
  | append_singleton ds c ih =>
    have hlead : digitsValue ds < 10 ^ ds.length := ih fun d hd => h d (List.mem_append_left _ hd)
    have hc : 48 ≤ c.toNat ∧ c.toNat ≤ 57 := by
      simpa [Char.isDigit, UInt32.le_iff_toNat_le] using h c (List.mem_append_right _ (by simp))
    have hlast : digitValue c < 10 := by
      show c.toNat - 48 < 10
      omega
    have hvalue : digitsValue (ds ++ [c]) = digitsValue ds * 10 + digitValue c := by
      simp [digitsValue]
    rw [hvalue, List.length_append, List.length_singleton, Nat.pow_succ]
    omega

/-- A number of at most so many digits is less than their power of ten. -/
theorem digits?_lt {least most n : Nat} {cs r : List Char}
    (h : digits? least (some most) cs = some (n, r)) :
    n < 10 ^ min most (cs.takeWhile Char.isDigit).length := by
  unfold digits? at h
  dsimp only at h
  split_ifs at h
  cases h
  rw [← List.length_take]
  exact digitsValue_lt fun c hc => List.mem_takeWhile_imp (List.mem_of_mem_take hc)

theorem fraction?_lt {cs r : List Char} {n : Nat} (h : fraction? cs = some (n, r)) :
    n < billion := by
  obtain ⟨⟨m, r'⟩, hm, h⟩ := Option.bind_eq_some_iff.mp h
  cases h
  have hlt := digits?_lt hm
  generalize (cs.takeWhile Char.isDigit).length = k at hlt ⊢
  -- the missing digits are filled up with zeros
  calc m * 10 ^ (9 - k) < 10 ^ min 9 k * 10 ^ (9 - k) :=
        Nat.mul_lt_mul_of_pos_right hlt (Nat.pow_pos (by decide))
    _ ≤ 10 ^ 9 := by
        rw [← Nat.pow_add]
        exact Nat.pow_le_pow_right (by decide) (by omega)

theorem offset?_dvd {colon : List Char → Option (List Char)} {cs r : List Char} {o : Int}
    (h : offset? colon cs = some (o, r)) : (60 : Int) ∣ o := by
  cases cs with
  | nil => cases h
  | cons c cs =>
    unfold offset? at h
    dsimp only at h
    by_cases hz : (decide (c = 'Z') || decide (c = 'z')) = true
    · rw [if_pos hz] at h
      cases h
      exact Int.dvd_zero _
    rw [if_neg hz] at h
    -- in either direction the offset has whole minutes
    split_ifs at h
    all_goals
      obtain ⟨⟨hour, r₁⟩, -, h⟩ := Option.bind_eq_some_iff.mp h
      obtain ⟨r₂, -, h⟩ := Option.bind_eq_some_iff.mp h
      obtain ⟨⟨min, r₃⟩, -, h⟩ := Option.bind_eq_some_iff.mp h
      dsimp only at h
      split_ifs at h
      cases h
      omega

theorem optionalFraction?_lt {cs r : List Char} {n : Nat} (h : optionalFraction? cs = some (n, r)) :
    n < billion := by
  unfold optionalFraction? at h
  split at h
  · exact fraction?_lt h
  · cases h
    decide

theorem valid_of_ofDate? {y : Int} {m d h min s nano : Nat} {i : Instant} (hnano : nano < billion)
    (hi : ofDate? y m d h min s nano = some i) : i.Valid := by
  unfold ofDate? at hi
  split at hi
  · next hguard =>
    simp only [Bool.and_eq_true, decide_eq_true_eq] at hguard
    cases hi
    unfold billion at hnano
    refine ⟨?_, ?_, fun hleap => ?_⟩
    · show _ < 86400
      dsimp only
      split_ifs <;> omega
    · show _ < 2 * 1000000000
      dsimp only [billion]
      split_ifs <;> omega
    · dsimp only [billion] at hleap ⊢
      split_ifs at hleap ⊢ <;> omega
  · cases hi

theorem valid_of_shift? {i j : Instant} {seconds : Int} (hi : i.Valid) (h : (60 : Int) ∣ seconds)
    (hj : i.shift? seconds = some j) : j.Valid := by
  unfold shift? at hj
  dsimp only at hj
  split at hj
  · cases hj
    refine ⟨?_, hi.nanosecond_lt, fun hleap => ?_⟩
    · show _ < 86400
      dsimp only [daySeconds]
      omega
    · have := hi.leap hleap
      dsimp only [daySeconds]
      omega
  · cases hj

theorem valid_of_ofTimestamp? {cs : List Char} {i : Instant} (h : ofTimestamp? cs = some i) :
    i.Valid := by
  obtain ⟨⟨y, r⟩, -, h⟩ := Option.bind_eq_some_iff.mp h
  obtain ⟨r, -, h⟩ := Option.bind_eq_some_iff.mp h
  obtain ⟨⟨m, r⟩, -, h⟩ := Option.bind_eq_some_iff.mp h
  obtain ⟨r, -, h⟩ := Option.bind_eq_some_iff.mp h
  obtain ⟨⟨d, r⟩, -, h⟩ := Option.bind_eq_some_iff.mp h
  obtain ⟨r, -, h⟩ := Option.bind_eq_some_iff.mp h
  obtain ⟨⟨hour, r⟩, -, h⟩ := Option.bind_eq_some_iff.mp h
  obtain ⟨r, -, h⟩ := Option.bind_eq_some_iff.mp h
  obtain ⟨⟨min, r⟩, -, h⟩ := Option.bind_eq_some_iff.mp h
  obtain ⟨r, -, h⟩ := Option.bind_eq_some_iff.mp h
  obtain ⟨⟨s, r⟩, -, h⟩ := Option.bind_eq_some_iff.mp h
  obtain ⟨⟨nano, r⟩, hnano, h⟩ := Option.bind_eq_some_iff.mp h
  obtain ⟨⟨offset, r⟩, hoffset, h⟩ := Option.bind_eq_some_iff.mp h
  dsimp only at h
  split at h
  · obtain ⟨j, hj, h⟩ := Option.bind_eq_some_iff.mp h
    exact valid_of_shift? (valid_of_ofDate? (optionalFraction?_lt hnano) hj) (offset?_dvd hoffset) h
  · cases h

theorem valid_of_ofSeconds? {mark : List Char → Option (List Char)} {cs : List Char} {i : Instant}
    (h : ofSeconds? mark cs = some i) : i.Valid := by
  obtain ⟨⟨⟨y, m, d⟩, r⟩, -, h⟩ := Option.bind_eq_some_iff.mp h
  obtain ⟨r, -, h⟩ := Option.bind_eq_some_iff.mp h
  obtain ⟨⟨⟨hour, min⟩, r⟩, -, h⟩ := Option.bind_eq_some_iff.mp h
  obtain ⟨r, -, h⟩ := Option.bind_eq_some_iff.mp h
  obtain ⟨⟨s, r⟩, -, h⟩ := Option.bind_eq_some_iff.mp h
  obtain ⟨⟨nano, r⟩, hnano, h⟩ := Option.bind_eq_some_iff.mp h
  dsimp only at h
  split at h
  · exact valid_of_ofDate? (optionalFraction?_lt hnano) h
  · cases h

theorem valid_of_ofMinutes? {cs : List Char} {i : Instant} (h : ofMinutes? cs = some i) :
    i.Valid := by
  obtain ⟨⟨⟨y, m, d⟩, r⟩, -, h⟩ := Option.bind_eq_some_iff.mp h
  obtain ⟨r, -, h⟩ := Option.bind_eq_some_iff.mp h
  obtain ⟨⟨⟨hour, min⟩, r⟩, -, h⟩ := Option.bind_eq_some_iff.mp h
  dsimp only at h
  split at h
  · exact valid_of_ofDate? (by decide) h
  · cases h

theorem valid_of_ofDay? {cs : List Char} {i : Instant} (h : ofDay? cs = some i) : i.Valid := by
  obtain ⟨⟨⟨y, m, d⟩, r⟩, -, h⟩ := Option.bind_eq_some_iff.mp h
  dsimp only at h
  split at h
  · exact valid_of_ofDate? (by decide) h
  · cases h

/-- **Whatever is read is a time of day.** -/
theorem valid_of_ofText? {text : String} {i : Instant} (h : ofText? text = some i) : i.Valid := by
  unfold ofText? at h
  simp only [Option.orElse_eq_orElse, Option.orElse_eq_or, Option.or_eq_some_iff] at h
  rcases h with h | ⟨-, h | ⟨-, h | ⟨-, h | ⟨-, h⟩⟩⟩⟩
  · exact valid_of_ofTimestamp? h
  · exact valid_of_ofSeconds? h
  · exact valid_of_ofSeconds? h
  · exact valid_of_ofMinutes? h
  · exact valid_of_ofDay? h

section Order

variable {i j : Instant}

/-- The order of the days and of the times of one day. -/
theorem Before.year_le (h : i.Before j) : i.year ≤ j.year := by
  unfold year
  rcases h with hday | ⟨hday, -⟩
  · have := Calendar.dateOf_lt hday
    omega
  · rw [hday]

/-- In one year an earlier instant has the smaller text. -/
theorem afterYear_lt (hi : i.Valid) (hj : j.Valid) (hyear : i.year = j.year)
    (h : i.millis.Before j.millis) : i.afterYear < j.afterYear := by
  have hmonth := Calendar.month_dateOf j.day
  have hday := Calendar.day_dateOf j.day
  have hsecond := hj.second_lt
  have hnano := hj.nanosecond_lt
  have hleap := hi.leap
  have hleap' := hj.leap
  unfold daySeconds at hsecond
  unfold billion at hnano hleap hleap'
  unfold afterYear
  rcases h with h | ⟨hsame, h⟩
  · -- the dates differ
    have hdate := Calendar.dateOf_lt h
    simp only [year] at hyear
    rcases hdate with hlt | ⟨-, hlt⟩
    · exact absurd hyear (Int.ne_of_lt hlt)
    refine padded_lt_of_lex (by omega) ?_
    rcases hlt with hlt | ⟨heq, hlt⟩
    · exact .inl hlt
    · exact .inr ⟨heq, padded_lt_of_lex (by omega) (.inl hlt)⟩
  · -- the times differ
    replace hsame : i.day = j.day := hsame
    replace h : i.second < j.second ∨ i.second = j.second ∧
      i.nanosecond / 1000000 < j.nanosecond / 1000000 := h
    rw [hsame]
    refine List.append_left_lt (List.cons_lt_cons_iff.mpr (.inr ⟨rfl, ?_⟩))
    refine List.append_left_lt (List.cons_lt_cons_iff.mpr (.inr ⟨rfl, ?_⟩))
    unfold shownSecond shownMilli billion
    refine padded_lt_of_lex (by omega) (or_iff_not_imp_left.mpr fun hhour => ⟨by omega, ?_⟩)
    refine padded_lt_of_lex (by omega) (or_iff_not_imp_left.mpr fun hmin => ⟨by omega, ?_⟩)
    refine padded_lt_of_lex (by split_ifs <;> omega)
      (or_iff_not_imp_left.mpr fun hsec => ⟨by split_ifs at hsec ⊢ <;> omega, ?_⟩)
    refine padded_append_lt (by split_ifs <;> omega) ?_ _ _
    split_ifs at hsec ⊢ <;> omega

/-- The milliseconds are all that the text has. -/
theorem write_eq_of_millis_eq (h : i.millis = j.millis) :
    i.write .millis "Z" = j.write .millis "Z" := by
  obtain ⟨day, second, nano⟩ := i
  obtain ⟨day', second', nano'⟩ := j
  obtain ⟨rfl, rfl, hnano⟩ : day = day' ∧ second = second' ∧ nano / 1000000 = nano' / 1000000 := by
    simpa [millis] using h
  have hleap : billion ≤ nano ↔ billion ≤ nano' := by
    unfold billion
    omega
  have hrest : (nano - billion) / 1000000 = (nano' - billion) / 1000000 := by
    unfold billion
    omega
  simp only [write, Fraction.chars, hleap]
  split
  · rw [hrest]
  · rw [hnano]

theorem Before.millis (h : i.Before j) (hne : i.millis ≠ j.millis) : i.millis.Before j.millis := by
  obtain ⟨day, second, nano⟩ := i
  obtain ⟨day', second', nano'⟩ := j
  rcases h with h | ⟨rfl, h | ⟨rfl, h⟩⟩
  · exact .inl h
  · exact .inr ⟨rfl, .inl h⟩
  · refine .inr ⟨rfl, .inr ⟨rfl, Nat.lt_of_le_of_ne (Nat.div_le_div_right (Nat.le_of_lt h)) ?_⟩⟩
    rintro (heq : nano / 1000000 = nano' / 1000000)
    exact hne (by simp only [Instant.millis, heq])

/-- **An earlier instant has the smaller text**, if the two differ in milliseconds, and if its year
is not misplaced. -/
theorem write_lt (hi : i.Valid) (hj : j.Valid) (h : i.Before j) (hne : i.millis ≠ j.millis)
    (hplace : ¬ Misplaced i.year j.year) : i.write .millis "Z" < j.write .millis "Z" := by
  rw [String.lt_iff_toList_lt, toList_write, toList_write]
  rcases Int.lt_or_eq_of_le h.year_le with hyear | hyear
  · exact (yearChars_lt hyear _ _).1 hplace
  · rw [hyear]
    refine List.append_left_lt (List.cons_lt_cons_iff.mpr (.inr ⟨rfl, ?_⟩))
    exact afterYear_lt hi hj hyear (h.millis hne)

/-- An instant of a misplaced year has the greater text. -/
theorem write_lt_of_misplaced (hplace : Misplaced i.year j.year) :
    j.write .millis "Z" < i.write .millis "Z" := by
  rw [String.lt_iff_toList_lt, toList_write, toList_write]
  exact (yearChars_lt hplace.1 _ _).2 hplace

end Order

end Instant

end ContentIndex
