import ContentIndex.Time.Instant
import Mathlib.Tactic.IntervalCases

/-!
# Days and dates

The date of a day is found by counting in years that begin in March, so that a leap day is the last
one of its year. Every day has a date, which tells the day, and later days have later dates.

## Main definitions

* `Calendar.marchStart`, `Calendar.marchDate`: the days of a year that begins in March

## Main results

* `Calendar.isDate_dateOf`, `Calendar.dayNumber_dateOf`: **the date of a day exists, and its day is
  that day**
* `Calendar.dateOf_lt`: **later days have later dates**
-/

namespace ContentIndex.Calendar

/-! ### Years that begin in March -/

/-- The first day of a year that begins in March. -/
def marchStart (y : Int) : Int := 365 * y + y / 4 - y / 100 + y / 400

/-- The date of a day of such a year. -/
def marchDate (y : Int) (d : Nat) : Int × Nat × Nat :=
  let month := (5 * d + 2) / 153
  let m := if month < 10 then month + 3 else month - 9
  (if m ≤ 2 then y + 1 else y, m, d - (153 * month + 2) / 5 + 1)

/-- The last day of such a year is the leap day of the year that begins before it ends. -/
theorem marchStart_succ (y : Int) :
    marchStart (y + 1) = marchStart y + if isLeapYear (y + 1) then 366 else 365 := by
  unfold marchStart isLeapYear
  split
  · next h =>
    simp at h
    omega
  · next h =>
    simp at h
    omega

theorem marchStart_mono {y z : Int} (h : y < z) : marchStart (y + 1) ≤ marchStart z := by
  unfold marchStart
  omega

/-- A day of a year is one of 365, or the leap day. -/
theorem le_of_lt_marchStart_succ {y : Int} {d : Nat} (h : marchStart y + d < marchStart (y + 1)) :
    d ≤ 364 ∨ d = 365 ∧ isLeapYear (y + 1) := by
  rw [marchStart_succ] at h
  split at h
  · next hleap =>
    simp only [hleap, and_true]
    omega
  · omega

theorem isDate_marchDate {y : Int} {d : Nat} (h : marchStart y + d < marchStart (y + 1)) :
    isDate (marchDate y d).1 (marchDate y d).2.1 (marchDate y d).2.2 := by
  have hd := le_of_lt_marchStart_succ h
  obtain ⟨month, hmonth⟩ : ∃ month, (5 * d + 2) / 153 = month := ⟨_, rfl⟩
  have hlast : month < 12 := by omega
  simp only [marchDate, isDate, daysInMonth, hmonth]
  clear h
  interval_cases month
  all_goals simp
  -- only February depends on the year
  any_goals omega
  rcases hd with hd | ⟨rfl, hleap⟩
  · split <;> omega
  · have hdays : (if isLeapYear (y + 1) = true then 29 else 28) = 29 := if_pos hleap
    omega

theorem dayNumber_marchDate (y : Int) {d : Nat} (hd : d ≤ 365) :
    dayNumber (marchDate y d).1 (marchDate y d).2.1 (marchDate y d).2.2 = marchStart y + d := by
  unfold marchDate dayNumber marchStart
  dsimp only
  split
  · split <;> omega
  · split <;> omega

/-! ### The year of a day -/

/-- A day of four centuries is one of a century, of four years in it, and of a year of these. Only
the last year of the four has a leap day, and the last year of a century has none, unless it is also
the last one of the four centuries. -/
theorem exists_parts {n : Nat} (h : n < 146097) : ∃ c q t d,
    n = 36524 * c + 1461 * q + 365 * t + d ∧ c < 4 ∧ q < 25 ∧ t < 4 ∧
      (d < 365 ∨ d = 365 ∧ t = 3 ∧ (q < 24 ∨ c = 3)) := by
  obtain ⟨c, hc⟩ : ∃ c, c = min 3 (n / 36524) := ⟨_, rfl⟩
  obtain ⟨q, hq⟩ : ∃ q, q = (n - 36524 * c) / 1461 := ⟨_, rfl⟩
  obtain ⟨t, ht⟩ : ∃ t, t = min 3 ((n - 36524 * c - 1461 * q) / 365) := ⟨_, rfl⟩
  exact ⟨c, q, t, n - 36524 * c - 1461 * q - 365 * t, by omega⟩

section Parts

variable {c q t d n : Nat}

/-- The year among four centuries is computed from the day without its parts. -/
theorem year_eq_of_parts (hc : c < 4) (hq : q < 25) (ht : t < 4)
    (hd : d < 365 ∨ d = 365 ∧ t = 3 ∧ (q < 24 ∨ c = 3))
    (hn : n = 36524 * c + 1461 * q + 365 * t + d) :
    (n - n / 1460 + n / 36524 - n / 146096) / 365 = 100 * c + 4 * q + t := by
  by_cases hlast : n = 146096
  · obtain ⟨rfl, rfl, rfl, rfl⟩ : c = 3 ∧ q = 24 ∧ t = 3 ∧ d = 365 := by omega
    subst hn
    rfl
  have hcentury : n / 36524 = c := by omega
  have hall : n / 146096 = 0 := by omega
  rw [hcentury, hall]
  -- near its end a period of four years counts as over, which only takes a day off the year
  by_cases hover : 1460 ≤ 24 * c + q + 365 * t + d
  · have hperiod : n / 1460 = 25 * c + q + 1 := by omega
    rw [hperiod]
    omega
  · have hperiod : n / 1460 = 25 * c + q := by omega
    rw [hperiod]
    omega

theorem marchStart_parts (hc : c < 4) (hq : q < 25) (ht : t < 4) (e : Int) :
    marchStart (400 * e + (100 * c + 4 * q + t : Nat)) =
      146097 * e + (36524 * c + 1461 * q + 365 * t : Nat) := by
  have hfour : (400 * e + (100 * c + 4 * q + t : Nat)) / 4 = 100 * e + 25 * c + q := by omega
  have hhundred : (400 * e + (100 * c + 4 * q + t : Nat)) / 100 = 4 * e + c := by omega
  have hall : (400 * e + (100 * c + 4 * q + t : Nat)) / 400 = e := by omega
  rw [marchStart, hfour, hhundred, hall]
  omega

theorem isLeapYear_parts (hq : q < 25) (h : t = 3 ∧ (q < 24 ∨ c = 3)) (e : Int) :
    isLeapYear (400 * e + (100 * c + 4 * q + t : Nat) + 1) := by
  unfold isLeapYear
  simp
  omega

end Parts

/-- Every day is one of a year that begins in March, and has the date that it has there. -/
theorem exists_march (n : Int) : ∃ (y : Int) (d : Nat), n = marchStart y + d ∧
    n < marchStart (y + 1) ∧ dateOf n = marchDate y d := by
  obtain ⟨day, hday⟩ : ∃ day : Nat, n % 146097 = day := ⟨(n % 146097).toNat, by omega⟩
  have hn := Int.mul_ediv_add_emod n 146097
  obtain ⟨c, q, t, d, hparts, hc, hq, ht, hd⟩ := exists_parts (n := day) (by omega)
  have hstart := marchStart_parts hc hq ht (n / 146097)
  have hsum : n = marchStart (400 * (n / 146097) + (100 * c + 4 * q + t : Nat)) + d := by omega
  refine ⟨_, d, hsum, ?_, ?_⟩
  · rw [marchStart_succ]
    rcases hd with hd | ⟨rfl, hlong⟩
    · split <;> omega
    · rw [if_pos (isLeapYear_parts hq hlong _)]
      omega
  · have hyear := year_eq_of_parts hc hq ht hd hparts
    have hfour : (100 * c + 4 * q + t) / 4 = 25 * c + q := by omega
    have hhundred : (100 * c + 4 * q + t) / 100 = c := by omega
    have hinYear : day - (365 * (100 * c + 4 * q + t) + (25 * c + q) - c) = d := by
      clear hyear hn hsum
      omega
    unfold dateOf
    simp only [hday, Int.toNat_natCast, hyear, hfour, hhundred, hinYear, Int.mul_comm _ 400]
    rfl

/-! ### Dates of days -/

/-- **The date of a day exists.** -/
theorem isDate_dateOf (n : Int) : isDate (dateOf n).1 (dateOf n).2.1 (dateOf n).2.2 := by
  obtain ⟨y, d, rfl, hn, hdate⟩ := exists_march n
  rw [hdate]
  exact isDate_marchDate hn

/-- **The date of a day tells the day.** -/
theorem dayNumber_dateOf (n : Int) :
    dayNumber (dateOf n).1 (dateOf n).2.1 (dateOf n).2.2 = n := by
  obtain ⟨y, d, rfl, hn, hdate⟩ := exists_march n
  have hd := le_of_lt_marchStart_succ hn
  rw [hdate]
  exact dayNumber_marchDate y (by omega)

/-- **Later days have later dates.** -/
theorem dateOf_lt {n m : Int} (h : n < m) : (dateOf n).1 < (dateOf m).1 ∨
    (dateOf n).1 = (dateOf m).1 ∧ ((dateOf n).2.1 < (dateOf m).2.1 ∨
      (dateOf n).2.1 = (dateOf m).2.1 ∧ (dateOf n).2.2 < (dateOf m).2.2) := by
  obtain ⟨y, d, rfl, hn, hdate⟩ := exists_march n
  obtain ⟨z, e, rfl, hm, hdate'⟩ := exists_march m
  rw [hdate, hdate']
  have hd := le_of_lt_marchStart_succ hn
  have he := le_of_lt_marchStart_succ hm
  rcases Int.lt_trichotomy y z with hyz | rfl | hyz
  · unfold marchDate
    dsimp only
    split_ifs <;> omega
  · unfold marchDate
    dsimp only
    split_ifs <;> omega
  · -- a later year begins after the other one has ended
    have hend := marchStart_mono hyz
    omega

theorem month_dateOf (n : Int) : (dateOf n).2.1 ≤ 12 := by
  have h := isDate_dateOf n
  simp only [isDate, Bool.and_eq_true, decide_eq_true_eq] at h
  exact h.1.1.2

theorem day_dateOf (n : Int) : (dateOf n).2.2 ≤ 31 := by
  have h := isDate_dateOf n
  simp only [isDate, Bool.and_eq_true, decide_eq_true_eq] at h
  refine Nat.le_trans h.2 ?_
  unfold daysInMonth
  split_ifs <;> decide

end ContentIndex.Calendar
