import ContentIndex.Index.Host
import ContentIndex.Index.Lock
import ContentIndex.Proofs.InstantReading
import ContentIndex.Proofs.StoredValues

/-!
# Timestamps

A lock says when it was acquired, with as many digits of the second as are needed. The timestamp is
read back as the instant that it was written from, so a lock is read back from its stored bytes.

## Main results

* `Instant.ofLooseTimestamp?_write`: **a timestamp is read back**
* `Lock.ofBytes?_toBytes`: so is a lock
* `Instant.since_ofNanoseconds`: what lies between two readings of the clock
-/

namespace ContentIndex

namespace Instant

/-! ### Parts of timestamps -/

theorem trimStart_cons_of_isDigit {c : Char} {r : List Char} (hc : c.isDigit) :
    Text.trimStart (c :: r) = c :: r := by
  simp [Text.trimStart, Text.isBlank_of_isDigit hc]

theorem trimStart_padded (w n : Nat) (r : List Char) :
    Text.trimStart (padded w n ++ r) = padded w n ++ r := by
  obtain ⟨c, ds, hds, hc⟩ := exists_padded_eq_cons w n
  rw [hds, List.cons_append]
  exact trimStart_cons_of_isDigit hc

/-- A number of one or two digits is read from two. -/
theorem number?_padded {n : Nat} (h : n < 100) (r : List Char) :
    number? (padded 2 n ++ r) = some (n, r) := by
  rw [number?, trimStart_padded]
  exact digits?_padded (by decide) h (by decide)

/-- After a sign, a year is read up to the next character that is no digit. -/
theorem digits?_padded_of_not_isDigit (w n : Nat) {c : Char} (hc : c.isDigit = false)
    (r : List Char) : digits? 1 none (padded w n ++ c :: r) = some (n, c :: r) := by
  have htake : (padded w n ++ c :: r).takeWhile Char.isDigit = padded w n := by
    rw [takeWhile_padded_append, List.takeWhile_cons_of_neg (by simp [hc]), List.append_nil]
  have hlength : ¬ (padded w n).length < 1 := by
    obtain ⟨d, ds, hds, -⟩ := exists_padded_eq_cons w n
    simp [hds]
  unfold digits?
  dsimp only
  rw [htake, if_neg hlength, List.drop_left' rfl]
  exact congrArg (fun m => some (m, c :: r)) (digitsValue_padded w n)

/-- A year is read back. -/
theorem year?_yearChars (y : Int) (r : List Char) :
    year? (yearChars y ++ '-' :: r) = some (y, '-' :: r) := by
  unfold yearChars
  by_cases hneg : y < 0
  · have habs : (-(y.natAbs : Int)) = y := by omega
    rw [if_pos hneg]
    show Option.map (fun p : Nat × List Char => (-(p.1 : Int), p.2))
      (digits? 1 none (padded 4 y.natAbs ++ '-' :: r)) = _
    rw [digits?_padded_of_not_isDigit 4 _ (by decide), Option.map_some, habs]
  · have habs : (y.natAbs : Int) = y := by omega
    by_cases hfour : y ≤ 9999
    · simp only [if_neg hneg, if_pos hfour, List.nil_append, year?]
      rw [trimStart_padded]
      obtain ⟨c, ds, hds, hc⟩ := exists_padded_eq_cons 4 y.natAbs
      have hread : digits? 1 (some 4) (padded 4 y.natAbs ++ '-' :: r) = some (y.natAbs, '-' :: r) :=
        digits?_padded (by decide) (by omega) (by decide)
      rw [hds, List.cons_append] at hread ⊢
      split
      · next heq =>
        cases heq
        cases hc
      · next heq =>
        cases heq
        cases hc
      · rw [hread, Option.map_some, habs]
    · rw [if_neg hneg, if_neg hfour]
      show Option.map (fun p : Nat × List Char => ((p.1 : Int), p.2))
        (digits? 1 none (padded 4 y.natAbs ++ '-' :: r)) = _
      rw [digits?_padded_of_not_isDigit 4 _ (by decide), Option.map_some, habs]

/-- As many digits as are needed tell the nanoseconds. -/
theorem optionalFraction?_shortest {nano : Nat} (h : nano < billion) :
    optionalFraction? (Fraction.shortest.chars nano ++ ['Z']) = some (nano, ['Z']) := by
  unfold billion at h
  have hread {w n : Nat} (hw : 0 < w) (hnine : w ≤ 9) (hn : n < 10 ^ w) :
      optionalFraction? (('.' :: padded w n) ++ ['Z']) = some (n * 10 ^ (9 - w), ['Z']) :=
    fraction?_padded hw hnine hn
  unfold Fraction.chars
  dsimp only
  split_ifs with hzero hmillis hmicros
  · subst hzero
    rfl
  · rw [hread (by decide) (by decide) (by omega)]
    exact congrArg (fun n => some (n, ['Z'])) (by omega)
  · rw [hread (by decide) (by decide) (by omega)]
    exact congrArg (fun n => some (n, ['Z'])) (by omega)
  · rw [hread (by decide) (by decide) (by omega)]
    exact congrArg (fun n => some (n, ['Z'])) (by omega)

/-! ### Timestamps that are read back -/

variable {i : Instant}

theorem toList_write_shortest (i : Instant) :
    (i.write .shortest "Z").toList = yearChars i.year ++ '-' ::
      (padded 2 (Calendar.dateOf i.day).2.1 ++ '-' :: (padded 2 (Calendar.dateOf i.day).2.2 ++
        'T' :: (padded 2 (i.second / 3600) ++ ':' :: (padded 2 (i.second / 60 % 60) ++
          ':' :: (padded 2 i.shownSecond ++ (Fraction.shortest.chars i.shownNano ++ ['Z'])))))) := by
  simp [write, year, shownSecond, shownNano]

/-- **A timestamp is read back.** -/
theorem ofLooseTimestamp?_write (hi : i.Valid) (hyear : Calendar.isYear i.year) :
    ofLooseTimestamp? (i.write .shortest "Z") = some i := by
  have hsecond := hi.second_lt
  have hnano := hi.nanosecond_lt
  unfold daySeconds at hsecond
  have hmonth := Calendar.month_dateOf i.day
  have hday := Calendar.day_dateOf i.day
  obtain ⟨-, hle, -, -⟩ := hi.shown
  have hshownNano : i.shownNano < billion := by
    unfold shownNano billion at *
    split_ifs <;> omega
  unfold ofLooseTimestamp?
  rw [toList_write_shortest]
  refine Option.bind_eq_some_iff.mpr ⟨_, year?_yearChars _ _, ?_⟩
  refine Option.bind_eq_some_iff.mpr ⟨_, rfl, ?_⟩
  refine Option.bind_eq_some_iff.mpr ⟨_, number?_padded (by omega) _, ?_⟩
  refine Option.bind_eq_some_iff.mpr ⟨_, rfl, ?_⟩
  refine Option.bind_eq_some_iff.mpr ⟨_, number?_padded (by omega) _, ?_⟩
  refine Option.bind_eq_some_iff.mpr ⟨_, rfl, ?_⟩
  refine Option.bind_eq_some_iff.mpr ⟨_, number?_padded (by omega) _, ?_⟩
  refine Option.bind_eq_some_iff.mpr ⟨_, rfl, ?_⟩
  refine Option.bind_eq_some_iff.mpr ⟨_, number?_padded (by omega) _, ?_⟩
  refine Option.bind_eq_some_iff.mpr ⟨_, rfl, ?_⟩
  refine Option.bind_eq_some_iff.mpr ⟨_, number?_padded (by omega) _, ?_⟩
  refine Option.bind_eq_some_iff.mpr ⟨_, optionalFraction?_shortest hshownNano, ?_⟩
  refine Option.bind_eq_some_iff.mpr ⟨_, rfl, ?_⟩
  dsimp only
  rw [if_pos List.all_nil]
  exact Option.bind_eq_some_iff.mpr
    ⟨_, ofDate?_shown hi hyear, shift?_zero hi hyear⟩

/-! ### Readings of the clock -/

theorem valid_ofNanoseconds (n : Nat) : (ofNanoseconds n).Valid where
  second_lt := Nat.mod_lt _ (by decide)
  nanosecond_lt := Nat.lt_of_lt_of_le (Nat.mod_lt _ (by decide)) (by decide)
  leap h := absurd (Nat.mod_lt n (by decide)) (Nat.not_lt.mpr h)

/-- What lies between two readings of the clock. -/
theorem since_ofNanoseconds (n m : Nat) :
    (ofNanoseconds n).since (ofNanoseconds m) = (n : Int) - m := by
  have hn : ¬ billion ≤ n % billion := Nat.not_le.mpr (Nat.mod_lt _ (by decide))
  have hm : ¬ billion ≤ m % billion := Nat.not_le.mpr (Nat.mod_lt _ (by decide))
  unfold since ofNanoseconds
  dsimp only
  rw [if_neg hn, if_neg hm]
  unfold billion daySeconds
  split_ifs <;> omega

end Instant

namespace Lock

/-- **A lock is read back from its stored bytes.** -/
theorem ofBytes?_toBytes {l : Lock} (hvalid : l.acquired.Valid)
    (hyear : Calendar.isYear l.acquired.year) : ofBytes? l.toBytes = some l := by
  rw [ofBytes?, draftOfBytes?_toBytes, Option.bind_some]
  simp [ofDraft?, toValue, Json.Value.draft, Json.Value.memberDrafts, Json.Draft.fields?,
    Json.Draft.members?, Json.Draft.fieldsAmong?, Json.Draft.uniqueMember?, Json.MemberName.names,
    Json.Draft.string?, Instant.ofLooseTimestamp?_write hvalid hyear]

end Lock

end ContentIndex
