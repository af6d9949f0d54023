import ContentIndex.Proofs.InstantText

/-!
# Reading canonical texts

The canonical text of an instant is a datetime with an offset, and as such it is read back if its
year has four digits and no sign. With a sign it is none: only datetimes without an offset may have
a sign, and they end in a digit.

## Main results

* `Instant.canonical?_write`: **the canonical text of a year of four digits is canonical**
* `Instant.canonical?_write_of_outlying`: **that of any other year is not even read**
-/

namespace ContentIndex

namespace Instant

/-! ### Numbers -/

/-- What is taken from the digits at the start is read as a number. -/
theorem digits?_append {ds r : List Char} {least most : Nat} (hleast : least ≤ ds.length)
    (htake : ((ds ++ r).takeWhile Char.isDigit).take most = ds) :
    digits? least (some most) (ds ++ r) = some (digitsValue ds, r) := by
  unfold digits?
  dsimp only
  rw [htake, if_neg (Nat.not_lt_of_le hleast), List.drop_left' rfl]
  rfl

theorem digitsValue_padded (w n : Nat) : digitsValue (padded w n) = n := by
  have hzeros (k : Nat) (ds : List Char) :
      digitsValue (List.replicate k '0' ++ ds) = digitsValue ds := by
    induction k with
    | zero => rfl
    | succ k ih => exact ih
  rw [padded, hzeros, digitsValue_toDigits]

theorem length_padded {w n : Nat} (hw : 0 < w) (h : n < 10 ^ w) : (padded w n).length = w := by
  have hlength := (Nat.length_toDigits_le_iff (b := 10) (by decide) hw).mpr h
  rw [padded, List.length_append, List.length_replicate, Nat.sub_add_cancel hlength]

theorem takeWhile_padded_append (w n : Nat) (r : List Char) :
    (padded w n ++ r).takeWhile Char.isDigit = padded w n ++ r.takeWhile Char.isDigit :=
  List.takeWhile_append_of_pos fun _ hc => isDigit_of_mem_padded hc

/-- A number is read from as many digits as it is padded to. -/
theorem digits?_padded {w n least : Nat} {r : List Char} (hw : 0 < w) (h : n < 10 ^ w)
    (hleast : least ≤ w) : digits? least (some w) (padded w n ++ r) = some (n, r) := by
  have hlength := length_padded hw h
  rw [digits?_append (by omega), digitsValue_padded]
  rw [takeWhile_padded_append, List.take_left' hlength]

/-- The digits of a fraction of a second are read up to the offset. -/
theorem fraction?_padded {w n : Nat} (hw : 0 < w) (hnine : w ≤ 9) (h : n < 10 ^ w) :
    fraction? (padded w n ++ ['Z']) = some (n * 10 ^ (9 - w), ['Z']) := by
  have hlength : (padded w n).length = w := length_padded hw h
  have hdigits : (padded w n ++ ['Z']).takeWhile Char.isDigit = padded w n := by
    rw [takeWhile_padded_append]
    exact List.append_nil _
  have hread : digits? 1 (some 9) (padded w n ++ ['Z']) = some (n, ['Z']) := by
    rw [digits?_append (by omega), digitsValue_padded]
    rw [hdigits, List.take_of_length_le (by omega)]
  unfold fraction?
  rw [hread, hdigits]
  show some (n * 10 ^ (9 - (padded w n).length), (padded w n ++ ['Z']).drop (padded w n).length) = _
  rw [hlength, List.drop_left' hlength]

/-! ### The parts of an instant -/

section Parts

variable {i : Instant}

/-- The nanosecond of the second as it is written. -/
def shownNano (i : Instant) : Nat :=
  if billion ≤ i.nanosecond then i.nanosecond - billion else i.nanosecond

/-- What is shown of a time of day. -/
theorem Valid.shown (hi : i.Valid) :
    i.shownSecond = i.second % 60 + (if billion ≤ i.nanosecond then 1 else 0) ∧
      i.shownSecond ≤ 60 ∧ (i.shownSecond = 60 ↔ billion ≤ i.nanosecond) ∧ i.shownMilli < 1000 := by
  have hleap := hi.leap
  have hnano := hi.nanosecond_lt
  unfold shownSecond shownMilli billion at *
  split_ifs <;> omega

/-- The parts that are written make up the instant. -/
theorem ofDate?_shown (hi : i.Valid) (hyear : Calendar.isYear i.year) :
    ofDate? i.year (Calendar.dateOf i.day).2.1 (Calendar.dateOf i.day).2.2 (i.second / 3600)
      (i.second / 60 % 60) i.shownSecond i.shownNano = some i := by
  have hsecond := hi.second_lt
  have hleap := hi.leap
  obtain ⟨hshown, hle, hsixty, -⟩ := hi.shown
  unfold daySeconds at hsecond
  have hguard : (Calendar.isYear i.year &&
      Calendar.isDate i.year (Calendar.dateOf i.day).2.1 (Calendar.dateOf i.day).2.2 &&
      i.second / 3600 < 24 && i.second / 60 % 60 < 60 && i.shownSecond ≤ 60) = true := by
    simp only [Bool.and_eq_true, decide_eq_true_eq]
    exact ⟨⟨⟨⟨hyear, Calendar.isDate_dateOf i.day⟩, by omega⟩, by omega⟩, hle⟩
  have hday : Calendar.dayNumber i.year (Calendar.dateOf i.day).2.1 (Calendar.dateOf i.day).2.2 =
      i.day := Calendar.dayNumber_dateOf i.day
  rw [ofDate?, if_pos hguard, hday]
  unfold shownNano
  obtain ⟨day, second, nanosecond⟩ := i
  dsimp only at *
  by_cases hl : billion ≤ nanosecond
  · have hlast := hleap hl
    rw [if_pos (hsixty.mpr hl), if_pos (hsixty.mpr hl), if_pos hl, Nat.sub_add_cancel hl]
    simp only [Option.some.injEq, Instant.mk.injEq, true_and, and_true]
    omega
  · have hne : shownSecond ⟨day, second, nanosecond⟩ ≠ 60 := fun h => hl (hsixty.mp h)
    rw [if_neg hl] at hshown
    rw [if_neg hne, if_neg hne, if_neg hl]
    simp only [Option.some.injEq, Instant.mk.injEq, true_and, and_true]
    omega

/-- Without an offset nothing is shifted. -/
theorem shift?_zero (hi : i.Valid) (hyear : Calendar.isYear i.year) : i.shift? 0 = some i := by
  have hsecond := hi.second_lt
  unfold daySeconds at hsecond
  have hday : (i.day * (86400 : Nat) + i.second - 0) / (86400 : Nat) = i.day := by omega
  have htime : ((i.day * (86400 : Nat) + i.second - 0) % (86400 : Nat)).toNat = i.second := by omega
  unfold year at hyear
  unfold shift? daySeconds
  simp only [hday, htime, hyear, if_true]

end Parts

/-! ### Years of four digits -/

section Canonical

variable {i : Instant}

/-- The instant with the milliseconds that are written. -/
def truncated (i : Instant) : Instant :=
  { i with nanosecond := i.nanosecond / 1000000 * 1000000 }

theorem write_truncated (i : Instant) :
    i.truncated.write .millis "Z" = i.write .millis "Z" := by
  refine write_eq_of_millis_eq ?_
  simp [truncated, millis]

theorem Valid.truncated (hi : i.Valid) : i.truncated.Valid where
  second_lt := hi.second_lt
  nanosecond_lt := Nat.lt_of_le_of_lt (Nat.div_mul_le_self _ _) hi.nanosecond_lt
  leap h := hi.leap (Nat.le_trans h (Nat.div_mul_le_self _ _))

/-- Milliseconds are shown of an instant as nanoseconds are of what is left of it. -/
theorem shown_truncated (i : Instant) : i.truncated.shownSecond = i.shownSecond ∧
    i.truncated.shownNano = i.shownMilli * 1000000 := by
  unfold truncated shownSecond shownNano shownMilli billion
  dsimp only
  split_ifs <;> omega

/-- A canonical text is a datetime with an offset. -/
theorem ofTimestamp?_write (hi : i.Valid) (hyear : 0 ≤ i.year ∧ i.year ≤ 9999) :
    ofTimestamp? (i.write .millis "Z").toList = some i.truncated := by
  have hsecond := hi.second_lt
  unfold daySeconds at hsecond
  have hmonth := Calendar.month_dateOf i.day
  have hday := Calendar.day_dateOf i.day
  obtain ⟨-, hle, -, hmilli⟩ := hi.shown
  have hsign : yearChars i.year = padded 4 i.year.natAbs := by
    rw [yearChars, if_neg (by omega), if_pos hyear.2]
    rfl
  have habs : (i.year.natAbs : Int) = i.year := by omega
  have hread {n : Nat} (hn : n < 100) (r : List Char) :
      digits? 2 (some 2) (padded 2 n ++ r) = some (n, r) :=
    digits?_padded (by decide) hn (Nat.le_refl 2)
  have hreadYear (r : List Char) :
      digits? 4 (some 4) (padded 4 i.year.natAbs ++ r) = some (i.year.natAbs, r) :=
    digits?_padded (by decide) (by omega) (Nat.le_refl 4)
  have hreadMonth := hread (n := (Calendar.dateOf i.day).2.1) (by omega)
  have hreadDay := hread (n := (Calendar.dateOf i.day).2.2) (by omega)
  have hreadHour := hread (n := i.second / 3600) (by omega)
  have hreadMinute := hread (n := i.second / 60 % 60) (by omega)
  have hreadSecond := hread (n := i.shownSecond) (by omega)
  rw [toList_write, hsign, afterYear]
  refine Option.bind_eq_some_iff.mpr ⟨_, hreadYear _, ?_⟩
  refine Option.bind_eq_some_iff.mpr ⟨_, rfl, ?_⟩
  refine Option.bind_eq_some_iff.mpr ⟨_, hreadMonth _, ?_⟩
  refine Option.bind_eq_some_iff.mpr ⟨_, rfl, ?_⟩
  refine Option.bind_eq_some_iff.mpr ⟨_, hreadDay _, ?_⟩
  refine Option.bind_eq_some_iff.mpr ⟨_, rfl, ?_⟩
  refine Option.bind_eq_some_iff.mpr ⟨_, hreadHour _, ?_⟩
  refine Option.bind_eq_some_iff.mpr ⟨_, rfl, ?_⟩
  refine Option.bind_eq_some_iff.mpr ⟨_, hreadMinute _, ?_⟩
  refine Option.bind_eq_some_iff.mpr ⟨_, rfl, ?_⟩
  refine Option.bind_eq_some_iff.mpr ⟨_, hreadSecond _, ?_⟩
  refine Option.bind_eq_some_iff.mpr ⟨_, fraction?_padded (by decide) (by decide) hmilli, ?_⟩
  refine Option.bind_eq_some_iff.mpr ⟨_, rfl, ?_⟩
  dsimp only
  rw [if_pos List.isEmpty_nil]
  have hvalid : Calendar.isYear i.truncated.year := by
    show Calendar.isYear i.year
    simp only [Calendar.isYear, Bool.and_eq_true, decide_eq_true_eq]
    omega
  have hparts := ofDate?_shown hi.truncated hvalid
  rw [(shown_truncated i).1, (shown_truncated i).2] at hparts
  refine Option.bind_eq_some_iff.mpr ⟨_, ?_, shift?_zero hi.truncated hvalid⟩
  rw [habs]
  exact hparts

theorem isBlank_of_mem_write {c : Char} (h : c ∈ (i.write .millis "Z").toList) :
    Text.isBlank c = false := by
  have hdigit {w n : Nat} (hc : c ∈ padded w n) : Text.isBlank c = false :=
    Text.isBlank_of_isDigit (isDigit_of_mem_padded hc)
  have hyear (hc : c ∈ yearChars i.year) : Text.isBlank c = false := by
    rcases List.mem_append.mp hc with hc | hc
    · split_ifs at hc <;> simp at hc <;> subst hc <;> decide
    · exact hdigit hc
  rw [toList_write] at h
  simp only [afterYear, List.mem_append, List.mem_cons, List.not_mem_nil, or_false] at h
  rcases h with h | h | h | h | h | h | h | h | h | h | h | h | h | h
  all_goals first | exact hdigit h | exact hyear h | (subst h; decide)

/-- **The canonical text of a year of four digits is canonical.** -/
theorem canonical?_write (hi : i.Valid) (hyear : 0 ≤ i.year ∧ i.year ≤ 9999) :
    canonical? (i.write .millis "Z") = some (i.write .millis "Z") := by
  have hread : ofText? (i.write .millis "Z") = some i.truncated := by
    unfold ofText?
    dsimp only
    rw [Text.trim_eq_self fun c hc => isBlank_of_mem_write hc, ofTimestamp?_write hi hyear]
    rfl
  rw [canonical?, hread, Option.map_some, write_truncated]

end Canonical

/-! ### Other years -/

/-- The last character is a digit. -/
def EndsInDigit (cs : List Char) : Prop := ∃ c ∈ cs.getLast?, c.isDigit

theorem EndsInDigit.of_suffix {r cs : List Char} (hr : EndsInDigit r) (h : r <:+ cs) :
    EndsInDigit cs := by
  obtain ⟨p, rfl⟩ := h
  obtain ⟨c, hc, hdigit⟩ := hr
  exact ⟨c, List.mem_getLast?_append_of_mem_getLast? hc, hdigit⟩

/-- What is left of a text is its end; if nothing is left then the last character was read as a
digit. -/
def Leaves (cs r : List Char) : Prop := r <:+ cs ∧ (r = [] → EndsInDigit cs)

section Leaves

variable {cs r : List Char}

theorem Leaves.of_suffix {cs' : List Char} (h : Leaves cs r) (hs : cs <:+ cs') : Leaves cs' r :=
  ⟨h.1.trans hs, fun hr => (h.2 hr).of_suffix hs⟩

theorem leaves_drop {ds : List Char} (hpre : ds <+: cs) (hne : 1 ≤ ds.length)
    (hds : ∀ c ∈ ds, c.isDigit) : Leaves cs (cs.drop ds.length) := by
  obtain ⟨r, rfl⟩ := hpre
  rw [List.drop_left' rfl]
  refine ⟨List.suffix_append _ _, ?_⟩
  rintro rfl
  obtain ⟨c, hc⟩ := Option.isSome_iff_exists.mp (List.getLast?_isSome.mpr (List.length_pos_iff.mp hne))
  rw [List.append_nil]
  exact ⟨c, hc, hds c (List.mem_of_getLast? hc)⟩

theorem leaves_of_digits? {most : Option Nat} {n : Nat} (h : digits? 1 most cs = some (n, r)) :
    Leaves cs r := by
  have hpre := List.takeWhile_prefix (l := cs) Char.isDigit
  have hdigit {c : Char} (hc : c ∈ cs.takeWhile Char.isDigit) : c.isDigit :=
    List.mem_takeWhile_imp hc
  unfold digits? at h
  cases most with
  | none =>
    dsimp only at h
    split_ifs at h with hshort
    cases h
    exact leaves_drop hpre (Nat.le_of_not_lt hshort) fun c hc => hdigit hc
  | some k =>
    dsimp only at h
    split_ifs at h with hshort
    cases h
    exact leaves_drop ((List.take_prefix k _).trans hpre) (Nat.le_of_not_lt hshort)
      fun c hc => hdigit (List.mem_of_mem_take hc)

theorem leaves_of_number? {n : Nat} (h : number? cs = some (n, r)) : Leaves cs r :=
  (leaves_of_digits? h).of_suffix (List.dropWhile_suffix _)

theorem suffix_of_char? {c : Char} (h : char? c cs = some r) : r <:+ cs := by
  unfold char? at h
  split at h
  · split at h
    · cases h
      exact List.suffix_cons ..
    · cases h
  · cases h

theorem leaves_of_year? {y : Int} (h : year? cs = some (y, r)) : Leaves cs r := by
  have htrim : Text.trimStart cs <:+ cs := List.dropWhile_suffix _
  unfold year? at h
  split at h
  all_goals
    obtain ⟨⟨n, r'⟩, hn, h⟩ := Option.map_eq_some_iff.mp h
    cases h
  · next r' heq => exact (leaves_of_digits? hn).of_suffix ((List.suffix_cons ..).trans (heq ▸ htrim))
  · next r' heq => exact (leaves_of_digits? hn).of_suffix ((List.suffix_cons ..).trans (heq ▸ htrim))
  · exact (leaves_of_digits? hn).of_suffix htrim

theorem leaves_of_date? {date : Int × Nat × Nat} (h : date? cs = some (date, r)) : Leaves cs r := by
  obtain ⟨⟨y, r₁⟩, hy, h⟩ := Option.bind_eq_some_iff.mp h
  obtain ⟨r₂, hr₂, h⟩ := Option.bind_eq_some_iff.mp h
  obtain ⟨⟨m, r₃⟩, hm, h⟩ := Option.bind_eq_some_iff.mp h
  obtain ⟨r₄, hr₄, h⟩ := Option.bind_eq_some_iff.mp h
  obtain ⟨⟨d, r₅⟩, hd, h⟩ := Option.bind_eq_some_iff.mp h
  cases h
  have hmonth := (leaves_of_number? hm).of_suffix ((suffix_of_char? hr₂).trans (leaves_of_year? hy).1)
  exact (leaves_of_number? hd).of_suffix ((suffix_of_char? hr₄).trans hmonth.1)

theorem leaves_of_hourMinute? {time : Nat × Nat} (h : hourMinute? cs = some (time, r)) :
    Leaves cs r := by
  obtain ⟨⟨hour, r₁⟩, hhour, h⟩ := Option.bind_eq_some_iff.mp h
  obtain ⟨r₂, hr₂, h⟩ := Option.bind_eq_some_iff.mp h
  obtain ⟨⟨min, r₃⟩, hmin, h⟩ := Option.bind_eq_some_iff.mp h
  cases h
  exact (leaves_of_number? hmin).of_suffix ((suffix_of_char? hr₂).trans (leaves_of_number? hhour).1)

theorem length_of_digits? {least k n : Nat} (h : digits? least (some k) cs = some (n, r)) :
    least ≤ (cs.takeWhile Char.isDigit).length := by
  unfold digits? at h
  dsimp only at h
  split_ifs at h with hshort
  rw [List.length_take] at hshort
  omega

/-- A fraction ends in a digit, and without one the seconds do. -/
theorem Leaves.of_optionalFraction? {r' : List Char} {nano : Nat} (h : Leaves cs r)
    (hfraction : optionalFraction? r = some (nano, r')) : Leaves cs r' := by
  unfold optionalFraction? at hfraction
  split at hfraction
  · next r₁ =>
    obtain ⟨⟨n, r₂⟩, hn, hfraction⟩ := Option.bind_eq_some_iff.mp hfraction
    cases hfraction
    have hrest := leaves_drop (List.takeWhile_prefix _) (length_of_digits? hn)
      fun c hc => List.mem_takeWhile_imp hc
    exact hrest.of_suffix ((List.suffix_cons ..).trans h.1)
  · cases hfraction
    exact h

/-- **Without an offset a datetime ends in a digit.** -/
theorem endsInDigit_of_ofSeconds? {mark : List Char → Option (List Char)} {i : Instant}
    (hmark : ∀ cs r, mark cs = some r → r <:+ cs) (h : ofSeconds? mark cs = some i) :
    EndsInDigit cs := by
  obtain ⟨⟨⟨y, m, d⟩, r₁⟩, hdate, h⟩ := Option.bind_eq_some_iff.mp h
  obtain ⟨r₂, hr₂, h⟩ := Option.bind_eq_some_iff.mp h
  obtain ⟨⟨⟨hour, min⟩, r₃⟩, htime, h⟩ := Option.bind_eq_some_iff.mp h
  obtain ⟨r₄, hr₄, h⟩ := Option.bind_eq_some_iff.mp h
  obtain ⟨⟨s, r₅⟩, hs, h⟩ := Option.bind_eq_some_iff.mp h
  obtain ⟨⟨nano, r₆⟩, hnano, h⟩ := Option.bind_eq_some_iff.mp h
  dsimp only at h
  split_ifs at h with hempty
  have htimes := (leaves_of_hourMinute? htime).of_suffix ((hmark _ _ hr₂).trans (leaves_of_date? hdate).1)
  have hseconds := (leaves_of_number? hs).of_suffix ((suffix_of_char? hr₄).trans htimes.1)
  exact (hseconds.of_optionalFraction? hnano).2 (List.isEmpty_iff.mp hempty)

theorem endsInDigit_of_ofMinutes? {i : Instant} (h : ofMinutes? cs = some i) : EndsInDigit cs := by
  obtain ⟨⟨⟨y, m, d⟩, r₁⟩, hdate, h⟩ := Option.bind_eq_some_iff.mp h
  obtain ⟨r₂, hr₂, h⟩ := Option.bind_eq_some_iff.mp h
  obtain ⟨⟨⟨hour, min⟩, r₃⟩, htime, h⟩ := Option.bind_eq_some_iff.mp h
  dsimp only at h
  split_ifs at h with hempty
  have htimes := (leaves_of_hourMinute? htime).of_suffix
    ((suffix_of_char? hr₂).trans (leaves_of_date? hdate).1)
  exact htimes.2 (List.isEmpty_iff.mp hempty)

theorem endsInDigit_of_ofDay? {i : Instant} (h : ofDay? cs = some i) : EndsInDigit cs := by
  obtain ⟨⟨⟨y, m, d⟩, r⟩, hdate, h⟩ := Option.bind_eq_some_iff.mp h
  dsimp only at h
  split_ifs at h with hempty
  exact (leaves_of_date? hdate).2 (List.isEmpty_iff.mp hempty)

end Leaves

/-- A year that is not written with four digits has a sign, and a datetime with an offset has none. -/
theorem ofTimestamp?_write_of_outlying {i : Instant} (h : i.year < 0 ∨ 9999 < i.year) :
    ofTimestamp? (i.write .millis "Z").toList = none := by
  have hsign : ∃ c r, yearChars i.year = c :: r ∧ c.isDigit = false := by
    unfold yearChars
    by_cases hneg : i.year < 0
    · rw [if_pos hneg]
      exact ⟨'-', _, rfl, rfl⟩
    · rw [if_neg hneg, if_neg (by omega)]
      exact ⟨'+', _, rfl, rfl⟩
  obtain ⟨c, r, hcr, hc⟩ := hsign
  have hnone : digits? 4 (some 4) (i.write .millis "Z").toList = none := by
    rw [toList_write, hcr]
    simp [digits?, hc]
  unfold ofTimestamp?
  rw [hnone]
  rfl

/-- **The canonical text of any other year is not even read.** -/
theorem canonical?_write_of_outlying {i : Instant} (h : i.year < 0 ∨ 9999 < i.year) :
    canonical? (i.write .millis "Z") = none := by
  obtain ⟨p, hp⟩ : ∃ p, (i.write .millis "Z").toList = p ++ ['Z'] := ⟨_, String.toList_ofList⟩
  have hends : ¬ EndsInDigit (i.write .millis "Z").toList := by
    rintro ⟨c, hc, hdigit⟩
    rw [hp, List.getLast?_append] at hc
    cases hc
    cases hdigit
  have htrim (cs r : List Char) (hr : (some ∘ Text.trimStart) cs = some r) : r <:+ cs := by
    cases hr
    exact List.dropWhile_suffix _
  rw [canonical?, Option.map_eq_none_iff, Option.eq_none_iff_forall_ne_some]
  intro j hj
  unfold ofText? at hj
  simp only [Text.trim_eq_self fun c hc => isBlank_of_mem_write hc,
    ofTimestamp?_write_of_outlying h, Option.orElse_eq_orElse, Option.orElse_eq_or,
    Option.or_eq_some_iff, reduceCtorEq, false_or, true_and] at hj
  rcases hj with hj | ⟨-, hj | ⟨-, hj | ⟨-, hj⟩⟩⟩
  · exact hends (endsInDigit_of_ofSeconds? (fun _ _ hr => suffix_of_char? hr) hj)
  · exact hends (endsInDigit_of_ofSeconds? htrim hj)
  · exact hends (endsInDigit_of_ofMinutes? hj)
  · exact hends (endsInDigit_of_ofDay? hj)

end Instant

end ContentIndex
