import Mathlib.Data.Option.Basic
import ContentIndex.Json.Printer
import ContentIndex.Proofs.Numerals

/-!
# What is written of numbers

Whole numbers and doubles are written as JSON allows numbers to be written: with digits on both
sides of a point, and with no zero in front that could be left out. So their texts are read, even
though a double may be read as another one than was written.

## Main definitions

* `DecimalLiteral.text`: the text of a literal
* `DecimalLiteral.IsAllowed`: texts of numbers as JSON allows them

## Main results

* `DecimalLiteral.split?_text`: the parts of a literal are found in its text
* `FloatLayout.isAllowed_write`, `Json.Number.isAllowed_chars`: **what is written of a number is a
  number as JSON allows it**
-/

namespace ContentIndex

/-! ### Literals -/

namespace DecimalLiteral

/-- The text of a literal with the given digits. -/
def text (negative : Bool) (whole : List Char) (fraction exponent : Option (List Char)) :
    List Char :=
  (if negative then ['-'] else []) ++ (whole ++ ((fraction.map ('.' :: ·)).getD [] ++
    (exponent.map ('e' :: ·)).getD []))

/-- Digits are taken as far as they go. -/
theorem span_digits {ds rest : List Char} (hds : ∀ c ∈ ds, c.isDigit)
    (hrest : ∀ c ∈ rest.head?, c.isDigit = false) :
    (ds ++ rest).takeWhile Char.isDigit = ds ∧ (ds ++ rest).dropWhile Char.isDigit = rest := by
  rw [List.takeWhile_append_of_pos hds, List.dropWhile_append_of_pos hds]
  cases rest with
  | nil => simp
  | cons c rest => simp [hrest c rfl]

/-- The parts of a literal are found in its text. -/
theorem split?_text {negative : Bool} {whole : List Char} {fraction exponent : Option (List Char)}
    {e : Option Int} (hwhole : ∀ c ∈ whole, c.isDigit) (hne : whole ≠ [])
    (hfraction : ∀ ds ∈ fraction, ∀ c ∈ ds, c.isDigit)
    (hexponent : exponent.map exponent? = e.map some) :
    split? (text negative whole fraction exponent) =
      some ⟨if negative then some '-' else none, whole, fraction, e⟩ := by
  have hsign : splitSign (text negative whole fraction exponent) =
      (if negative then some '-' else none, whole ++ ((fraction.map ('.' :: ·)).getD [] ++
        (exponent.map ('e' :: ·)).getD [])) := by
    obtain ⟨c, r, rfl⟩ := List.exists_cons_of_ne_nil hne
    have hc : c.isDigit := hwhole c (List.mem_cons_self ..)
    have h₁ : c ≠ '+' := by rintro rfl; cases hc
    have h₂ : c ≠ '-' := by rintro rfl; cases hc
    cases negative <;> simp [text, splitSign, h₁, h₂]
  have htail : ∀ c ∈ ((exponent.map ('e' :: ·)).getD []).head?, c.isDigit = false := by
    cases exponent <;> simp
  have hrest : ∀ c ∈ ((fraction.map ('.' :: ·)).getD [] ++
      (exponent.map ('e' :: ·)).getD []).head?, c.isDigit = false := by
    cases fraction <;> cases exponent <;> simp
  have hspan := span_digits hwhole hrest
  simp only [split?, hsign, hspan.1, hspan.2]
  cases fraction with
  | none =>
    cases exponent with
    | none =>
      cases e with
      | none => rfl
      | some e => cases hexponent
    | some es =>
      cases e with
      | none => cases hexponent
      | some e =>
        have hes : exponent? es = some e := Option.some.inj hexponent
        simp [hes]
  | some ds =>
    have hds := span_digits (hfraction ds rfl) htail
    simp only [Option.map_some, Option.getD_some, List.cons_append, hds.1, hds.2]
    cases exponent with
    | none =>
      cases e with
      | none => rfl
      | some e => cases hexponent
    | some es =>
      cases e with
      | none => cases hexponent
      | some e =>
        have hes : exponent? es = some e := Option.some.inj hexponent
        simp [hes]

/-- The exponents that are written are read. -/
theorem isSome_exponent? {sign : List Char} (hsign : sign = [] ∨ sign = ['-'] ∨ sign = ['+'])
    (n : Nat) : (exponent? (sign ++ Nat.toDigits 10 n)).isSome := by
  obtain ⟨c, r, hcr⟩ := List.exists_cons_of_ne_nil (Nat.toDigits_ne_nil (n := n) (b := 10))
  have hdigits : (Nat.toDigits 10 n).all Char.isDigit :=
    List.all_eq_true.mpr fun c => isDigit_of_mem_toDigits
  have hc : c.isDigit := isDigit_of_mem_toDigits (n := n) (hcr ▸ List.mem_cons_self ..)
  have h₁ : c ≠ '+' := by rintro rfl; cases hc
  have h₂ : c ≠ '-' := by rintro rfl; cases hc
  rw [hcr] at hdigits ⊢
  rcases hsign with rfl | rfl | rfl <;> simp [exponent?, splitSign, h₁, h₂, hdigits]

/-- The parts of a number as JSON allows them. -/
structure Allowed (whole : List Char) (fraction exponent : Option (List Char)) :
    Prop where
  /-- There are digits before the point. -/
  digits : (∀ c ∈ whole, c.isDigit) ∧ whole ≠ []
  /-- They do not begin with a zero that could be left out. -/
  lead : whole = ['0'] ∨ whole.head? ≠ some '0'
  /-- There are digits after the point, if there is one. -/
  fraction : ∀ ds ∈ fraction, (∀ c ∈ ds, c.isDigit) ∧ ds ≠ []
  /-- An exponent is a number, perhaps with a sign. -/
  exponent : ∀ es ∈ exponent, ∃ sign n, (sign = [] ∨ sign = ['-'] ∨ sign = ['+']) ∧
    es = sign ++ Nat.toDigits 10 n

/-- The parts of a number are found in its text. -/
theorem Allowed.literal?_text {whole : List Char} {fraction exponent : Option (List Char)}
    (h : Allowed whole fraction exponent) (negative : Bool) :
    ∃ e, Json.Number.literal? (text negative whole fraction exponent) =
        some ⟨if negative then some '-' else none, whole, fraction, e⟩ ∧
      e.isSome = exponent.isSome := by
  obtain ⟨e, he⟩ : ∃ e, exponent.map exponent? = Option.map some e := by
    cases exponent with
    | none => exact ⟨none, rfl⟩
    | some es =>
      obtain ⟨sign, n, hsign, rfl⟩ := h.exponent es rfl
      obtain ⟨i, hi⟩ := Option.isSome_iff_exists.mp (isSome_exponent? hsign n)
      exact ⟨some i, by simp [hi]⟩
  refine ⟨e, ?_, ?_⟩
  · rw [Json.Number.literal?,
      split?_text h.digits.1 h.digits.2 (fun ds hds => (h.fraction ds hds).1) he]
    have hpoint : fraction ≠ some [] := fun hnil => (h.fraction [] hnil).2 rfl
    have hsign : (if negative then some '-' else none) ≠ some '+' := by
      cases negative <;> decide
    refine Option.bind_eq_some_iff.mpr ⟨_, rfl, Option.bind_eq_some_iff.mpr ⟨(), ?_,
      Option.bind_eq_some_iff.mpr ⟨(), ?_, rfl⟩⟩⟩
    · exact (Option.guard_eq_some' ()).mpr ⟨hsign, h.digits.2, hpoint⟩
    · exact (Option.guard_eq_some' ()).mpr h.lead
  · simpa using (congrArg Option.isSome he).symm

/-- The text is that of a number as JSON allows it. -/
def IsAllowed (cs : List Char) : Prop :=
  ∃ negative whole fraction exponent, Allowed whole fraction exponent ∧
    cs = text negative whole fraction exponent

/-- It is read. -/
theorem IsAllowed.literal? {cs : List Char} (h : IsAllowed cs) :
    ∃ l, Json.Number.literal? cs = some l := by
  obtain ⟨negative, whole, fraction, exponent, h, rfl⟩ := h
  obtain ⟨e, hread, -⟩ := h.literal?_text negative
  exact ⟨_, hread⟩

end DecimalLiteral

/-! ### Shortest decimals -/

namespace Binary64

theorem stripZeros_ne_zero (n : Nat) {d : Nat} (h : d ≠ 0) (p : Int) :
    (stripZeros n d p).1 ≠ 0 := by
  induction n generalizing d p with
  | zero => exact h
  | succ n ih =>
    rw [stripZeros]
    split
    · next hd =>
      obtain ⟨hten, -⟩ : d % 10 = 0 ∧ d ≠ 0 := by simpa using hd
      exact ih (by omega) _
    · exact h

theorem neighbour?_ne_zero {i : Interval} {p : Int} {d : Nat} (h : i.neighbour? p = some d) :
    d ≠ 0 := by
  unfold Interval.neighbour? at h
  dsimp only at h
  generalize i.mid * (tenPow p).2 / (4 * scale * (tenPow p).1) = f at h
  split at h
  · next hf _ =>
    have hf : f ≠ 0 := by simpa using (Bool.and_eq_true_iff.mp hf).2
    split at h
    · exact Option.some.inj h ▸ hf
    · split at h
      · exact Option.some.inj h ▸ Nat.succ_ne_zero f
      · split at h
        · exact Option.some.inj h ▸ hf
        · exact Option.some.inj h ▸ Nat.succ_ne_zero f
  · next hf _ =>
    have hf : f ≠ 0 := by simpa using (Bool.and_eq_true_iff.mp hf).2
    exact Option.some.inj h ▸ hf
  · exact Option.some.inj h ▸ Nat.succ_ne_zero f
  · cases h

theorem shortestFrom_ne_zero (i : Interval) (e : Int) (k n : Nat) :
    (shortestFrom i e k n).1 ≠ 0 ∨ (shortestFrom i e k n).2 = 0 := by
  induction k generalizing n with
  | zero =>
    -- the quotient is not to be evaluated
    rw [shortestFrom]
    generalize i.mid / (4 * scale) = d
    exact Or.inr rfl
  | succ k ih =>
    rw [shortestFrom]
    cases hd : i.neighbour? (e + 1 - n) with
    | some d => exact Or.inl (stripZeros_ne_zero _ (neighbour?_ne_zero hd) _)
    | none => exact ih _

/-- The digits of a double are not those of zero, or there are no zeros to be added to them. -/
theorem shortest_ne_zero (x : Binary64) : x.shortest.1 ≠ 0 ∨ x.shortest.2 = 0 := by
  cases h : x.isZero with
  | true => simp [shortest, h]
  | false =>
    -- the search is not to be evaluated
    simp only [shortest, h, Bool.false_eq_true, if_false]
    exact shortestFrom_ne_zero _ _ _ _

end Binary64

namespace FloatLayout

open DecimalLiteral Binary64

variable {l : FloatLayout} {d : Nat} {p : Int}

/-- Numerals have no needless zero in front, with zeros appended or cut off. -/
theorem lead_toDigits {ds rest : List Char} (h : d ≠ 0) (hds : Nat.toDigits 10 d ++ rest = ds) :
    ds.head? ≠ some '0' := by
  obtain ⟨c, r, hcr⟩ := List.exists_cons_of_ne_nil (Nat.toDigits_ne_nil (n := d) (b := 10))
  have hhead := head?_toDigits_ne_zero h
  rw [hcr] at hhead
  rw [← hds, hcr]
  exact hhead

theorem allowed_positional (h : d ≠ 0 ∨ p = 0) : ∃ whole fraction,
    Allowed whole fraction none ∧ (l.pointZero → fraction.isSome) ∧
      l.positional (Nat.toDigits 10 d) p = text false whole fraction none := by
  have hdigits : ∀ c ∈ Nat.toDigits 10 d, c.isDigit := fun c => isDigit_of_mem_toDigits
  have hne : Nat.toDigits 10 d ≠ [] := Nat.toDigits_ne_nil
  have hzeros (n : Nat) : ∀ c ∈ List.replicate n '0', c.isDigit := by
    intro c hc
    rw [List.eq_of_mem_replicate hc]
    rfl
  unfold positional
  dsimp only
  split
  · refine ⟨Nat.toDigits 10 d ++ List.replicate p.toNat '0',
      if l.pointZero then some ['0'] else none, ⟨⟨?_, by simp [hne]⟩, ?_, ?_, nofun⟩,
      fun hpoint => by simp [hpoint], ?_⟩
    · intro c hc
      rcases List.mem_append.mp hc with hc | hc
      · exact hdigits c hc
      · exact hzeros _ c hc
    · rcases h with h | rfl
      · exact Or.inr (lead_toDigits h rfl)
      · by_cases hd : d = 0
        · subst hd
          exact Or.inl rfl
        · exact Or.inr (lead_toDigits hd rfl)
    · intro ds hds
      split at hds
      · cases hds
        exact ⟨hzeros 1, nofun⟩
      · cases hds
    · cases l.pointZero <;> simp [text]
  · next hp =>
    have hd : d ≠ 0 := h.resolve_right (by omega)
    split
    · next hpoint =>
      obtain ⟨n, hn⟩ : ∃ n : Nat, ((Nat.toDigits 10 d).length : Int) + p = n + 1 :=
        ⟨(((Nat.toDigits 10 d).length : Int) + p - 1).toNat, by omega⟩
      have htake : (((Nat.toDigits 10 d).length : Int) + p).toNat = n + 1 := by omega
      rw [htake]
      refine ⟨(Nat.toDigits 10 d).take (n + 1), some ((Nat.toDigits 10 d).drop (n + 1)), ⟨⟨fun c hc =>
        hdigits c (List.mem_of_mem_take hc), by simp [hne]⟩, Or.inr ?_, ?_, nofun⟩, fun _ => rfl,
        by simp [text]⟩
      · rw [List.head?_take, if_neg (by omega)]
        exact head?_toDigits_ne_zero hd
      · rintro ds ⟨⟩
        refine ⟨fun c hc => hdigits c (List.mem_of_mem_drop hc), ?_⟩
        rw [Ne, List.drop_eq_nil_iff]
        omega
    · refine ⟨['0'], some (List.replicate (-(((Nat.toDigits 10 d).length : Int) + p)).toNat '0' ++
        Nat.toDigits 10 d), ⟨⟨hzeros 1, nofun⟩, Or.inl rfl, ?_, nofun⟩, fun _ => rfl,
        by simp [text]⟩
      rintro ds ⟨⟩
      refine ⟨fun c hc => ?_, by simp [hne]⟩
      rcases List.mem_append.mp hc with hc | hc
      · exact hzeros _ c hc
      · exact hdigits c hc

theorem allowed_scientific : ∃ whole fraction exponent,
    Allowed whole fraction (some exponent) ∧
      l.scientific (Nat.toDigits 10 d) p = text false whole fraction (some exponent) := by
  have hdigits : ∀ c ∈ Nat.toDigits 10 d, c.isDigit := fun c => isDigit_of_mem_toDigits
  obtain ⟨c, r, hcr⟩ := List.exists_cons_of_ne_nil (Nat.toDigits_ne_nil (n := d) (b := 10))
  rw [hcr] at hdigits
  unfold scientific
  dsimp only
  refine ⟨[c], if r = [] then none else some r,
    (if ((Nat.toDigits 10 d).length : Int) + p - 1 < 0 then ['-']
      else if l.plus then ['+'] else []) ++
      Nat.toDigits 10 (((Nat.toDigits 10 d).length : Int) + p - 1).natAbs,
    ⟨⟨fun x hx => hdigits x (by simp_all), nofun⟩, ?_, ?_, ?_⟩, ?_⟩
  · by_cases hc : c = '0'
    · exact Or.inl (by rw [hc])
    · exact Or.inr (by simpa using hc)
  · intro ds hds
    split at hds
    · cases hds
    · next hr =>
      cases hds
      exact ⟨fun x hx => hdigits x (List.mem_cons_of_mem _ hx), hr⟩
  · rintro es ⟨⟩
    refine ⟨_, _, ?_, rfl⟩
    split
    · simp
    · split <;> simp
  · rw [hcr]
    cases r <;> simp [text]

/-- What is written of a double is a number as JSON allows it. If whole numbers are written with a
point, then it has a point or an exponent. -/
theorem exists_text_write (l : FloatLayout) (x : Binary64) :
    ∃ negative whole fraction exponent, Allowed whole fraction exponent ∧
      (l.pointZero → fraction.isSome ∨ exponent.isSome) ∧
      l.write x = text negative whole fraction exponent := by
  have hsigned {cs : List Char} (h : ∃ whole fraction exponent,
      Allowed whole fraction exponent ∧ (l.pointZero → fraction.isSome ∨ exponent.isSome) ∧
        cs = text false whole fraction exponent) :
      ∃ negative whole fraction exponent, Allowed whole fraction exponent ∧
        (l.pointZero → fraction.isSome ∨ exponent.isSome) ∧
        (if x.isNegative then '-' :: cs else cs) = text negative whole fraction exponent := by
    obtain ⟨whole, fraction, exponent, h, hpoint, rfl⟩ := h
    exact ⟨x.isNegative, whole, fraction, exponent, h, hpoint, by cases x.isNegative <;> rfl⟩
  unfold write
  have hshortest := x.shortest_ne_zero
  generalize x.shortest = s at hshortest
  obtain ⟨d, p⟩ := s
  refine hsigned ?_
  split
  · obtain ⟨whole, fraction, exponent, h, heq⟩ := allowed_scientific (l := l) (d := d) (p := p)
    exact ⟨whole, fraction, some exponent, h, fun _ => Or.inr rfl, heq⟩
  · obtain ⟨whole, fraction, h, hpoint, heq⟩ := allowed_positional (l := l) hshortest
    exact ⟨whole, fraction, none, h, fun hl => Or.inl (hpoint hl), heq⟩

/-- **What is written of a double is a number as JSON allows it.** -/
theorem isAllowed_write (l : FloatLayout) (x : Binary64) : IsAllowed (l.write x) := by
  obtain ⟨negative, whole, fraction, exponent, h, -, heq⟩ := l.exists_text_write x
  exact ⟨negative, whole, fraction, exponent, h, heq⟩

end FloatLayout

namespace Json.Number

open DecimalLiteral

/-- A whole number is written in digits. -/
theorem chars_int (i : Int) (fits : -2 ^ 63 ≤ i ∧ i < 2 ^ 64) :
    (int i fits).chars = text (i < 0) (Nat.toDigits 10 i.natAbs) none none := by
  cases i with
  | ofNat n =>
    have hnot : decide (Int.ofNat n < 0) = false := by simp
    rw [hnot]
    exact Nat.toList_repr.trans (by simp [text])
  | negSucc n =>
    have hlt : decide (Int.negSucc n < 0) = true := by simp
    rw [hlt]
    show ("-" ++ (n + 1).repr).toList = _
    rw [String.toList_append, Nat.toList_repr]
    simp [text]

/-- The digits of a whole number are allowed. -/
theorem allowed_toDigits (n : Nat) : Allowed (Nat.toDigits 10 n) none none := by
  refine ⟨⟨fun c => isDigit_of_mem_toDigits, Nat.toDigits_ne_nil⟩, ?_, nofun, nofun⟩
  by_cases hn : n = 0
  · rw [hn]
    exact Or.inl rfl
  · exact Or.inr (head?_toDigits_ne_zero hn)

/-- What is written of a number is a number as JSON allows it. -/
theorem isAllowed_chars (n : Number) : IsAllowed n.chars := by
  cases n with
  | float x => exact floatLayout.isAllowed_write x
  | int i fits => exact ⟨_, _, _, _, allowed_toDigits i.natAbs, chars_int i fits⟩

end Json.Number

end ContentIndex
