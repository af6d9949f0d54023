import ContentIndex.Index.Generations
import ContentIndex.Proofs.Text
import Mathlib.Data.List.TakeWhile

/-!
# Decimal numerals

A number written in decimal digits is read back from them.

## Main results

* `digitsValue_toDigits`: the value of the digits of a number
* `Generation.parse?_toBytes`: a stored generation is read back
-/

namespace ContentIndex

theorem ofDigitChars_ten (ds : List Char) : Nat.ofDigitChars 10 ds 0 = digitsValue ds := by
  simp only [Nat.ofDigitChars_eq_foldl, digitsValue, digitValue, Nat.mul_comm]

@[simp] theorem digitsValue_toDigits (n : Nat) : digitsValue (Nat.toDigits 10 n) = n := by
  rw [← ofDigitChars_ten, Nat.ofDigitChars_ten_toDigits]

theorem isDigit_of_mem_toDigits {n : Nat} {c : Char} (h : c ∈ Nat.toDigits 10 n) : c.isDigit :=
  Nat.isDigit_of_mem_toDigits (by decide) (by decide) h

/-- Only zero is written with a leading zero. -/
theorem head?_toDigits_ne_zero {n : Nat} (h : n ≠ 0) :
    (Nat.toDigits 10 n).head? ≠ some '0' := by
  induction n using Nat.strongRecOn with
  | _ n ih =>
    by_cases hn : n < 10
    · rw [Nat.toDigits_of_lt_base hn]
      simpa using h
    · rw [Nat.toDigits_of_base_le (by decide) (by omega), List.head?_append]
      have hne : (Nat.toDigits 10 (n / 10)).head? ≠ none := by simp
      obtain ⟨c, hc⟩ := Option.ne_none_iff_exists'.mp hne
      have := ih (n / 10) (by omega) (by omega)
      simpa [hc] using this

/-! ### Generations -/

theorem Text.isBlank_of_isDigit {c : Char} (h : c.isDigit) : isBlank c = false := by
  have h₁ : 48 ≤ c.toNat ∧ c.toNat ≤ 57 := by
    simpa [Char.isDigit, UInt32.le_iff_toNat_le] using h
  have hne (d : Char) (hd : ¬ (48 ≤ d.toNat ∧ d.toNat ≤ 57)) : c ≠ d := fun hcd => hd (hcd ▸ h₁)
  simp [isBlank, hne, Char.le_def, UInt32.le_iff_toNat_le]
  omega

/-- Nothing is cut off a text without blanks. -/
theorem Text.trim_eq_self {cs : List Char} (h : ∀ c ∈ cs, isBlank c = false) : trim cs = cs := by
  have hdrop : ∀ ds : List Char, (∀ c ∈ ds, isBlank c = false) → ds.dropWhile isBlank = ds := by
    intro ds hds
    cases ds with
    | nil => rfl
    | cons c r => simp [hds c (List.mem_cons_self ..)]
  simp only [trim, trimStart, trimEnd, hdrop cs h]
  rw [hdrop _ fun c hc => h c (List.mem_reverse.mp hc), List.reverse_reverse]

namespace Generation

@[simp] theorem parse?_toBytes (g : Generation) : parse? g.toBytes = some g := by
  have hds : Nat.toDigits 10 g.toNat ≠ [] := Nat.toDigits_ne_nil
  have hdigits : ∀ c ∈ Nat.toDigits 10 g.toNat, c.isDigit := fun c => isDigit_of_mem_toDigits
  have htrim : Text.trim g.text.toList = Nat.toDigits 10 g.toNat := by
    rw [text, Nat.toString_eq_repr, Nat.toList_repr]
    exact Text.trim_eq_self fun c hc => Text.isBlank_of_isDigit (hdigits c hc)
  have hplus : (Nat.toDigits 10 g.toNat).head? ≠ some '+' := by
    intro h
    have := hdigits _ (List.mem_of_head? h)
    simp at this
  have hvalue := digitsValue_toDigits g.toNat
  simp only [digitsValue, digitValue] at hvalue
  simp only [parse?, toBytes, Bytes.text?_ofText, Option.bind_eq_bind, Option.bind_some, htrim,
    if_neg hplus, hvalue]
  have hall : (Nat.toDigits 10 g.toNat).all Char.isDigit := List.all_eq_true.mpr hdigits
  simp [hds, hall, g.toNat_lt]

theorem toBytes_injective : Function.Injective toBytes := by
  intro g h heq
  have := congrArg parse? heq
  simpa using this

end Generation

end ContentIndex
