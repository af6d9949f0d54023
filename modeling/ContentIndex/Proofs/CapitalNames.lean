import ContentIndex.Graph.TypeLanguage
import ContentIndex.Graph.Compile
import Mathlib.Data.List.SplitBy

/-!
# Names with capitals

The words of a proper name are letters and digits of the basic script, so their capitals and small
letters are single characters again. The name with a capital for every word is that with a capital
for every word but the first one, after its own first letter has become a capital: names that are
different in the first form are different in the second one.

## Main definitions

* `Text.IsNameChar`: the characters of proper names
* `Text.Plain`: texts of such characters
* `Text.capitalized`: a text with a capital

## Main results

* `Text.plain_pascalCase`, `Text.plain_camelCase`: the words of a proper name are joined to a plain
  text
* `Text.capitalized_camelCase_append`: **the two forms of a name differ in the first letter only**
-/

namespace ContentIndex

namespace Text

/-- The characters of proper names. -/
def IsNameChar (c : Char) : Prop := (c.isAlphanum || c = '_' || c = '-') = true

instance (c : Char) : Decidable (IsNameChar c) := inferInstanceAs (Decidable (_ = true))

/-- A text of characters of proper names. -/
def Plain (s : String) : Prop := ∀ c ∈ s.toList, IsNameChar c

instance (s : String) : Decidable (Plain s) := List.decidableBAll IsNameChar s.toList

theorem plain_of_isName {name : String} (h : Graph.isName name) : Plain name := by
  rw [Graph.isName, Bool.and_eq_true, List.all_eq_true] at h
  exact h.2

theorem Plain.append {s t : String} (hs : Plain s) (ht : Plain t) : Plain (s ++ t) := by
  intro c hc
  rw [String.toList_append, List.mem_append] at hc
  exact hc.elim (hs c) (ht c)

/-- No other character is in a plain text. -/
theorem Plain.not_mem {s : String} (h : Plain s) {c : Char} (hc : ¬ IsNameChar c) : c ∉ s.toList :=
  fun hmem => hc (h c hmem)

/-! ### Letters -/

/-- What holds of all characters of the basic script holds of those of names. -/
theorem of_isNameChar {P : Char → Prop} (h : ∀ n < 128, P (Char.ofNat n)) {c : Char}
    (hc : IsNameChar c) : P c := by
  have hlt : c.toNat < 128 := by
    rw [IsNameChar, Bool.or_eq_true, Bool.or_eq_true, decide_eq_true_eq, decide_eq_true_eq] at hc
    rcases hc with (hc | rfl) | rfl
    · have hranges : ((decide (c.val ≥ 'A'.val ∧ c.val ≤ 'Z'.val) ||
          (decide (c.val ≥ 'a'.val) && decide (c.val ≤ 'z'.val))) ||
          (decide (c.val ≥ '0'.val) && decide (c.val ≤ '9'.val))) = true := hc
      simp only [Bool.or_eq_true, Bool.and_eq_true, decide_eq_true_eq, ge_iff_le,
        UInt32.le_iff_toNat_le] at hranges
      have hletters : ('A'.val.toNat = 65 ∧ 'Z'.val.toNat = 90) ∧ ('a'.val.toNat = 97 ∧
          'z'.val.toNat = 122) ∧ '0'.val.toNat = 48 ∧ '9'.val.toNat = 57 := by decide
      show c.val.toNat < 128
      omega
    · decide
    · decide
  have := h c.toNat hlt
  rwa [Char.ofNat_toNat] at this

theorem uppercase_eq {c : Char} (h : IsNameChar c) : uppercase c = [c.toUpper] :=
  if_pos (of_isNameChar (P := fun c => c.toNat < 0x80) (by decide +kernel) h)

theorem lowercase_eq {c : Char} (h : IsNameChar c) : lowercase c = [c.toLower] :=
  if_pos (of_isNameChar (P := fun c => c.toNat < 0x80) (by decide +kernel) h)

theorem isNameChar_toUpper {c : Char} (h : IsNameChar c) : IsNameChar c.toUpper :=
  of_isNameChar (P := fun c => IsNameChar c → IsNameChar c.toUpper) (by decide +kernel) h h

theorem isNameChar_toLower {c : Char} (h : IsNameChar c) : IsNameChar c.toLower :=
  of_isNameChar (P := fun c => IsNameChar c → IsNameChar c.toLower) (by decide +kernel) h h

theorem toUpper_toUpper {c : Char} (h : IsNameChar c) : c.toUpper.toUpper = c.toUpper :=
  of_isNameChar (P := fun c => c.toUpper.toUpper = c.toUpper) (by decide +kernel) h

theorem toUpper_toLower {c : Char} (h : IsNameChar c) : c.toLower.toUpper = c.toUpper :=
  of_isNameChar (P := fun c => c.toLower.toUpper = c.toUpper) (by decide +kernel) h

/-! ### Words -/

theorem mem_of_mem_cutWords {m : LetterCase} {word cs w : List Char} {c : Char}
    (hw : w ∈ cutWords m word cs) (hc : c ∈ w) : c ∈ word ∨ c ∈ cs := by
  fun_induction cutWords m word cs with
  | case1 => cases hw
  | case2 m word d =>
    obtain rfl := List.mem_singleton.mp hw
    simpa [or_comm] using hc
  | case3 m word d e r hcut ih =>
    rcases List.mem_cons.mp hw with rfl | hw
    · have := List.mem_reverse.mp hc
      grind
    · grind
  | case4 m word d e r hno hcut ih =>
    rcases List.mem_cons.mp hw with rfl | hw
    · exact Or.inl (List.mem_reverse.mp hc)
    · grind
  | case5 m word d e r hno hno' ih => grind

/-- The words of a name are made of its characters. -/
theorem mem_of_mem_words {name : String} {w : List Char} {c : Char} (hw : w ∈ words name)
    (hc : c ∈ w) : c ∈ name.toList := by
  rw [words, List.mem_flatMap] at hw
  obtain ⟨run, hrun, hw⟩ := hw
  split at hw
  · have hmem : c ∈ run := (mem_of_mem_cutWords hw hc).resolve_left nofun
    rw [← List.flatten_splitBy _ name.toList]
    exact List.mem_flatten.mpr ⟨run, hrun, hmem⟩
  · cases hw

theorem lowerWord_eq_map {w : List Char} (h : ∀ c ∈ w, IsNameChar c) :
    lowerWord w = w.map Char.toLower := by
  fun_induction lowerWord w with
  | case1 => rfl
  | case2 => exact absurd (h 'Σ' (List.mem_singleton_self _)) (by decide)
  | case3 c hc => simp [lowercase_eq (h c (List.mem_singleton_self _))]
  | case4 c r hne ih =>
    rw [lowercase_eq (h c (List.mem_cons_self ..)), ih fun d hd => h d (List.mem_cons_of_mem _ hd)]
    rfl

theorem capitalWord_cons {c : Char} {r : List Char} (h : ∀ d ∈ c :: r, IsNameChar d) :
    capitalWord (c :: r) = c.toUpper :: r.map Char.toLower := by
  rw [capitalWord, uppercase_eq (h c (List.mem_cons_self ..)),
    lowerWord_eq_map fun d hd => h d (List.mem_cons_of_mem _ hd)]
  rfl

theorem isNameChar_lowerWord {w : List Char} (h : ∀ c ∈ w, IsNameChar c) :
    ∀ c ∈ lowerWord w, IsNameChar c := by
  rw [lowerWord_eq_map h, List.forall_mem_map]
  exact fun c hc => isNameChar_toLower (h c hc)

theorem isNameChar_capitalWord {w : List Char} (h : ∀ c ∈ w, IsNameChar c) :
    ∀ c ∈ capitalWord w, IsNameChar c := by
  cases w with
  | nil => nofun
  | cons c r =>
    rw [capitalWord_cons h, List.forall_mem_cons, List.forall_mem_map]
    exact ⟨isNameChar_toUpper (h c (List.mem_cons_self ..)),
      fun d hd => isNameChar_toLower (h d (List.mem_cons_of_mem _ hd))⟩

variable {name : String}

theorem Plain.words (h : Plain name) : ∀ w ∈ words name, ∀ c ∈ w, IsNameChar c :=
  fun _ hw c hc => h c (mem_of_mem_words hw hc)

theorem plain_pascalCase (h : Plain name) : Plain (pascalCase name) := by
  rw [Plain, pascalCase, String.toList_ofList]
  intro c hc
  obtain ⟨w, hw, hc⟩ := List.mem_flatMap.mp hc
  exact isNameChar_capitalWord (h.words w hw) c hc

theorem plain_camelCase (h : Plain name) : Plain (camelCase name) := by
  rw [Plain, camelCase, String.toList_ofList]
  intro c hc
  have hwords := h.words
  cases hws : Text.words name with
  | nil =>
    rw [hws] at hc
    cases hc
  | cons w r =>
    rw [hws] at hc hwords
    rcases List.mem_append.mp hc with hc | hc
    · exact isNameChar_lowerWord (hwords w (List.mem_cons_self ..)) c hc
    · obtain ⟨v, hv, hc⟩ := List.mem_flatMap.mp hc
      exact isNameChar_capitalWord (hwords v (List.mem_cons_of_mem _ hv)) c hc

/-! ### The first letter -/

/-- A capital at the front. -/
def capital : List Char → List Char
  | [] => []
  | c :: r => c.toUpper :: r

/-- The text with a capital. -/
def capitalized (s : String) : String := String.ofList (capital s.toList)

theorem capital_lowerWord_append {w rest : List Char} (h : ∀ c ∈ w, IsNameChar c)
    (hrest : capital rest = rest) : capital (lowerWord w ++ rest) = capitalWord w ++ rest := by
  cases w with
  | nil => exact hrest
  | cons c r =>
    rw [lowerWord_eq_map h, capitalWord_cons h]
    simp [capital, toUpper_toLower (h c (List.mem_cons_self ..))]

theorem capital_capitalWords_append {ws : List (List Char)} {rest : List Char}
    (h : ∀ w ∈ ws, ∀ c ∈ w, IsNameChar c) (hrest : capital rest = rest) :
    capital (ws.flatMap capitalWord ++ rest) = ws.flatMap capitalWord ++ rest := by
  induction ws with
  | nil => exact hrest
  | cons w ws ih =>
    obtain ⟨hw, hws⟩ := List.forall_mem_cons.mp h
    cases w with
    | nil => exact ih hws
    | cons c r =>
      rw [List.flatMap_cons, capitalWord_cons hw]
      simp [capital, toUpper_toUpper (hw c (List.mem_cons_self ..))]

/-- **With a capital, a name whose first word has none is one all of whose words have one**, also
before a text with a capital. -/
theorem capitalized_camelCase_append (h : Plain name) {rest : String}
    (hrest : capitalized rest = rest) :
    capitalized (camelCase name ++ rest) = pascalCase name ++ rest := by
  have hrest' : capital rest.toList = rest.toList := by
    rw [← String.toList_ofList (l := capital rest.toList)]
    exact congrArg String.toList hrest
  rw [← String.toList_inj, capitalized, String.toList_ofList, String.toList_append,
    String.toList_append, camelCase, pascalCase, String.toList_ofList, String.toList_ofList]
  have hwords := h.words
  cases hws : Text.words name with
  | nil => exact hrest'
  | cons w r =>
    rw [hws] at hwords
    obtain ⟨hw, hr⟩ := List.forall_mem_cons.mp hwords
    -- only the first word is written in two ways, and it may have no letters
    rw [List.append_assoc, List.flatMap_cons, List.append_assoc]
    exact capital_lowerWord_append hw (capital_capitalWords_append hr hrest')

end Text

end ContentIndex
