import ContentIndex.Proofs.KeyLayout
import Mathlib.Tactic.SplitIfs

/-!
# The order of texts

Texts are compared character by character, and their encodings byte by byte. The two orders are one,
since the encoding of a character is ordered like the character.

## Main results

* `Bytes.ofText_lt_iff`: **texts are ordered like their bytes**
-/

namespace ContentIndex.Bytes

/-- The bytes of characters are ordered like the characters, whatever follows. -/
theorem utf8EncodeChar_append_lt {c d : Char} (h : c < d) (u v : Bytes) :
    String.utf8EncodeChar c ++ u < String.utf8EncodeChar d ++ v := by
  have hlt : c.val.toNat < d.val.toNat := h
  have hmax : d.val.toNat < 0x110000 := by
    have hvalid := d.valid
    unfold UInt32.isValidChar Nat.isValidChar at hvalid
    omega
  have hbyte (n : Nat) (hn : n < 256) : (UInt8.ofNat n).toNat = n := by
    rw [UInt8.toNat_ofNat', Nat.mod_eq_of_lt hn]
  simp only [String.utf8EncodeChar]
  generalize c.val.toNat = m at hlt ⊢
  generalize d.val.toNat = n at hlt hmax ⊢
  -- of two sequences of one length, the first quotient that differs decides
  have hlow : m / 64 < n / 64 ∨ m / 64 = n / 64 := by omega
  have hmiddle : m / 4096 < n / 4096 ∨ m / 4096 = n / 4096 := by omega
  have hhigh : m / 262144 < n / 262144 ∨ m / 262144 = n / 262144 := by omega
  split_ifs
  all_goals
    simp (disch := omega) only [List.cons_append, List.nil_append, List.cons_lt_cons_iff,
      UInt8.lt_iff_toNat_lt, ← UInt8.toNat_inj, hbyte, Nat.mod_eq_of_lt]
    omega

theorem flatMap_utf8EncodeChar_lt {s t : List Char} (h : s < t) :
    s.flatMap String.utf8EncodeChar < t.flatMap String.utf8EncodeChar := by
  induction s generalizing t with
  | nil =>
    cases t with
    | nil => exact absurd h (List.not_lt_nil _)
    | cons d t =>
      obtain ⟨x, r, hd⟩ := List.exists_cons_of_ne_nil (String.utf8EncodeChar_ne_nil (c := d))
      simp [hd]
  | cons c s ih =>
    cases t with
    | nil => exact absurd h (List.not_lt_nil _)
    | cons d t =>
      rcases List.cons_lt_cons_iff.mp h with hlt | ⟨rfl, hrest⟩
      · exact utf8EncodeChar_append_lt hlt _ _
      · exact Key.append_lt_append_left (ih hrest)

/-- **Texts are ordered like their bytes.** -/
theorem ofText_lt_iff {s t : String} : ofText s < ofText t ↔ s < t := by
  have hlt {s t : String} (h : s < t) : ofText s < ofText t := by
    rw [ofText_eq_flatMap, ofText_eq_flatMap]
    exact flatMap_utf8EncodeChar_lt h
  refine ⟨fun h => ?_, hlt⟩
  rcases Std.lt_trichotomy s t with hst | rfl | hts
  · exact hst
  · exact absurd h Std.lt_irrefl
  · exact absurd (Std.lt_trans h (hlt hts)) Std.lt_irrefl

end ContentIndex.Bytes
