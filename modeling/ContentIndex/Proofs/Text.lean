import ContentIndex.Bytes

/-!
# Texts as bytes

The encoding of a text is the encodings of its characters one after another. It can be undone, and
a zero byte in it is a zero character.

## Main results

* `Bytes.text?_eq_some_iff`: strict decoding undoes the encoding
* `Bytes.chars_ofText`: marked decoding of a text marks nothing
* `Bytes.zero_mem_ofText`: where zero bytes come from

## Main definitions

* `Text.ZeroFree`: texts without a zero character
-/

namespace ContentIndex

namespace Bytes

theorem ofText_eq_flatMap (s : String) : ofText s = s.toList.flatMap String.utf8EncodeChar := by
  have h : s.toUTF8 = s.toList.utf8Encode := String.utf8Encode_toList.symm
  rw [ofText, h, List.utf8Encode, List.toList_data_toByteArray]

@[simp] theorem ofText_append (s t : String) : ofText (s ++ t) = ofText s ++ ofText t := by
  simp only [ofText_eq_flatMap, String.toList_append, List.flatMap_append]

@[simp] theorem ofText_empty : ofText "" = [] := rfl

theorem ofText_injective : Function.Injective ofText := by
  intro s t h
  have h' : s.toUTF8.data = t.toUTF8.data := Array.toList_inj.mp h
  exact String.toByteArray_inj.mp (ByteArray.ext h')

@[simp] theorem ofText_inj {s t : String} : ofText s = ofText t ↔ s = t :=
  ofText_injective.eq_iff

/-! ### Decoding -/

@[simp] theorem text?_ofText (s : String) : text? (ofText s) = some s := by
  have h : (⟨(ofText s).toArray⟩ : ByteArray) = s.toUTF8 := by simp [ofText]
  have hv : s.toUTF8.IsValidUTF8 := s.isValidUTF8
  rw [text?, h, String.fromUTF8?, dif_pos hv]
  rfl

/-- Strict decoding accepts exactly the encodings. -/
theorem text?_eq_some_iff {b : Bytes} {s : String} : text? b = some s ↔ b = ofText s := by
  constructor
  · intro h
    simp only [text?, String.fromUTF8?] at h
    split at h
    · cases h
      simp [ofText, String.fromUTF8]
    · cases h
  · rintro rfl
    exact text?_ofText s

@[simp] theorem chars_ofText (s : String) : chars (ofText s) = s.toList.map some := by
  simp [chars]

/-! ### Zero bytes -/

theorem zero_mem_utf8EncodeChar {c : Char} : 0 ∈ String.utf8EncodeChar c ↔ c = '\x00' := by
  constructor
  · intro h
    have hn : c.val.toNat = 0 := by
      simp only [String.utf8EncodeChar] at h
      generalize c.val.toNat = n at h ⊢
      split at h
      · simp [← UInt8.toNat_inj] at h
        omega
      · split at h
        · simp [← UInt8.toNat_inj] at h
          omega
        · split at h
          · simp [← UInt8.toNat_inj] at h
            omega
          · simp [← UInt8.toNat_inj] at h
            omega
    exact Char.ext (UInt32.toNat_inj.mp hn)
  · rintro rfl
    decide

/-- Only a zero character is encoded with a zero byte. -/
theorem zero_mem_ofText {s : String} : 0 ∈ ofText s ↔ '\x00' ∈ s.toList := by
  simp only [ofText_eq_flatMap, List.mem_flatMap, zero_mem_utf8EncodeChar]
  simp

end Bytes

/-- The text has no zero character. -/
def Text.ZeroFree (s : String) : Prop := '\x00' ∉ s.toList

namespace Text

instance (s : String) : Decidable (ZeroFree s) := inferInstanceAs (Decidable (_ ∉ _))

/-- A text has no zero character if its bytes have no zero byte. -/
theorem zeroFree_iff {s : String} : ZeroFree s ↔ 0 ∉ Bytes.ofText s :=
  not_congr Bytes.zero_mem_ofText.symm

theorem ZeroFree.zero_notMem {s : String} (h : ZeroFree s) : 0 ∉ Bytes.ofText s :=
  zeroFree_iff.mp h

theorem ZeroFree.append {s t : String} (hs : ZeroFree s) (ht : ZeroFree t) :
    ZeroFree (s ++ t) := by
  simp only [ZeroFree, String.toList_append, List.mem_append]
  exact fun h => h.elim hs ht

end Text

end ContentIndex
