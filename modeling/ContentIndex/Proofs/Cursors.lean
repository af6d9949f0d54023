import ContentIndex.Proofs.JsonReading
import ContentIndex.Proofs.Numerals
import ContentIndex.Query.Cursor

/-!
# Cursors that come back

The text of a cursor is three layers deep: the key in hexadecimal digits, the object around it, and
letters that go into an address. Each layer is read back as it was written, so a client that sends a
cursor back with the same query names the entry that it was issued for.

## Main results

* `Base64.decode?_encode`, `Bytes.ofHex?_toHex`: bytes are read back from their digits
* `Cursor.decode_encode_eq`: the text of a cursor has the key for its own collection and order only
* `Cursor.decode_encode`: **a cursor that comes back names the key that it was issued for**
-/

namespace ContentIndex

open Json (Draft Value)

/-! ### Digits -/

namespace Base64

theorem value?_digit : ∀ n < 64, value? (digit n) = some n := by decide

theorem isBlank_digit : ∀ n < 64, Text.isBlank (digit n) = false := by decide

/-- Bytes are written in digits. -/
theorem exists_digit_of_mem_encode {b : Bytes} {c : Char} (h : c ∈ encode b) :
    ∃ n < 64, c = digit n := by
  induction b using encode.induct with
  | case1 x y z r ih =>
    have hx := x.toNat_lt
    have hy := y.toNat_lt
    have hz := z.toNat_lt
    simp only [encode, List.mem_cons] at h
    rcases h with rfl | rfl | rfl | rfl | h
    · exact ⟨_, by omega, rfl⟩
    · exact ⟨_, by omega, rfl⟩
    · exact ⟨_, by omega, rfl⟩
    · exact ⟨_, by omega, rfl⟩
    · exact ih h
  | case2 x y =>
    have hx := x.toNat_lt
    have hy := y.toNat_lt
    simp only [encode, List.mem_cons, List.not_mem_nil, or_false] at h
    rcases h with rfl | rfl | rfl
    · exact ⟨_, by omega, rfl⟩
    · exact ⟨_, by omega, rfl⟩
    · exact ⟨_, by omega, rfl⟩
  | case3 x =>
    have hx := x.toNat_lt
    simp only [encode, List.mem_cons, List.not_mem_nil, or_false] at h
    rcases h with rfl | rfl
    · exact ⟨_, by omega, rfl⟩
    · exact ⟨_, by omega, rfl⟩
  | case4 => cases h

/-- **Bytes are read back from their digits.** -/
theorem decode?_encode (b : Bytes) : decode? (encode b) = some b := by
  -- three bytes are a number of 24 bits, which the digits and the bytes split in their own ways
  induction b using encode.induct with
  | case1 x y z r ih =>
    have hx := x.toNat_lt
    have hy := y.toNat_lt
    have hz := z.toNat_lt
    obtain ⟨n, hn⟩ : ∃ n, n = x.toNat * 65536 + y.toNat * 256 + z.toNat := ⟨_, rfl⟩
    have hjoin : n / 262144 * 262144 + n / 4096 % 64 * 4096 + n / 64 % 64 * 64 + n % 64 = n := by
      omega
    have hfirst : n / 65536 = x.toNat := by omega
    have hsecond : n / 256 % 256 = y.toNat := by omega
    have hthird : n % 256 = z.toNat := by omega
    simp only [encode, decode?, ← hn, value?_digit (n / 262144) (by omega),
      value?_digit (n / 4096 % 64) (by omega), value?_digit (n / 64 % 64) (by omega),
      value?_digit (n % 64) (by omega), ih, Option.bind_eq_bind, Option.bind_some, hjoin, hfirst,
      hsecond, hthird, UInt8.ofNat_toNat, Option.pure_def]
  | case2 x y =>
    have hx := x.toNat_lt
    have hy := y.toNat_lt
    obtain ⟨n, hn⟩ : ∃ n, n = x.toNat * 256 + y.toNat := ⟨_, rfl⟩
    have hjoin : n / 1024 * 4096 + n / 16 % 64 * 64 + n % 16 * 4 = 4 * n := by omega
    have hrest : 4 * n % 4 = 0 := by omega
    have hfirst : 4 * n / 1024 = x.toNat := by omega
    have hsecond : 4 * n / 4 % 256 = y.toNat := by omega
    simp only [encode, decode?, ← hn, value?_digit (n / 1024) (by omega),
      value?_digit (n / 16 % 64) (by omega), value?_digit (n % 16 * 4) (by omega),
      Option.bind_eq_bind, Option.bind_some, hjoin, hrest, if_true, hfirst, hsecond,
      UInt8.ofNat_toNat]
  | case3 x =>
    have hx := x.toNat_lt
    have hjoin : x.toNat / 4 * 64 + x.toNat % 4 * 16 = 16 * x.toNat := by omega
    have hrest : 16 * x.toNat % 16 = 0 := by omega
    have hfirst : 16 * x.toNat / 16 = x.toNat := by omega
    simp only [encode, decode?, value?_digit (x.toNat / 4) (by omega),
      value?_digit (x.toNat % 4 * 16) (by omega), Option.bind_eq_bind, Option.bind_some, hjoin,
      hrest, if_true, hfirst, UInt8.ofNat_toNat]
  | case4 => rfl

end Base64

/-- **Bytes are read back from hexadecimal digits.** -/
theorem Bytes.ofHex?_toHex (b : Bytes) : ofHex? b.toHex = some b := by
  rw [ofHex?, toHex, String.toList_ofList]
  induction b with
  | nil => rfl
  | cons x r ih =>
    have hx := x.toNat_lt
    have hhigh := Json.Lexer.hexValue?_hexDigit (x.toNat / 16) (by omega)
    have hlow := Json.Lexer.hexValue?_hexDigit (x.toNat % 16) (by omega)
    have hjoin : x.toNat / 16 * 16 + x.toNat % 16 = x.toNat := by omega
    simp only [hexChars, ofHexChars?, hhigh, hlow, Option.bind_eq_bind, Option.bind_some, ih, hjoin,
      UInt8.ofNat_toNat, Option.pure_def]

namespace Cursor

/-- The content of a cursor is read back from its bytes. -/
theorem content?_toValue (c : Cursor) :
    (Draft.ofBytes? c.toValue.bytes).bind content? =
      some (c.collection, c.order, c.key.toHex) := by
  have hread : Draft.ofBytes? c.toValue.bytes = some c.toValue.draft := by
    refine Draft.ofBytes?_bytes_of_readsBack ?_ ?_
    · simp [toValue, Value.HasNumbers, Value.MembersHaveNumbers]
    · show 1 ≤ Json.Parser.maxDepth
      decide
  rw [hread, Option.bind_some]
  simp [content?, toValue, Value.draft, Value.memberDrafts, Draft.fields?, Draft.members?,
    Draft.fieldsAmong?, Draft.uniqueMember?, Json.MemberName.names, Draft.string?]

/-- The text of a cursor has the key for its own collection and order, and for no others. -/
theorem decode_encode_eq (c : Cursor) (collection order : String) :
    decode c.encode collection order =
      if c.collection ≠ collection then .error (.otherCollection c.collection collection)
      else if c.order ≠ order then .error (.otherOrder c.order order)
      else .ok c.key := by
  have htrim : Text.trim c.encode.toList = Base64.encode c.toValue.bytes := by
    rw [encode, String.toList_ofList]
    refine Text.trim_eq_self fun x hx => ?_
    obtain ⟨n, hn, rfl⟩ := Base64.exists_digit_of_mem_encode hx
    exact Base64.isBlank_digit n hn
  unfold decode
  rw [htrim, Base64.decode?_encode]
  dsimp only
  rw [content?_toValue]
  dsimp only
  by_cases hcollection : c.collection = collection
  · by_cases horder : c.order = order
    · simp [hcollection, horder, Bytes.ofHex?_toHex, pure, Except.pure]
    · rw [if_neg (not_not_intro hcollection), if_neg (not_not_intro hcollection), if_pos horder,
        if_pos horder]
      rfl
  · rw [if_pos hcollection, if_pos hcollection]
    rfl

/-- **A cursor that comes back names the key that it was issued for.** -/
theorem decode_encode (c : Cursor) : decode c.encode c.collection c.order = .ok c.key := by
  rw [decode_encode_eq, if_neg (not_not_intro rfl), if_neg (not_not_intro rfl)]

end Cursor

end ContentIndex
