/-!
# Byte strings

Keys and values of the index are byte strings, compared lexicographically. Text enters as its
UTF-8 encoding and leaves by decoding, strictly or with a replacement character for each
ill-formed part.

## Main definitions

* `Bytes`: byte strings, ordered as lists of bytes
* `Bytes.ofText`, `Bytes.text?`: UTF-8 encoding and strict decoding
* `Bytes.chars`, `Bytes.textLossy`: decoding that marks or replaces every maximal ill-formed part
* `Bytes.toHex`, `Bytes.ofHex?`: two lowercase digits a byte, and their reading in either case
* `Bytes.HasPrefix`: one byte string starts with another
-/

namespace ContentIndex

/-- A finite sequence of bytes, ordered lexicographically. -/
abbrev Bytes := List UInt8

namespace Bytes

/-! ### Order -/

/-- Byte strings are compared byte by byte, and the start of another comes before it. -/
def decLT : (a b : Bytes) → Decidable (a < b)
  | _, [] => isFalse (List.not_lt_nil _)
  | [], _ :: _ => isTrue (List.nil_lt_cons _ _)
  | a :: r, b :: s =>
    if h : a < b then isTrue (List.cons_lt_cons_iff.2 (.inl h))
    else if h' : a = b then
      match decLT r s with
      | isTrue hr => isTrue (List.cons_lt_cons_iff.2 (.inr ⟨h', hr⟩))
      | isFalse hr => isFalse fun hl => (List.cons_lt_cons_iff.1 hl).elim h fun e => hr e.2
    else isFalse fun hl => (List.cons_lt_cons_iff.1 hl).elim h fun e => h' e.1

instance : DecidableLT Bytes := decLT

instance : DecidableLE Bytes := fun a b => inferInstanceAs (Decidable (¬ b < a))

/-- Byte strings are equal if all their bytes are. -/
def decEq : (a b : Bytes) → Decidable (a = b)
  | [], [] => isTrue rfl
  | [], _ :: _ | _ :: _, [] => isFalse nofun
  | a :: r, b :: s =>
    if h : a = b then
      match decEq r s with
      | isTrue hr => isTrue (by rw [h, hr])
      | isFalse hr => isFalse fun e => hr (List.cons.inj e).2
    else isFalse fun e => h (List.cons.inj e).1

instance : DecidableEq Bytes := decEq

/-! ### Text -/

/-- The UTF-8 encoding of a text. -/
def ofText (s : String) : Bytes := s.toUTF8.data.toList

/-- The text whose UTF-8 encoding is `b`, if `b` is well formed. -/
def text? (b : Bytes) : Option String := String.fromUTF8? ⟨b.toArray⟩

/-- `b` starts with `p`. -/
abbrev HasPrefix (p b : Bytes) : Prop := p <+: b

/-! ### Decoding of ill-formed text -/

/-- The least and the greatest byte that may follow the lead byte of a sequence of three or four
bytes; the bytes after it are plain continuation bytes. -/
def secondRange (lead : UInt8) : UInt8 × UInt8 :=
  if lead == 0xE0 then (0xA0, 0xBF)
  else if lead == 0xED then (0x80, 0x9F)
  else if lead == 0xF0 then (0x90, 0xBF)
  else if lead == 0xF4 then (0x80, 0x8F)
  else (0x80, 0xBF)

/-- `b` may follow the lead byte `lead` directly. -/
def followsLead (lead b : UInt8) : Bool := (secondRange lead).1 ≤ b && b ≤ (secondRange lead).2

/-- The lower six bits of a continuation byte. -/
def continuationBits (b : UInt8) : Nat := b.toNat % 64

/-- `b` is a continuation byte. -/
def isContinuation (b : UInt8) : Bool := 0x80 ≤ b && b ≤ 0xBF

/-- Decodes UTF-8, with `none` for each maximal part that starts no character. -/
def decodeParts : Bytes → List (Option Char)
  | [] => []
  | a :: r =>
    if a < 0x80 then some (Char.ofNat a.toNat) :: decodeParts r
    else if 0xC2 ≤ a && a ≤ 0xDF then
      match r with
      | b :: r' =>
        if isContinuation b then
          some (Char.ofNat (a.toNat % 32 * 64 + continuationBits b)) :: decodeParts r'
        else none :: decodeParts (b :: r')
      | [] => [none]
    else if 0xE0 ≤ a && a ≤ 0xEF then
      match r with
      | b :: r' =>
        if followsLead a b then
          match r' with
          | c :: r'' =>
            if isContinuation c then
              some (Char.ofNat
                (a.toNat % 16 * 4096 + continuationBits b * 64 + continuationBits c))
                :: decodeParts r''
            else none :: decodeParts (c :: r'')
          | [] => [none]
        else none :: decodeParts (b :: r')
      | [] => [none]
    else if 0xF0 ≤ a && a ≤ 0xF4 then
      match r with
      | b :: r' =>
        if followsLead a b then
          match r' with
          | c :: r'' =>
            if isContinuation c then
              match r'' with
              | d :: r''' =>
                if isContinuation d then
                  some (Char.ofNat (a.toNat % 8 * 262144 + continuationBits b * 4096
                    + continuationBits c * 64 + continuationBits d)) :: decodeParts r'''
                else none :: decodeParts (d :: r''')
              | [] => [none]
            else none :: decodeParts (c :: r'')
          | [] => [none]
        else none :: decodeParts (b :: r')
      | [] => [none]
    else none :: decodeParts r

/-- The characters of `b`, with `none` for each ill-formed part. -/
def chars (b : Bytes) : List (Option Char) :=
  match text? b with
  | some s => s.toList.map some
  | none => decodeParts b

/-- The text of `b`, with a replacement character for each ill-formed part. -/
def textLossy (b : Bytes) : String := String.ofList (b.chars.map (·.getD '\uFFFD'))

/-! ### Hexadecimal text -/

/-- The lowercase hexadecimal digit of a number below sixteen. -/
def hexDigit (n : Nat) : Char :=
  if n < 10 then Char.ofNat ('0'.toNat + n) else Char.ofNat ('a'.toNat + (n - 10))

/-- The value of a hexadecimal digit of either case. -/
def hexValue? (c : Char) : Option Nat :=
  if '0' ≤ c && c ≤ '9' then some (c.toNat - '0'.toNat)
  else if 'a' ≤ c && c ≤ 'f' then some (c.toNat - 'a'.toNat + 10)
  else if 'A' ≤ c && c ≤ 'F' then some (c.toNat - 'A'.toNat + 10)
  else none

/-- Two lowercase hexadecimal digits for each byte. -/
def hexChars : Bytes → List Char
  | [] => []
  | b :: r => hexDigit (b.toNat / 16) :: hexDigit (b.toNat % 16) :: hexChars r

/-- Two lowercase hexadecimal digits for each byte, as a text. -/
def toHex (b : Bytes) : String := String.ofList (hexChars b)

/-- Reads pairs of hexadecimal digits. -/
def ofHexChars? : List Char → Option Bytes
  | [] => some []
  | [_] => none
  | a :: b :: r => do
    let x ← hexValue? a
    let y ← hexValue? b
    return UInt8.ofNat (x * 16 + y) :: (← ofHexChars? r)

/-- Reads a hexadecimal text; refuses an odd number of digits. -/
def ofHex? (s : String) : Option Bytes := ofHexChars? s.toList

end Bytes

end ContentIndex
