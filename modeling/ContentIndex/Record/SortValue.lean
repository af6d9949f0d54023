import ContentIndex.Record.Basic

/-!
# Sort values

The bytes of a scalar are ordered like the scalars themselves, and none is the start of another,
so a path may follow directly. A missing value comes first, then truth values, numbers and texts.

## Main definitions

* `SortValue.encode`: the bytes of a value, or of its absence
-/

namespace ContentIndex.SortValue

/-- The lead byte of a missing value. -/
def missingTag : UInt8 := 0x00

/-- The lead byte of a truth value. -/
def boolTag : UInt8 := 0x20

/-- The lead byte of a number. -/
def numberTag : UInt8 := 0x30

/-- The lead byte of a text. -/
def textTag : UInt8 := 0x40

/-- The bits of a double with the sign bit set for positive numbers and all bits inverted for
negative ones, so that they are ordered like the numbers. Negative zero counts as zero. -/
def orderedBits (x : Binary64) : UInt64 :=
  if x.isZero then 0x8000000000000000
  else if x.isNegative then ~~~x.bits
  else x.bits ||| 0x8000000000000000

/-- The eight bytes of a word, the most significant first. -/
def bigEndian (w : UInt64) : Bytes :=
  ([56, 48, 40, 32, 24, 16, 8, 0] : List UInt64).map fun k => (w >>> k).toUInt8

/-- Text bytes, with `0xFF` after every zero byte. -/
def escapeZeros : Bytes → Bytes
  | [] => []
  | b :: r => if b = 0 then 0 :: 0xFF :: escapeZeros r else b :: escapeZeros r

/-- The bytes of a value, or of its absence; what is no scalar counts as missing. -/
def encode : Option FieldValue → Bytes
  | some (.boolean b) => [boolTag, if b then 1 else 0]
  | some (.number x) => numberTag :: bigEndian (orderedBits x)
  | some (.string s) | some (.datetime s) =>
    textTag :: escapeZeros (Bytes.ofText s) ++ [0x00, 0x01]
  | _ => [missingTag]

end ContentIndex.SortValue
