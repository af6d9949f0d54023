import ContentIndex.Bytes

/-!
# Key ranges

A range holds the keys from a start on, up to an end that it does not hold.

## Main definitions

* `KeyRange`, `KeyRange.contains`, `KeyRange.isEmpty`
* `Bytes.prefixSuccessor?`: the least key above all keys with a prefix
* `KeyRange.ofPrefix`, `KeyRange.after`, `KeyRange.before`
-/

namespace ContentIndex

/-- The least byte string above every one that starts with the given bytes, whose last byte comes
first here; none if all of them are `0xFF`. -/
def Bytes.successorReversed? : Bytes → Option Bytes
  | [] => none
  | b :: r => if b < 0xFF then some ((b + 1) :: r).reverse else successorReversed? r

/-- The least byte string above every one that starts with `p`; none if `p` is all `0xFF`. -/
def Bytes.prefixSuccessor? (p : Bytes) : Option Bytes := successorReversed? p.reverse

/-- The keys from `start` on and below `stop`, if there is one. -/
structure KeyRange where
  /-- The least key. -/
  start : Bytes
  /-- The end, which is outside. -/
  stop : Option Bytes
  deriving DecidableEq

namespace KeyRange

/-- The keys that start with the given bytes. -/
def ofPrefix (p : Bytes) : KeyRange := ⟨p, p.prefixSuccessor?⟩

/-- The part of the range above a key. -/
def after (r : KeyRange) (key : Bytes) : KeyRange := ⟨key ++ [0], r.stop⟩

/-- The part of the range below a key. -/
def before (r : KeyRange) (key : Bytes) : KeyRange := ⟨r.start, some key⟩

/-- The range holds no key. -/
def isEmpty (r : KeyRange) : Bool := r.stop.any (· ≤ r.start)

/-- The range holds the key. -/
def contains (r : KeyRange) (key : Bytes) : Bool := r.start ≤ key && r.stop.all (key < ·)

end KeyRange

end ContentIndex
