/-!
# Double precision numbers

A double is named by its bit pattern. Every finite double is a whole multiple of `2 ^ (-1074)`,
so its size is the natural number of such units, and rounding a fraction to the nearest double is
one division of natural numbers.

## Main definitions

* `Binary64`: bit patterns
* `Binary64.units`: the size of a finite double, in units of `2 ^ (-1074)`
* `Binary64.ofFraction`: the double nearest to a fraction, ties to even
* `Binary64.mul`, `Binary64.div`: the rounded product and quotient
* `Binary64.compare?`: the numeric order, in which both zeros are equal
-/

namespace ContentIndex

-- powers as in the core library, whichever other modules are read
attribute [local instance (2000)] instPowNat

/-- A double precision number, named by its bits. -/
structure Binary64 where
  /-- Sign, exponent field and fraction field. -/
  bits : UInt64
  deriving DecidableEq, Inhabited

/-- The quotient `a / b` rounded to the nearest whole number, a tie to the even one. -/
def divHalfEven (a b : Nat) : Nat :=
  let q := a / b
  let r := a % b
  if 2 * r < b then q else if b < 2 * r then q + 1 else if q % 2 = 0 then q else q + 1

namespace Binary64

/-- One unit of the fraction field's leading bit. -/
def hidden : Nat := 2 ^ (52 : Nat)

/-- The number of the smallest units in one. -/
def scale : Nat := 2 ^ (1074 : Nat)

/-- The bits without the sign bit. -/
def magnitude (x : Binary64) : Nat := x.bits.toNat % 2 ^ (63 : Nat)

/-- The sign bit is set. -/
def isNegative (x : Binary64) : Bool := 2 ^ (63 : Nat) ≤ x.bits.toNat

/-- The magnitude of the infinities. -/
def infinite : Nat := 2047 * hidden

/-- Neither an infinity nor a NaN. -/
def isFinite (x : Binary64) : Bool := x.magnitude < infinite

/-- Not a number. -/
def isNaN (x : Binary64) : Bool := infinite < x.magnitude

/-- Either zero. -/
def isZero (x : Binary64) : Bool := x.magnitude = 0

/-- The power of two that multiplies the significand, in the smallest units. -/
def shift (x : Binary64) : Nat := x.magnitude / hidden - 1

/-- The significand, with its hidden bit unless the double is subnormal. -/
def significand (x : Binary64) : Nat :=
  if x.magnitude / hidden = 0 then x.magnitude else hidden + x.magnitude % hidden

/-- The size of a finite double, in units of `2 ^ (-1074)`. -/
def units (x : Binary64) : Nat := x.significand * 2 ^ x.shift

/-- The double with the given sign and magnitude. -/
def ofMagnitude (negative : Bool) (m : Nat) : Binary64 :=
  ⟨UInt64.ofNat (m + if negative then 2 ^ (63 : Nat) else 0)⟩

/-- The double nearest to `± num / den`, ties to even, and an infinity beyond the greatest. -/
def ofFraction (negative : Bool) (num den : Nat) : Binary64 :=
  let u := num * scale
  let k := Nat.log2 (u / den) - 52
  ofMagnitude negative (min infinite (k * hidden + divHalfEven u (den * 2 ^ k)))

/-- The double nearest to a whole number. -/
def ofInt (i : Int) : Binary64 := ofFraction (i < 0) i.natAbs 1

/-- Positive zero. -/
def zero : Binary64 := ⟨0⟩

/-- Positive infinity, or negative infinity. -/
def infinity (negative : Bool) : Binary64 := ofMagnitude negative infinite

/-- The quiet NaN. -/
def nan : Binary64 := ofMagnitude false (infinite + hidden / 2)

/-- The number with the other sign. -/
def neg (x : Binary64) : Binary64 := ofMagnitude (!x.isNegative) x.magnitude

/-- The rounded product of two finite doubles. -/
def mul (x y : Binary64) : Binary64 :=
  ofFraction (x.isNegative ^^ y.isNegative) (x.units * y.units) (scale * scale)

/-- The rounded quotient of two finite doubles; the divisor is not zero. -/
def div (x y : Binary64) : Binary64 :=
  ofFraction (x.isNegative ^^ y.isNegative) x.units y.units

/-- The signed size in units of `2 ^ (-1074)`; an infinity lies beyond every finite double. -/
def rank (x : Binary64) : Int := if x.isNegative then -x.units else x.units

/-- The numeric order; a NaN has no place in it. -/
def compare? (x y : Binary64) : Option Ordering :=
  if x.isNaN || y.isNaN then none else some (compare x.rank y.rank)

/-- The whole number that a finite double is, if it is one. -/
def toInt? (x : Binary64) : Option Int :=
  if x.isFinite && x.units % scale = 0 then
    let n : Int := x.units / scale
    some (if x.isNegative then -n else n)
  else none

end Binary64

end ContentIndex
