import ContentIndex.Number.Binary64

/-!
# Decimal literals

A decimal literal is taken apart into sign, whole digits, fraction digits and exponent. Its
double is found in one of two ways: as the nearest double to its value, or from its leading
digits, as many as fit 64 bits, scaled by a power of ten with one rounding for each operation.

## Main definitions

* `DecimalLiteral`, `DecimalLiteral.split?`: the parts of a literal
* `DecimalLiteral.nearest`: the double nearest to the value
* `DecimalLiteral.scaled?`: leading digits times a power of ten, unless that overflows
-/

namespace ContentIndex

-- powers as in the core library, whichever other modules are read
attribute [local instance (2000)] instPowNat

/-- The parts of a decimal literal. -/
structure DecimalLiteral where
  /-- The sign written, if any. -/
  sign : Option Char
  /-- The digits before the point. -/
  whole : List Char
  /-- The digits after the point, if there is a point. -/
  fraction : Option (List Char)
  /-- The exponent, if one is written. -/
  exponent : Option Int

/-- The value of a decimal digit. -/
def digitValue (c : Char) : Nat := c.toNat - '0'.toNat

/-- The value of a list of decimal digits. -/
def digitsValue (ds : List Char) : Nat := ds.foldl (fun n c => n * 10 + digitValue c) 0

namespace DecimalLiteral

/-- Splits off a leading sign. -/
def splitSign : List Char → Option Char × List Char
  | c :: r => if c = '+' || c = '-' then (some c, r) else (none, c :: r)
  | [] => (none, [])

/-- The exponent that makes up all of the text; it needs at least one digit. -/
def exponent? (cs : List Char) : Option Int :=
  let (sign, ds) := splitSign cs
  if ds.isEmpty || !ds.all Char.isDigit then none
  else some (if sign = some '-' then -digitsValue ds else digitsValue ds)

/-- Takes a literal apart; digits may be missing on either side of the point. -/
def split? (cs : List Char) : Option DecimalLiteral :=
  let (sign, r) := splitSign cs
  let whole := r.takeWhile Char.isDigit
  let r := r.dropWhile Char.isDigit
  let (fraction, r) := match r with
    | '.' :: r => (some (r.takeWhile Char.isDigit), r.dropWhile Char.isDigit)
    | r => (none, r)
  match r with
  | [] => some ⟨sign, whole, fraction, none⟩
  | c :: r => if c = 'e' || c = 'E' then (exponent? r).map (⟨sign, whole, fraction, some ·⟩)
    else none

/-- The literal has a minus sign. -/
def isNegative (l : DecimalLiteral) : Bool := l.sign = some '-'

/-- No point and no exponent. -/
def isWhole (l : DecimalLiteral) : Bool := l.fraction.isNone && l.exponent.isNone

/-- The digits after the point. -/
def fractionDigits (l : DecimalLiteral) : List Char := l.fraction.getD []

/-- The double nearest to `± d * 10 ^ e`. Beyond 400 decimal places on either side of the point
every value is an infinity or zero. -/
def nearestTo (negative : Bool) (d : Nat) (e : Int) : Binary64 :=
  let places := e + (Nat.toDigits 10 d).length
  if d = 0 || places < -400 then .ofFraction negative 0 1
  else if 400 < places then .infinity negative
  else if 0 ≤ e then .ofFraction negative (d * 10 ^ e.toNat) 1
  else .ofFraction negative d (10 ^ (-e).toNat)

/-- The double nearest to the literal's value. -/
def nearest (l : DecimalLiteral) : Binary64 :=
  nearestTo l.isNegative (digitsValue (l.whole ++ l.fractionDigits))
    (l.exponent.getD 0 - l.fractionDigits.length)

/-- Appends digits to `n` while the result fits 64 bits; the digits left over. -/
def takeFitting (n : Nat) : List Char → Nat × List Char
  | [] => (n, [])
  | c :: r =>
    let m := n * 10 + digitValue c
    if m < 2 ^ (64 : Nat) then takeFitting m r else (n, c :: r)

/-- The double nearest to a power of ten. -/
def power (n : Nat) : Binary64 := .ofFraction false (10 ^ n) 1

/-- `x / 10 ^ n`, in steps of at most `10 ^ 308`. -/
def scaleDown (x : Binary64) (n : Nat) : Binary64 :=
  if n ≤ 308 then x.div (power n)
  else if x.isZero then x
  else scaleDown (x.div (power 308)) (n - 308)
termination_by n

/-- The leading digits that fit 64 bits as a double, times a power of ten; `none` when that
exceeds the greatest double. -/
def scaled? (l : DecimalLiteral) : Option Binary64 :=
  let (n, dropped) := takeFitting 0 l.whole
  let (n, rest) := takeFitting n l.fractionDigits
  let taken := l.fractionDigits.length - rest.length
  let e := l.exponent.getD 0 + dropped.length - taken
  let x := Binary64.ofFraction false n 1
  let signed (y : Binary64) : Binary64 := if l.isNegative then y.neg else y
  if e < 0 then some (signed (scaleDown x e.natAbs))
  else if x.isZero then some (signed x)
  else if e ≤ 308 then
    let y := x.mul (power e.toNat)
    if y.isFinite then some (signed y) else none
  else none

end DecimalLiteral

end ContentIndex
