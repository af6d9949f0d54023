import ContentIndex.Number.Binary64

/-!
# The shortest decimal of a double

A finite double is written with the fewest digits that read back as the same double, and of the
decimals with that many digits the one nearest to it. For each number of digits only the two
neighbours of the double on the decimal grid can qualify.

## Main definitions

* `Binary64.Interval`: the reals that round to a double, in exact integers
* `Binary64.shortest`: digits and power of ten of the shortest decimal
* `FloatLayout`: where the point and the exponent go
* `FloatLayout.write`: the text of a double
-/

namespace ContentIndex

-- powers as in the core library, whichever other modules are read
attribute [local instance (2000)] instPowNat

namespace Binary64

/-- The reals that round to a double, as multiples of a quarter of the smallest unit. -/
structure Interval where
  /-- The lower end. -/
  lo : Nat
  /-- The double itself. -/
  mid : Nat
  /-- The upper end. -/
  hi : Nat
  /-- The ends round to the double too. -/
  closed : Bool

/-- The reals that round to the positive double of the same size. -/
def interval (x : Binary64) : Interval :=
  let m := x.significand
  let p := 2 ^ x.shift
  { lo := if m = hidden ∧ 0 < x.shift then (4 * m - 1) * p else (4 * m - 2) * p
    mid := 4 * m * p
    hi := (4 * m + 2) * p
    closed := m % 2 = 0 }

/-- The natural number `m` divided by `2 ^ 1076` lies in the interval, where `m / d` is the
value asked about. -/
def Interval.Holds (i : Interval) (m d : Nat) : Bool :=
  if i.closed then i.lo * d ≤ m && m ≤ i.hi * d else i.lo * d < m && m < i.hi * d

/-- `10 ^ p` as a fraction. -/
def tenPow (p : Int) : Nat × Nat := if 0 ≤ p then (10 ^ p.toNat, 1) else (1, 10 ^ (-p).toNat)

/-- The greatest `e` with `10 ^ e ≤ v / 2 ^ 1076`, for positive `v`. -/
def leadingPower (v : Nat) : Int :=
  let guess := Int.fdiv (((Nat.log2 v : Int) - 1076) * 30103) 100000
  let below (e : Int) : Bool := (tenPow e).1 * (4 * scale) ≤ v * (tenPow e).2
  if below (guess + 1) then guess + 1 else if below guess then guess else guess - 1

/-- The better of the two neighbours of a double among the multiples of `10 ^ p`, if either
rounds to it. -/
def Interval.neighbour? (i : Interval) (p : Int) : Option Nat :=
  let (a, b) := tenPow p
  -- the double is `num / den` multiples of `10 ^ p`
  let num := i.mid * b
  let den := 4 * scale * a
  let f := num / den
  let inside (c : Nat) : Bool := i.Holds (c * den) b
  match inside f && f != 0, inside (f + 1) with
  | true, true =>
    let r := num % den
    if 2 * r < den then some f
    else if den < 2 * r then some (f + 1)
    else if f % 2 = 0 then some f else some (f + 1)
  | true, false => some f
  | false, true => some (f + 1)
  | false, false => none

/-- Moves trailing zeros of the digits into the power of ten; `n` bounds their number. -/
def stripZeros : Nat → Nat → Int → Nat × Int
  | 0, d, p => (d, p)
  | n + 1, d, p => if d % 10 = 0 && d != 0 then stripZeros n (d / 10) (p + 1) else (d, p)

/-- The first decimal with `n`, `n + 1`, … digits that rounds to the double, up to `n + k`
digits. -/
def shortestFrom (i : Interval) (e : Int) : Nat → Nat → Nat × Int
  | 0, _ => (i.mid / (4 * scale), 0)
  | k + 1, n =>
    let p := e + 1 - n
    match i.neighbour? p with
    | some d => stripZeros 20 d p
    | none => shortestFrom i e k (n + 1)

/-- Digits `d` and power `p` of the shortest decimal `d * 10 ^ p` that rounds to a finite
positive double; zero is `0 * 10 ^ 0`. -/
def shortest (x : Binary64) : Nat × Int :=
  if x.isZero then (0, 0)
  else
    let i := x.interval
    shortestFrom i (leadingPower i.mid) 18 1

end Binary64

/-- How a format writes a decimal. -/
structure FloatLayout where
  /-- A decimal below `10 ^ least` is written with an exponent. -/
  least : Option Int
  /-- A decimal from `10 ^ most` on is written with an exponent. -/
  most : Option Int
  /-- A whole number ends in `.0`. -/
  pointZero : Bool
  /-- A positive exponent carries a plus sign. -/
  plus : Bool

namespace FloatLayout

open Binary64

/-- The decimal `digits * 10 ^ p` without exponent. -/
def positional (l : FloatLayout) (digits : List Char) (p : Int) : List Char :=
  let point := (digits.length : Int) + p
  if 0 ≤ p then
    digits ++ List.replicate p.toNat '0' ++ (if l.pointZero then ['.', '0'] else [])
  else if 0 < point then
    digits.take point.toNat ++ '.' :: digits.drop point.toNat
  else
    '0' :: '.' :: List.replicate (-point).toNat '0' ++ digits

/-- The decimal `digits * 10 ^ p` with one digit before the point. -/
def scientific (l : FloatLayout) (digits : List Char) (p : Int) : List Char :=
  let e := (digits.length : Int) + p - 1
  let mantissa := match digits with
    | [] => ['0']
    | [d] => [d]
    | d :: r => d :: '.' :: r
  let sign := if e < 0 then ['-'] else if l.plus then ['+'] else []
  mantissa ++ 'e' :: sign ++ Nat.toDigits 10 e.natAbs

/-- The text of a finite double. -/
def write (l : FloatLayout) (x : Binary64) : List Char :=
  let (d, p) := x.shortest
  let digits := Nat.toDigits 10 d
  let e := (digits.length : Int) + p
  let small := l.least.any (e ≤ ·) && !x.isZero
  let large := l.most.any (· < e)
  let body := if small || large then l.scientific digits p else l.positional digits p
  if x.isNegative then '-' :: body else body

/-- No exponent ever, and a whole number without point. -/
def plain : FloatLayout := ⟨none, none, false, false⟩

end FloatLayout

end ContentIndex
