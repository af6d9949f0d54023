/-!
# Calendar and instants

Dates are those of the Gregorian calendar, extended to all years. An instant is a day, a second of
that day and a number of nanoseconds; from `10 ^ 9` nanoseconds on it lies in a leap second, which
follows the last second of a minute.

## Main definitions

* `Calendar.dayNumber`, `Calendar.dateOf`: days in a row and their dates
* `Instant`, `Instant.ofDate?`, `Instant.shift?`: instants by date and time, and their shift by an
  offset
* `Instant.since`: the nanoseconds between two instants
* `Instant.write`: the text of an instant
-/

namespace ContentIndex

namespace Calendar

/-- The year has a 29th of February. -/
def isLeapYear (y : Int) : Bool := y % 4 = 0 && (y % 100 ≠ 0 || y % 400 = 0)

/-- The number of days in a month. -/
def daysInMonth (y : Int) (m : Nat) : Nat :=
  if m = 2 then if isLeapYear y then 29 else 28
  else if m = 4 || m = 6 || m = 9 || m = 11 then 30
  else 31

/-- The date exists. -/
def isDate (y : Int) (m d : Nat) : Bool := 1 ≤ m && m ≤ 12 && 1 ≤ d && d ≤ daysInMonth y m

/-- The years that instants have. -/
def isYear (y : Int) : Bool := -262143 ≤ y && y ≤ 262142

/-- The number of days from the first of March of year zero to a date. Years are counted from
March, so that the leap day ends the year. -/
def dayNumber (y : Int) (m d : Nat) : Int :=
  let y := if m ≤ 2 then y - 1 else y
  let month : Nat := if m ≤ 2 then m + 9 else m - 3
  365 * y + y / 4 - y / 100 + y / 400 + (153 * month + 2) / 5 + (d - 1 : Nat)

/-- The year, month and day of a day number. -/
def dateOf (n : Int) : Int × Nat × Nat :=
  let era := n / 146097
  let day := (n % 146097).toNat
  let year := (day - day / 1460 + day / 36524 - day / 146096) / 365
  let inYear := day - (365 * year + year / 4 - year / 100)
  let month := (5 * inYear + 2) / 153
  let d := inYear - (153 * month + 2) / 5 + 1
  let m := if month < 10 then month + 3 else month - 9
  let y := era * 400 + year
  (if m ≤ 2 then y + 1 else y, m, d)

end Calendar

/-- A point in time, without offset. -/
structure Instant where
  /-- The day number. -/
  day : Int
  /-- The second of the day. -/
  second : Nat
  /-- The nanosecond of the second, from `10 ^ 9` on of the leap second after it. -/
  nanosecond : Nat
  deriving DecidableEq, Inhabited

namespace Instant

/-- The nanoseconds of a second. -/
def billion : Nat := 1000000000

/-- The seconds of a day. -/
def daySeconds : Nat := 86400

/-- The instant of a date and a time of day; the second may be the 60th of a leap second. -/
def ofDate? (y : Int) (m d h min s nano : Nat) : Option Instant :=
  if Calendar.isYear y && Calendar.isDate y m d && h < 24 && min < 60 && s ≤ 60 then
    some {
      day := Calendar.dayNumber y m d
      second := h * 3600 + min * 60 + (if s = 60 then 59 else s)
      nanosecond := if s = 60 then nano + billion else nano }
  else none

/-- The instant that many seconds earlier, if its year has instants. -/
def shift? (i : Instant) (seconds : Int) : Option Instant :=
  let t := i.day * daySeconds + i.second - seconds
  let day := t / daySeconds
  if Calendar.isYear (Calendar.dateOf day).1 then
    some ⟨day, (t % daySeconds).toNat, i.nanosecond⟩
  else none

/-- The nanoseconds since an earlier instant. A leap second counts when it lies between two times
of day. -/
def since (a b : Instant) : Int :=
  let leap : Int :=
    if b.second < a.second then if billion ≤ b.nanosecond then 1 else 0
    else if a.second < b.second then if billion ≤ a.nanosecond then -1 else 0
    else 0
  ((a.day - b.day) * daySeconds + a.second - b.second + leap) * billion
    + a.nanosecond - b.nanosecond

/-- How an instant is written after its seconds. -/
inductive Fraction
  /-- Three digits. -/
  | millis
  /-- No digits, or three, six or nine, as many as are needed. -/
  | shortest
  deriving DecidableEq

/-- The digits of a number, filled up with zeros. -/
def padded (width n : Nat) : List Char :=
  let ds := Nat.toDigits 10 n
  List.replicate (width - ds.length) '0' ++ ds

/-- The digits of a year; outside of four digits it has a sign. -/
def yearChars (y : Int) : List Char :=
  let sign := if y < 0 then ['-'] else if y ≤ 9999 then [] else ['+']
  sign ++ padded 4 y.natAbs

/-- The digits after the seconds, with their point. -/
def Fraction.chars (nano : Nat) : Fraction → List Char
  | .millis => '.' :: padded 3 (nano / 1000000)
  | .shortest =>
    if nano = 0 then []
    else if nano % 1000000 = 0 then '.' :: padded 3 (nano / 1000000)
    else if nano % 1000 = 0 then '.' :: padded 6 (nano / 1000)
    else '.' :: padded 9 nano

/-- The text of an instant with a mark for its offset. -/
def write (i : Instant) (fraction : Fraction) (offset : String) : String :=
  let (y, m, d) := Calendar.dateOf i.day
  let leap := billion ≤ i.nanosecond
  let s := i.second % 60 + if leap then 1 else 0
  let nano := if leap then i.nanosecond - billion else i.nanosecond
  String.ofList (yearChars y ++ '-' :: padded 2 m ++ '-' :: padded 2 d ++ 'T'
    :: padded 2 (i.second / 3600) ++ ':' :: padded 2 (i.second / 60 % 60) ++ ':' :: padded 2 s
    ++ fraction.chars nano ++ offset.toList)

end Instant

end ContentIndex
