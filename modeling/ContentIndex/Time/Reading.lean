import ContentIndex.Text.Blank
import ContentIndex.Time.Instant

/-!
# Reading dates and times

A date field accepts a datetime with an offset, a datetime without one, which is taken as UTC, and
a plain date, which stands for its midnight. Other times are read in the looser form of
timestamps.

## Main definitions

* `Instant.ofTimestamp?`: a datetime with an offset
* `Instant.ofLooseTimestamp?`: the same with blanks around its numbers and an optional colon in
  the offset
* `Instant.ofText?`: what a date field accepts
* `Instant.canonical?`: the canonical text of a date field
-/

namespace ContentIndex.Instant

-- powers as in the core library, whichever other modules are read
attribute [local instance (2000)] instPowNat

/-! ### Parts -/

/-- Reads at least `least` and at most `most` digits. -/
def digits? (least : Nat) (most : Option Nat) (cs : List Char) : Option (Nat × List Char) :=
  let ds := cs.takeWhile Char.isDigit
  let ds := match most with
    | some n => ds.take n
    | none => ds
  if ds.length < least then none
  else some (ds.foldl (fun n c => n * 10 + (c.toNat - '0'.toNat)) 0, cs.drop ds.length)

/-- Reads the given character. -/
def char? (c : Char) : List Char → Option (List Char)
  | d :: r => if c = d then some r else none
  | [] => none

/-- Reads one or two digits after blanks. -/
def number? (cs : List Char) : Option (Nat × List Char) := digits? 1 (some 2) (Text.trimStart cs)

/-- Reads a year after blanks: up to four digits, or any number of them after a sign. -/
def year? (cs : List Char) : Option (Int × List Char) :=
  match Text.trimStart cs with
  | '-' :: r => (digits? 1 none r).map fun (n, r) => (-(n : Int), r)
  | '+' :: r => (digits? 1 none r).map fun (n, r) => ((n : Int), r)
  | r => (digits? 1 (some 4) r).map fun (n, r) => ((n : Int), r)

/-- Reads the digits of a fraction of a second: one to nine of them, further ones are passed
over. -/
def fraction? (cs : List Char) : Option (Nat × List Char) := do
  let ds := cs.takeWhile Char.isDigit
  let (n, _) ← digits? 1 (some 9) cs
  return (n * 10 ^ (9 - ds.length), cs.drop ds.length)

/-- Reads a fraction of a second, if a point begins one. -/
def optionalFraction? : List Char → Option (Nat × List Char)
  | '.' :: r => fraction? r
  | r => some (0, r)

/-! ### Datetimes with an offset -/

/-- Reads an offset in seconds: `Z`, or a sign, two digits for hours and two for minutes, with
`colon` between them. -/
def offset? (colon : List Char → Option (List Char)) : List Char → Option (Int × List Char)
  | [] => none
  | c :: r =>
    if c = 'Z' || c = 'z' then some (0, r)
    else if c = '+' || c = '-' || c = '\u2212' then do
      let (h, r) ← digits? 2 (some 2) r
      let (m, r) ← digits? 2 (some 2) (← colon r)
      let seconds : Int := h * 3600 + m * 60
      if h < 24 && m < 60 then return (if c = '+' then seconds else -seconds, r) else none
    else none

/-- Reads the mark between date and time. -/
def dateEnd? : List Char → Option (List Char)
  | c :: r => if c = 'T' || c = 't' || c = ' ' then some r else none
  | [] => none

/-- The datetime that makes up all of a text: fixed widths, and an offset with a colon. -/
def ofTimestamp? (cs : List Char) : Option Instant := do
  let (y, r) ← digits? 4 (some 4) cs
  let (m, r) ← digits? 2 (some 2) (← char? '-' r)
  let (d, r) ← digits? 2 (some 2) (← char? '-' r)
  let (h, r) ← digits? 2 (some 2) (← dateEnd? r)
  let (min, r) ← digits? 2 (some 2) (← char? ':' r)
  let (s, r) ← digits? 2 (some 2) (← char? ':' r)
  let (nano, r) ← optionalFraction? r
  let (offset, r) ← offset? (char? ':') r
  if r.isEmpty then (← ofDate? y m d h min s nano).shift? offset else none

/-- Reads a character after blanks. -/
def looseChar? (c : Char) (cs : List Char) : Option (List Char) := char? c (Text.trimStart cs)

/-- Reads a loose offset: `UTC`, or an offset with any blanks and colons in it. -/
def looseOffset? (cs : List Char) : Option (Int × List Char) :=
  match Text.trimStart cs with
  | a :: b :: c :: r =>
    if [a, b, c].map Char.toUpper = ['U', 'T', 'C'] then some (0, r)
    else offset? (fun r => some (r.dropWhile fun c => c = ':' || Text.isBlank c)) (a :: b :: c :: r)
  | r => offset? some r

/-- The datetime of a timestamp, with blanks allowed around its parts. -/
def ofLooseTimestamp? (text : String) : Option Instant := do
  let (y, r) ← year? text.toList
  let (m, r) ← number? (← looseChar? '-' r)
  let (d, r) ← number? (← looseChar? '-' r)
  let (h, r) ← number? (← dateEnd? r)
  let (min, r) ← number? (← looseChar? ':' r)
  let (s, r) ← number? (← looseChar? ':' r)
  let (nano, r) ← optionalFraction? r
  let (offset, r) ← looseOffset? r
  if r.all Text.isBlank then (← ofDate? y m d h min s nano).shift? offset else none

/-! ### Dates and datetimes without an offset -/

/-- Reads a date. -/
def date? (cs : List Char) : Option ((Int × Nat × Nat) × List Char) := do
  let (y, r) ← year? cs
  let (m, r) ← number? (← char? '-' r)
  let (d, r) ← number? (← char? '-' r)
  return ((y, m, d), r)

/-- Reads hours and minutes. -/
def hourMinute? (cs : List Char) : Option ((Nat × Nat) × List Char) := do
  let (h, r) ← number? cs
  let (min, r) ← number? (← char? ':' r)
  return ((h, min), r)

/-- A date and a time with seconds, which make up all of a text; `mark` reads what stands between
them. -/
def ofSeconds? (mark : List Char → Option (List Char)) (cs : List Char) : Option Instant := do
  let ((y, m, d), r) ← date? cs
  let ((h, min), r) ← hourMinute? (← mark r)
  let (s, r) ← number? (← char? ':' r)
  let (nano, r) ← optionalFraction? r
  if r.isEmpty then ofDate? y m d h min s nano else none

/-- A date and a time without seconds, which make up all of a text. -/
def ofMinutes? (cs : List Char) : Option Instant := do
  let ((y, m, d), r) ← date? cs
  let ((h, min), r) ← hourMinute? (← char? 'T' r)
  if r.isEmpty then ofDate? y m d h min 0 0 else none

/-- The midnight of a date, which makes up all of a text. -/
def ofDay? (cs : List Char) : Option Instant := do
  let ((y, m, d), r) ← date? cs
  if r.isEmpty then ofDate? y m d 0 0 0 0 else none

/-- The instant of a text between blanks. -/
def ofText? (text : String) : Option Instant :=
  let cs := Text.trim text.toList
  ofTimestamp? cs <|> ofSeconds? (char? 'T') cs <|> ofSeconds? (some ∘ Text.trimStart) cs
    <|> ofMinutes? cs <|> ofDay? cs

/-- The canonical text of a date field: UTC with milliseconds. -/
def canonical? (text : String) : Option String := (ofText? text).map (·.write .millis "Z")

end ContentIndex.Instant
