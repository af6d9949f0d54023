/-!
# Places in a YAML text

## Main definitions

* `Yaml.Cursor`: the rest of a text and the place where it begins
* `Yaml.isBreak`, `Yaml.isBlank`, `Yaml.isWord`: the character classes of the format
* `Yaml.Cursor.skip`, `Yaml.Cursor.readLine`: moving on
* `Yaml.isAllowed`: the characters that a text may hold
-/

namespace ContentIndex.Yaml

/-- A line break. -/
def isBreak (c : Char) : Bool :=
  c = '\n' || c = '\r' || c = '\u0085' || c = '\u2028' || c = '\u2029'

/-- A blank or a tab. -/
def isBlank (c : Char) : Bool := c = ' ' || c = '\t'

/-- A character of names: an ASCII letter, a digit, `-` or `_`. -/
def isWord (c : Char) : Bool := c.isAlphanum || c = '-' || c = '_'

/-- A character that a text may hold: no control character but tab and line breaks. -/
def isAllowed (c : Char) : Bool :=
  c = '\t' || c = '\n' || c = '\r' || (' ' ≤ c && c ≤ '~') || c = '\u0085'
    || ('\u00A0' ≤ c && c ≤ '\uFFFD') || 0x10000 ≤ c.toNat

/-- The rest of a text, with the number of bytes, of lines and of characters on the line before
it. -/
structure Cursor where
  /-- The characters to come. -/
  rest : List Char
  /-- The number of bytes read, counted in UTF-8. -/
  index : Nat
  /-- The number of lines read. -/
  line : Nat
  /-- The number of characters read on this line. -/
  column : Nat

namespace Cursor

/-- The start of a text. -/
def start (cs : List Char) : Cursor := ⟨cs, 0, 0, 0⟩

/-- The next character. -/
def peek (c : Cursor) : Option Char := c.rest.head?

/-- The character at a distance. -/
def peekAt (c : Cursor) (n : Nat) : Option Char := c.rest[n]?

/-- The next character is the given one. -/
def sees (c : Cursor) (x : Char) : Bool := c.peek = some x

/-- The next character satisfies the test. -/
def seesAny (c : Cursor) (p : Char → Bool) : Bool := c.peek.any p

/-- The text ends here. -/
def atEnd (c : Cursor) : Bool := c.rest.isEmpty

/-- Blank, break or end at a distance. -/
def spaceAt (c : Cursor) (n : Nat) : Bool := (c.peekAt n).all fun x => isBlank x || isBreak x

/-- Blank, break or end here. -/
def atSpace (c : Cursor) : Bool := c.spaceAt 0

/-- Break or end here. -/
def atLineEnd (c : Cursor) : Bool := c.peek.all isBreak

/-- Past one character that is no break. -/
def skip (c : Cursor) : Cursor :=
  match c.rest with
  | x :: r => ⟨r, c.index + x.utf8Size, c.line, c.column + 1⟩
  | [] => c

/-- Past `n` characters that are no breaks. -/
def skipN : Nat → Cursor → Cursor
  | 0, c => c
  | n + 1, c => skipN n c.skip

/-- Past the characters that satisfy the test, none of them a break; and those characters. -/
def takeWhile (p : Char → Bool) (c : Cursor) : List Char × Cursor :=
  let taken := c.rest.takeWhile p
  (taken, c.skipN taken.length)

/-- Past the characters that satisfy the test, none of them a break. -/
def skipWhile (p : Char → Bool) (c : Cursor) : Cursor := (c.takeWhile p).2

/-- Past blanks and tabs. -/
def skipBlanks (c : Cursor) : Cursor := c.skipWhile isBlank

/-- Past one line break, if there is one, and the break as it counts in text: the breaks of
operating systems count as a line feed. -/
def readLine (c : Cursor) : List Char × Cursor :=
  match c.rest with
  | '\r' :: '\n' :: r => (['\n'], ⟨r, c.index + 2, c.line + 1, 0⟩)
  | x :: r =>
    if isBreak x then
      let read := if x = '\u2028' || x = '\u2029' then [x] else ['\n']
      (read, ⟨r, c.index + x.utf8Size, c.line + 1, 0⟩)
    else ([], c)
  | [] => ([], c)

/-- Past one line break, if there is one. -/
def skipLine (c : Cursor) : Cursor := c.readLine.2

/-- Past a comment, if one begins here. -/
def skipComment (c : Cursor) : Cursor :=
  if c.sees '#' then c.skipWhile fun x => !isBreak x else c

/-- A document marker made of three of the given character stands here, at the start of a
line. -/
def atMarker (c : Cursor) (x : Char) : Bool :=
  c.column = 0 && c.rest.take 3 = [x, x, x] && c.spaceAt 3

/-- A document marker stands here. -/
def atDocumentMarker (c : Cursor) : Bool := c.atMarker '-' || c.atMarker '.'

end Cursor

end ContentIndex.Yaml
