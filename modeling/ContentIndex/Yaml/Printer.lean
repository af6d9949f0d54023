import ContentIndex.Yaml.Content

/-!
# Writing YAML

Objects and arrays are written as blocks, one entry a line; the items of an array stand no deeper
than the member that holds it. A text is written plain where that reads back as the same text, a
text with line feeds as a literal block, and others between quotes.

## Main definitions

* `Yaml.floatLayout`: how a double is written in YAML
* `Yaml.Style`, `Yaml.Style.ofText`: the four ways to write a text and the choice between them
* `Yaml.Printer.inline?`, `Yaml.Printer.entries`: the text of scalars and of collections
* `Yaml.print`: the text of a document
-/

namespace ContentIndex.Yaml

open Json (Value)

/-- Positional between `10 ^ (-5)` and `10 ^ 16`, whole numbers with `.0`, and no plus sign
before exponents. -/
def floatLayout : FloatLayout := ⟨some (-5), some 16, true, false⟩

/-! ### The choice of a style -/

/-- A character that may be written as it is. -/
def isPrintable (c : Char) : Bool :=
  c = '\n' || (' ' ≤ c && c ≤ '~')
    || ('\u00A0' ≤ c && c ≠ '\uFEFF' && c ≠ '\uFFFE' && c ≠ '\uFFFF')

/-- Two neighbours satisfy the tests. -/
def hasPair (p q : Char → Bool) : List Char → Bool
  | a :: b :: r => (p a && q b) || hasPair p q (b :: r)
  | _ => false

/-- Blank, break or end. -/
def startsSpace (cs : List Char) : Bool :=
  cs.head?.all fun c => isBlank c || isBreak c || c = '\x00'

/-- The characters with which no plain text begins. -/
def leadingIndicators : List Char := "#,[]\x7b\x7d&*!|>'\"%@`".toList

/-- A colon before white space or a number sign after it, anywhere after the first character;
`prev` is the character before. -/
def hasInnerIndicator (prev : Char) : List Char → Bool
  | [] => false
  | c :: r =>
    (c = ':' && startsSpace r) || (c = '#' && startsSpace [prev]) || hasInnerIndicator c r

/-- The text would not read back as a plain scalar in a block because of its punctuation. -/
def hasIndicator (cs : List Char) : Bool :=
  match cs with
  | [] => false
  | c :: r =>
    cs.take 3 = ['-', '-', '-'] || cs.take 3 = ['.', '.', '.']
      || leadingIndicators.contains c
      || ((c = '?' || c = ':' || c = '-') && startsSpace r)
      || hasInnerIndicator c r

/-- A blank character, no tab. -/
def isSpace (c : Char) : Bool := c = ' '

/-- Only escapes can keep the text apart from the white space around its line breaks. -/
def needsEscapes (cs : List Char) : Bool := !cs.all isPrintable || hasPair isSpace isBreak cs

/-- The text can be a literal block. -/
def fitsLiteral (cs : List Char) : Bool := !needsEscapes cs && cs.getLast? ≠ some ' '

/-- The text can stand between single quotes. -/
def fitsSingle (cs : List Char) : Bool := !needsEscapes cs && !hasPair isBreak isSpace cs

/-- The text can be a plain scalar. -/
def fitsPlain (cs : List Char) : Bool :=
  fitsSingle cs && !cs.any isBreak && !cs.head?.any isSpace && !cs.getLast?.any isSpace
    && !hasIndicator cs

/-- A plain scalar of this text would be something else. -/
def isMisread (cs : List Char) : Bool :=
  match Resolved.ofPlain cs with
  | .text _ => hasLeadingZero cs
  | _ => true

/-- A way to write a text. -/
inductive Style
  | plain
  | single
  | double
  | literal
  deriving DecidableEq

/-- The way a text is written. -/
def Style.ofText (cs : List Char) : Style :=
  if cs.contains '\n' then if fitsLiteral cs then .literal else .double
  else if !isMisread cs && fitsPlain cs then .plain
  else if fitsSingle cs then .single
  else .double

/-! ### Scalars -/

/-- An uppercase hexadecimal number of the given width. -/
def upperHex (width n : Nat) : List Char :=
  let ds := (Nat.toDigits 16 n).map Char.toUpper
  List.replicate (width - ds.length) '0' ++ ds

/-- The letter that stands for a character after a backslash. -/
def escapeLetter? (c : Char) : Option Char :=
  match c with
  | '\x00' => some '0'
  | '\x07' => some 'a'
  | '\x08' => some 'b'
  | '\t' => some 't'
  | '\n' => some 'n'
  | '\x0b' => some 'v'
  | '\x0c' => some 'f'
  | '\r' => some 'r'
  | '\x1b' => some 'e'
  | '"' => some '"'
  | '\\' => some '\\'
  | '\u0085' => some 'N'
  | '\u2028' => some 'L'
  | '\u2029' => some 'P'
  | _ => none

/-- A character between double quotes. -/
def escaped (c : Char) : List Char :=
  if isPrintable c && !isBreak c && c ≠ '"' && c ≠ '\\' then [c]
  else match escapeLetter? c with
    | some l => ['\\', l]
    | none =>
      if c.toNat ≤ 0xFF then '\\' :: 'x' :: upperHex 2 c.toNat
      else if c.toNat ≤ 0xFFFF then '\\' :: 'u' :: upperHex 4 c.toNat
      else '\\' :: 'U' :: upperHex 8 c.toNat

/-- Indents every line that is not empty; `start` says that a line starts here. -/
def indentLines (indent : Nat) (start : Bool) : List Char → List Char
  | [] => []
  | c :: r =>
    if isBreak c then c :: indentLines indent true r
    else if start then List.replicate indent ' ' ++ c :: indentLines indent false r
    else c :: indentLines indent false r

/-- The indicators of a literal block: its indentation if the text does not show it, and what
becomes of the breaks at its end. -/
def literalHeader (cs : List Char) : List Char :=
  let indentation := if cs.head?.any fun c => isSpace c || isBreak c then ['2'] else []
  let chomping := match cs.reverse with
    | a :: r =>
      if !isBreak a then ['-'] else if r.head?.all isBreak then ['+'] else []
    | [] => ['-']
  '|' :: indentation ++ chomping

/-- A text, its further lines indented. -/
def textChars (indent : Nat) (s : String) : List Char :=
  let cs := s.toList
  match Style.ofText cs with
  | .plain => cs
  | .single =>
    '\'' :: indentLines indent false (cs.flatMap fun c => if c = '\'' then [c, c] else [c])
      ++ (if cs.getLast?.any isBreak then List.replicate indent ' ' else []) ++ ['\'']
  | .double => '"' :: cs.flatMap escaped ++ ['"']
  | .literal => literalHeader cs ++ '\n' :: indentLines indent true cs

/-- The text of a number. -/
def numberChars : Json.Number → List Char
  | .int i _ => (toString i).toList
  | .float x _ => floatLayout.write x

/-! ### Collections -/

/-- The key can stand before its colon on one line. -/
def isSimpleKey (k : String) : Bool := k.utf8ByteSize ≤ 128 && !k.toList.any isBreak

/-- Ends the line, unless a line break ends the text already. -/
def closeLine (cs : List Char) : List Char := if cs.getLast?.any isBreak then cs else cs ++ ['\n']

/-- Entries that stand on lines of their own. -/
def onLines (indent : Nat) (entries : List (List Char)) : List Char :=
  entries.flatMap (List.replicate indent ' ' ++ ·)

/-- Entries of which the first stands on the line of an indicator. -/
def afterIndicator (indent : Nat) : List (List Char) → List Char
  | [] => []
  | e :: r => ' ' :: e ++ onLines indent r

namespace Printer

/-- The text of a scalar or an empty collection whose entry is indented; none for the others. -/
def inline? (indent : Nat) : Value → Option (List Char)
  | .null => some ['n', 'u', 'l', 'l']
  | .bool b => some (if b then ['t', 'r', 'u', 'e'] else ['f', 'a', 'l', 's', 'e'])
  | .number n => some (numberChars n)
  | .string s => some (textChars (indent + 2) s)
  | .array [] => some ['[', ']']
  | .object [] => some ['\x7b', '\x7d']
  | _ => none

mutual

/-- The entries of a collection at an indentation, each with the end of its line. -/
def entries (indent : Nat) : Value → List (List Char)
  | .array items => itemEntries indent items
  | .object members => memberEntries indent members
  | _ => []

/-- A value after an indicator at an indentation. -/
def afterMark (indent : Nat) (v : Value) : List Char :=
  match inline? indent v with
  | some cs => closeLine (' ' :: cs)
  | none => afterIndicator (indent + 2) (entries (indent + 2) v)

/-- The items of an array. -/
def itemEntries (indent : Nat) : List Value → List (List Char)
  | [] => []
  | v :: r => ('-' :: afterMark indent v) :: itemEntries indent r

/-- The members of an object. -/
def memberEntries (indent : Nat) : List (String × Value) → List (List Char)
  | [] => []
  | (k, v) :: r =>
    let key := textChars (indent + 2) k
    let entry :=
      if isSimpleKey k then
        key ++ ':' :: match inline? indent v with
          | some cs => closeLine (' ' :: cs)
          | none =>
            let inner := match v with
              | .array _ => indent
              | _ => indent + 2
            '\n' :: onLines inner (entries inner v)
      else
        closeLine ('?' :: ' ' :: key) ++ List.replicate indent ' ' ++ ':' :: afterMark indent v
    entry :: memberEntries indent r

end

end Printer

/-- The text of an object. -/
def print (members : List (String × Value)) : List Char :=
  match members with
  | [] => ['\x7b', '\x7d', '\n']
  | _ => (Printer.memberEntries 0 members).flatten

end ContentIndex.Yaml
