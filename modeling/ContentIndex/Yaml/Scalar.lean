import ContentIndex.Bytes
import ContentIndex.Yaml.Cursor

/-!
# Scalars in a YAML text

A scalar is written plain, between quotes, or as an indented block. Line breaks inside a plain or
quoted scalar are folded: a single one counts as a blank and of several the first is dropped.

## Main definitions

* `Yaml.Folding`: the white space since the last character of a scalar
* `Yaml.Cursor.plain?`, `Yaml.Cursor.quoted?`, `Yaml.Cursor.block?`: the scalar that begins at a
  place, and the place after it
-/

namespace ContentIndex.Yaml

/-- White space inside a scalar that is not known to belong to it yet. -/
structure Folding where
  /-- Blanks on the line of the last character. -/
  blanks : List Char
  /-- A line ended since the last character. -/
  broken : Bool
  /-- The first break. -/
  first : List Char
  /-- The further breaks. -/
  further : List Char

namespace Folding

/-- No white space. -/
def none : Folding := ⟨[], false, [], []⟩

/-- The text that the white space counts as. -/
def text (f : Folding) : List Char :=
  if f.broken then
    if f.first.head? = some '\n' then
      if f.further.isEmpty then [' '] else f.further
    else f.first ++ f.further
  else f.blanks

/-- Reads blanks and breaks. Where `indent` is given, a tab left of it on a later line is
refused. -/
def read? (indent : Option Int) : Nat → Folding → Cursor → Option (Folding × Cursor)
  | 0, _, _ => .none
  | n + 1, f, c =>
    match c.peek with
    | .none => some (f, c)
    | some x =>
      if isBlank x then
        if f.broken && x = '\t' && indent.any ((c.column : Int) < ·) then .none
        else if f.broken then read? indent n f c.skip
        else read? indent n { f with blanks := f.blanks ++ [x] } c.skip
      else if isBreak x then
        let (b, c) := c.readLine
        if f.broken then read? indent n { f with further := f.further ++ b } c
        else read? indent n { f with blanks := [], broken := true, first := b } c
      else some (f, c)

end Folding

/-! ### Plain scalars -/

/-- The characters that end a plain scalar inside flow collections. -/
def isFlowIndicator (c : Char) : Bool :=
  c = ',' || c = '[' || c = ']' || c = '\x7b' || c = '\x7d'

/-- The next character ends a plain scalar. -/
def Cursor.endsPlain (c : Cursor) (flow : Bool) : Bool :=
  (c.sees ':' && c.spaceAt 1) || (flow && c.seesAny isFlowIndicator)

/-- A colon stands before a flow indicator or a question mark, which nothing explains. -/
def Cursor.strayColon (c : Cursor) (flow : Bool) : Bool :=
  flow && c.sees ':' && (c.peekAt 1).any fun x => isFlowIndicator x || x = '?'

/-- The characters of a plain scalar up to white space or its end; `read` is reversed. -/
def Cursor.plainRun? (flow : Bool) : Nat → List Char → Cursor → Option (List Char × Cursor)
  | 0, _, _ => none
  | n + 1, read, c =>
    if c.atSpace then some (read, c)
    else if c.strayColon flow then none
    else if c.endsPlain flow then some (read, c)
    else match c.peek with
      | none => some (read, c)
      | some x => plainRun? flow n (x :: read) c.skip

/-- The runs of a plain scalar after the text `read`, which is reversed; a later line must be
indented to `indent` unless the scalar stands inside flow collections. -/
def Cursor.plainFrom? (flow : Bool) (indent : Int) :
    Nat → List Char → Folding → Cursor → Option (List Char × Bool × Cursor)
  | 0, _, _, _ => none
  | n + 1, read, f, c =>
    if c.atDocumentMarker || c.sees '#' then some (read, f.broken, c)
    else do
      let (run, c') ← c.plainRun? flow (n + 1) []
      let (read, f) := if run.isEmpty then (read, f) else (run ++ f.text.reverse ++ read, .none)
      if c'.atSpace && !c'.atEnd then
        let (f, c') ← f.read? (some indent) (n + 1) c'
        if !flow && c'.column < indent then return (read, f.broken, c')
        plainFrom? flow indent n read f c'
      else return (read, f.broken, c')

/-- The plain scalar that begins here, whether a line ended after it, and the place after it. -/
def Cursor.plain? (c : Cursor) (flow : Bool) (indent : Int) :
    Option (List Char × Bool × Cursor) := do
  let (read, broken, c) ← c.plainFrom? flow indent (c.rest.length + 2) [] .none
  return (read.reverse, broken, c)

/-! ### Quoted scalars -/

/-- The number of hexadecimal digits after an escape letter. -/
def escapeLength? (c : Char) : Option Nat :=
  if c = 'x' then some 2 else if c = 'u' then some 4 else if c = 'U' then some 8 else none

/-- The character of an escape letter. -/
def escaped? (c : Char) : Option Char :=
  match c with
  | '0' => some '\x00'
  | 'a' => some '\x07'
  | 'b' => some '\x08'
  | 't' | '\t' => some '\t'
  | 'n' => some '\n'
  | 'v' => some '\x0b'
  | 'f' => some '\x0c'
  | 'r' => some '\r'
  | 'e' => some '\x1b'
  | ' ' => some ' '
  | '"' => some '"'
  | '/' => some '/'
  | '\\' => some '\\'
  | 'N' => some '\u0085'
  | '_' => some '\u00A0'
  | 'L' => some '\u2028'
  | 'P' => some '\u2029'
  | _ => none

/-- The value of hexadecimal digits. -/
def hexNumber? (ds : List Char) : Option Nat :=
  ds.foldlM (fun n d => (Bytes.hexValue? d).map (n * 16 + ·)) 0

/-- The character of a number; surrogates are none. -/
def charOf? (n : Nat) : Option Char := if n.isValidChar then some (Char.ofNat n) else none

/-- The escape after a backslash, and the place after it. -/
def Cursor.escape? (c : Cursor) : Option (Char × Cursor) := do
  let x ← c.peek
  match escapeLength? x with
  | some n =>
    let ds := c.skip.rest.take n
    if ds.length = n then return (← charOf? (← hexNumber? ds), c.skipN (n + 1)) else none
  | none => return (← escaped? x, c.skip)

/-- The characters of a quoted scalar up to white space or its quote; the second part says that
an escaped line break ended them. -/
def Cursor.quotedRun? (quote : Char) :
    Nat → List Char → Cursor → Option (List Char × Bool × Cursor)
  | 0, _, _ => none
  | n + 1, read, c =>
    if c.atSpace then some (read, false, c)
    else match c.peek with
      | none => some (read, false, c)
      | some x =>
        if quote = '\'' && x = '\'' && c.peekAt 1 = some '\'' then
          quotedRun? quote n ('\'' :: read) (c.skipN 2)
        else if x = quote then some (read, false, c)
        else if quote = '"' && x = '\\' then
          if (c.peekAt 1).any isBreak then some (read, true, c.skip.skipLine)
          else do
            let (y, c) ← c.skip.escape?
            quotedRun? quote n (y :: read) c
        else quotedRun? quote n (x :: read) c.skip

/-- The rest of a quoted scalar after the text `read`, which is reversed. -/
def Cursor.quotedFrom? (quote : Char) : Nat → List Char → Cursor → Option (List Char × Cursor)
  | 0, _, _ => none
  | n + 1, read, c =>
    if c.atDocumentMarker || c.atEnd then none
    else do
      let (run, broken, c) ← c.quotedRun? quote (n + 1) []
      let read := run ++ read
      if c.sees quote then return (read, c.skip)
      let (f, c) ← Folding.read? none (n + 1) ⟨[], broken, [], []⟩ c
      quotedFrom? quote n (f.text.reverse ++ read) c

/-- The quoted scalar that begins here, and the place after it. -/
def Cursor.quoted? (c : Cursor) (quote : Char) : Option (List Char × Cursor) := do
  let (read, c) ← c.skip.quotedFrom? quote (c.rest.length + 2) []
  return (read.reverse, c)

/-! ### Block scalars -/

/-- Which breaks at the end of a block belong to it. -/
inductive Chomping
  | strip
  | clip
  | keep
  deriving DecidableEq

/-- The chomping indicator here, if there is one. -/
def Cursor.chomping (c : Cursor) : Option Chomping × Cursor :=
  if c.sees '+' then (some .keep, c.skip)
  else if c.sees '-' then (some .strip, c.skip)
  else (none, c)

/-- The indentation indicator here, if there is one; zero is refused. -/
def Cursor.indentation? (c : Cursor) : Option (Option Nat × Cursor) :=
  match c.peek with
  | some d =>
    if d.isDigit then
      if d = '0' then none else some (some (d.toNat - '0'.toNat), c.skip)
    else some (none, c)
  | none => some (none, c)

/-- The indicators of a block scalar in either order. -/
def Cursor.blockHeader? (c : Cursor) : Option (Chomping × Option Nat × Cursor) := do
  let (chomp, c) := c.chomping
  let (indent, c) ← c.indentation?
  match chomp with
  | some chomp => return (chomp, indent, c)
  | none =>
    if indent.isNone then return (.clip, indent, c)
    let (chomp, c) := c.chomping
    return (chomp.getD .clip, indent, c)

/-- Skips the indentation of a block and its empty lines; `indent` is zero while unknown. The
breaks, the greatest column and the place after them. -/
def Cursor.blockBreaks? (indent : Nat) :
    Nat → List Char → Nat → Cursor → Option (List Char × Nat × Cursor)
  | 0, _, _, _ => none
  | n + 1, breaks, widest, c =>
    let inside (c : Cursor) : Bool := indent = 0 || c.column < indent
    if inside c && c.sees ' ' then blockBreaks? indent n breaks widest c.skip
    else
      let widest := max widest c.column
      if inside c && c.sees '\t' then none
      else if c.seesAny isBreak then
        let (b, c) := c.readLine
        blockBreaks? indent n (breaks ++ b) widest c
      else some (breaks, widest, c)

/-- The lines of a block. `first` is the break before the line, `further` the empty lines before
it, and `blank` says that the line before began with a blank; `read` is reversed. -/
def Cursor.blockLines? (folded : Bool) (indent : Nat) :
    Nat → List Char → List Char → List Char → Bool → Cursor →
      Option (List Char × List Char × List Char × Cursor)
  | 0, _, _, _, _, _ => none
  | n + 1, read, first, further, blank, c =>
    if c.column = indent && !c.atEnd then do
      let startsBlank := c.seesAny isBlank
      let joint :=
        if folded && first.head? = some '\n' && !blank && !startsBlank then
          if further.isEmpty then [' '] else []
        else first
      let (line, c) := c.takeWhile fun x => !isBreak x
      let read := line.reverse ++ further.reverse ++ joint.reverse ++ read
      let (first, c) := c.readLine
      let (further, _, c) ← c.blockBreaks? indent (n + 1) [] 0
      blockLines? folded indent n read first further startsBlank c
    else some (read, first, further, c)

/-- The block scalar that begins here inside a block indented to `parent`, and the place after
it. -/
def Cursor.block? (c : Cursor) (folded : Bool) (parent : Int) : Option (List Char × Cursor) := do
  let steps := c.rest.length + 2
  let (chomp, indent, c) ← c.skip.blockHeader?
  let c := c.skipBlanks.skipComment
  if !c.atLineEnd then none
  let c := c.skipLine
  let known : Nat := match indent with
    | some n => if 0 ≤ parent then parent.toNat + n else n
    | none => 0
  let (further, widest, c) ← c.blockBreaks? known steps [] 0
  let indent := if known = 0 then max widest (max (parent + 1).toNat 1) else known
  let (read, first, further, c) ← c.blockLines? folded indent steps [] [] further false
  let ending := match chomp with
    | .strip => []
    | .clip => first
    | .keep => first ++ further
  return (read.reverse ++ ending, c)

end ContentIndex.Yaml
