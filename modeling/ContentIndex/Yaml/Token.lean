import ContentIndex.Yaml.Scalar

/-!
# YAML tokens

The scanner turns a text into tokens. Indentation becomes block starts and block ends. A node may
turn out to be the key of a mapping only when the colon after it is read; the key token, and the
start of the mapping, are then put before the node.

## Main definitions

* `Yaml.Token`: the tokens
* `Yaml.Scanner`: the state of scanning
* `Yaml.Token.scan?`: the tokens of a text
-/

namespace ContentIndex.Yaml

/-- How a scalar is written, as far as its meaning depends on it: plain, as a literal block, or
otherwise. -/
inductive ScalarStyle
  | plain
  | literal
  | other
  deriving DecidableEq

/-- A piece of a YAML text. -/
inductive Token
  | version (major minor : Nat)
  | tagHandle (handle : List Char) (expansion : Bytes)
  | documentStart
  | documentEnd
  | blockSequence
  | blockMapping
  | blockEnd
  | flowSequence
  | flowSequenceEnd
  | flowMapping
  | flowMappingEnd
  | blockEntry
  | flowEntry
  | key
  | value
  | alias (name : List Char)
  | anchor (name : List Char)
  | tag (handle : List Char) (suffix : Bytes)
  | scalar (style : ScalarStyle) (text : List Char)
  deriving DecidableEq

/-- A node that may turn out to be a key: the number of tokens before it and its place. -/
structure KeyCandidate where
  /-- Nothing but a key can stand here. -/
  required : Bool
  /-- The number of tokens before the node. -/
  position : Nat
  /-- The number of bytes before the node. -/
  index : Nat
  /-- The line of the node. -/
  line : Nat
  /-- The column of the node. -/
  column : Nat

/-- The state of scanning. -/
structure Scanner where
  /-- The place in the text. -/
  cursor : Cursor
  /-- The tokens so far. -/
  tokens : Array Token
  /-- The column of the open block, `-1` outside all blocks. -/
  indent : Int
  /-- The columns of the blocks around it, the innermost first. -/
  indents : List Int
  /-- A key may stand here. -/
  keyAllowed : Bool
  /-- The candidate of the open block or flow collection. -/
  candidate : Option KeyCandidate
  /-- The candidates around the open flow collections; one for each of them. -/
  outer : List (Option KeyCandidate)

namespace Scanner

/-- The start of a text. -/
def start (cs : List Char) : Scanner := ⟨Cursor.start cs, #[], -1, [], true, none, []⟩

/-- The scanner stands inside a flow collection. -/
def inFlow (s : Scanner) : Bool := !s.outer.isEmpty

/-- Adds a token. -/
def push (s : Scanner) (t : Token) : Scanner := { s with tokens := s.tokens.push t }

/-- Adds a token after `n` characters of indicators. -/
def pushSkipping (s : Scanner) (n : Nat) (t : Token) : Scanner :=
  { s with tokens := s.tokens.push t, cursor := s.cursor.skipN n }

/-- Opens a block at a column right of the open one; its token goes before the others from
`position` on. -/
def openBlock (s : Scanner) (column position : Nat) (t : Token) : Scanner :=
  if !s.inFlow && s.indent < column then
    { s with
      indents := s.indent :: s.indents
      indent := column
      tokens := s.tokens.insertIdx! position t }
  else s

/-- Closes the blocks right of a column. -/
def closeBlocks (s : Scanner) (column : Int) : Scanner :=
  if s.inFlow then s
  else
    let closed := (s.indent :: s.indents).takeWhile (column < ·)
    let left := (s.indent :: s.indents).dropWhile (column < ·)
    { s with
      tokens := closed.foldl (fun ts _ => ts.push .blockEnd) s.tokens
      indent := left.headD (-1)
      indents := left.tail }

/-- Forgets the candidate; a required one is refused. -/
def dropCandidate? (s : Scanner) : Option Scanner :=
  if s.candidate.any (·.required) then none else some { s with candidate := none }

/-- Takes the node that begins here as the candidate, if a key may stand here. -/
def saveCandidate? (s : Scanner) : Option Scanner :=
  if s.keyAllowed then do
    let s ← s.dropCandidate?
    return { s with candidate := some {
      required := !s.inFlow && s.indent = s.cursor.column
      position := s.tokens.size
      index := s.cursor.index
      line := s.cursor.line
      column := s.cursor.column } }
  else some s

/-- Forgets candidates on earlier lines or more than 1024 bytes back; a required one is
refused. -/
def dropStale? (s : Scanner) (k : Option KeyCandidate) : Option (Option KeyCandidate) :=
  match k with
  | none => some none
  | some k =>
    if k.line < s.cursor.line || k.index + 1024 < s.cursor.index then
      if k.required then none else some none
    else some (some k)

/-- Forgets all stale candidates. -/
def dropAllStale? (s : Scanner) : Option Scanner := do
  let candidate ← s.dropStale? s.candidate
  let outer ← s.outer.mapM s.dropStale?
  return { s with candidate, outer }

/-- Moves past white space and comments. A byte order mark at the start of a line is passed over.
Tabs are white space where no block can begin; a line break in a block lets a key follow. -/
def toToken : Nat → Scanner → Scanner
  | 0, s => s
  | n + 1, s =>
    let c := if s.cursor.column = 0 && s.cursor.sees '\uFEFF' then s.cursor.skip else s.cursor
    let tabs := s.inFlow || !s.keyAllowed
    let c := (c.skipWhile fun x => x = ' ' || (tabs && x = '\t')).skipComment
    if c.seesAny isBreak then
      toToken n { s with cursor := c.skipLine, keyAllowed := s.keyAllowed || !s.inFlow }
    else { s with cursor := c }

/-! ### Tags, anchors and directives -/

/-- The characters of tags; inside angle brackets, commas and square brackets too. -/
def isTagChar (verbatim : Bool) (c : Char) : Bool :=
  isWord c || ";/?:@&=+$.%!~*'()".toList.contains c || (verbatim && ",[]".toList.contains c)

/-- The bytes written by percent escapes at the start of the text, at most `n` of them. -/
def percentBytes? : Nat → List Char → Option Bytes
  | n + 1, '%' :: a :: b :: r => do
    return UInt8.ofNat ((← Bytes.hexValue? a) * 16 + (← Bytes.hexValue? b))
      :: (← percentBytes? n r)
  | 0, _ => some []
  | _ + 1, _ => none

/-- The number of bytes in the UTF-8 sequence with the given first byte. -/
def sequenceLength? (b : UInt8) : Option Nat :=
  if b < 0x80 then some 1
  else if 0xC0 ≤ b && b < 0xE0 then some 2
  else if 0xE0 ≤ b && b < 0xF0 then some 3
  else if 0xF0 ≤ b && b < 0xF8 then some 4
  else none

/-- The bytes of the characters of a tag, which are ASCII, with the percent escapes replaced. The
escapes must come in groups of the length that the first byte of each announces. -/
def unescapeTag? : Nat → List Char → Option Bytes
  | 0, _ => some []
  | _ + 1, [] => some []
  | n + 1, '%' :: r => do
    let lead ← (← percentBytes? 1 ('%' :: r)).head?
    let k ← sequenceLength? lead
    let group ← percentBytes? k ('%' :: r)
    if !group.tail.all Bytes.isContinuation then none
    return group ++ (← unescapeTag? n (('%' :: r).drop (3 * k)))
  | n + 1, c :: r => do return UInt8.ofNat c.toNat :: (← unescapeTag? n r)

/-- The bytes of the tag characters here and the place after them. -/
def tagText? (verbatim : Bool) (c : Cursor) : Option (Bytes × Cursor) := do
  let (cs, c) := c.takeWhile (isTagChar verbatim)
  return (← unescapeTag? (cs.length + 1) cs, c)

/-- The part of a tag that counts: a zero byte ends it. -/
def tagPart (b : Bytes) : Bytes := b.takeWhile (· ≠ 0)

/-- The handle of a tag: an exclamation mark, or a word between two of them. -/
def tagHandle (c : Cursor) : List Char × Cursor :=
  let (word, c) := c.skip.takeWhile isWord
  if c.sees '!' then ('!' :: word ++ ['!'], c.skip) else ('!' :: word, c)

/-- The tag that begins here, and the place after it. -/
def tag? (s : Scanner) : Option (Token × Cursor) := do
  let c := s.cursor
  let (token, c) ←
    if c.peekAt 1 = some '<' then do
      let (suffix, c) ← tagText? true (c.skipN 2)
      if suffix.isEmpty || !c.sees '>' then none
      else some (Token.tag [] (tagPart suffix), c.skip)
    else do
      let (handle, c) := tagHandle c
      let (suffix, c) ← tagText? false c
      if 1 < handle.length && handle.getLast? = some '!' then
        if suffix.isEmpty then none else some (Token.tag handle (tagPart suffix), c)
      else
        let suffix := tagPart (Bytes.ofText (String.ofList handle.tail) ++ suffix)
        if suffix.isEmpty then some (Token.tag [] (Bytes.ofText "!"), c)
        else some (Token.tag ['!'] suffix, c)
  if c.atSpace || (s.inFlow && c.sees ',') then return (token, c) else none

/-- The name of an anchor or an alias, and the place after it. -/
def anchorName? (c : Cursor) : Option (List Char × Cursor) :=
  let (name, c) := c.skip.takeWhile isWord
  let ends := c.atSpace || c.seesAny fun x => "?:,]\x7d%@`".toList.contains x
  if name.isEmpty || !ends then none else some (name, c)

/-- A number of at most nine digits, and the place after it. -/
def versionNumber? (c : Cursor) : Option (Nat × Cursor) :=
  let (ds, c) := c.takeWhile Char.isDigit
  if ds.isEmpty || 9 < ds.length then none
  else some (ds.foldl (fun n d => n * 10 + (d.toNat - '0'.toNat)) 0, c)

/-- The directive that begins here, and the place of the next line. -/
def directive? (c : Cursor) : Option (Token × Cursor) := do
  let (name, c) := c.skip.takeWhile isWord
  if !c.atSpace then none
  let c := c.skipBlanks
  let (token, c) : Token × Cursor ←
    if name = "YAML".toList then do
      let (major, c) ← versionNumber? c
      if !c.sees '.' then none
      let (minor, c) ← versionNumber? c.skip
      some (Token.version major minor, c)
    else if name = "TAG".toList then do
      if !c.sees '!' then none
      let (handle, c) := tagHandle c
      if handle ≠ ['!'] && handle.getLast? ≠ some '!' then none
      if !c.seesAny isBlank then none
      let (expansion, c) ← tagText? true c.skipBlanks
      if expansion.isEmpty || !c.atSpace then none
      some (Token.tagHandle handle (tagPart expansion), c)
    else none
  let c := c.skipBlanks.skipComment
  if c.atLineEnd then return (token, c.skipLine) else none

/-! ### One token -/

/-- The end of the text: it closes all blocks. -/
def finish? (s : Scanner) : Option Scanner := (s.closeBlocks (-1)).dropCandidate?

/-- A directive or a document marker: it closes all blocks. -/
def fetchDirective? (s : Scanner) : Option Scanner := do
  let s ← s.finish?
  let (token, cursor) ← directive? s.cursor
  return { s.push token with cursor, keyAllowed := false }

/-- A document marker: it closes all blocks. -/
def fetchMarker? (s : Scanner) (t : Token) : Option Scanner := do
  let s ← s.finish?
  return { s.pushSkipping 3 t with keyAllowed := false }

/-- The start of a flow collection, which may be part of a key. -/
def fetchFlowStart? (s : Scanner) (t : Token) : Option Scanner := do
  let s ← s.saveCandidate?
  return { s.pushSkipping 1 t with
    keyAllowed := true, candidate := none, outer := s.candidate :: s.outer }

/-- The end of a flow collection. -/
def fetchFlowEnd? (s : Scanner) (t : Token) : Option Scanner := do
  let s ← s.dropCandidate?
  let s := s.pushSkipping 1 t
  match s.outer with
  | k :: outer => return { s with keyAllowed := false, candidate := k, outer }
  | [] => return { s with keyAllowed := false }

/-- A comma between flow entries. -/
def fetchFlowEntry? (s : Scanner) : Option Scanner := do
  let s ← s.dropCandidate?
  return { s.pushSkipping 1 .flowEntry with keyAllowed := true }

/-- A block indicator that opens a block here, unless one is open. -/
def fetchBlockIndicator? (s : Scanner) (block t : Token) : Option Scanner := do
  let s ← if s.inFlow then some s
    else if s.keyAllowed then some (s.openBlock s.cursor.column s.tokens.size block)
    else none
  let s ← s.dropCandidate?
  return s.pushSkipping 1 t

/-- A dash before a sequence entry. -/
def fetchBlockEntry? (s : Scanner) : Option Scanner := do
  return { ← s.fetchBlockIndicator? .blockSequence .blockEntry with keyAllowed := true }

/-- A question mark before a key. -/
def fetchKey? (s : Scanner) : Option Scanner := do
  let s ← s.fetchBlockIndicator? .blockMapping .key
  return { s with keyAllowed := !s.inFlow }

/-- A colon before a value; the candidate turns out to be a key. -/
def fetchValue? (s : Scanner) : Option Scanner :=
  match s.candidate with
  | some k =>
    let s := { s with tokens := s.tokens.insertIdx! k.position .key, candidate := none }
    some { (s.openBlock k.column k.position .blockMapping).pushSkipping 1 .value with
      keyAllowed := false }
  | none => do
    let s ← if s.inFlow then some s
      else if s.keyAllowed then some (s.openBlock s.cursor.column s.tokens.size .blockMapping)
      else none
    return { s.pushSkipping 1 .value with keyAllowed := !s.inFlow }

/-- An alias, or an anchor, which may be part of a key. -/
def fetchAnchor? (s : Scanner) (t : List Char → Token) : Option Scanner := do
  let s ← s.saveCandidate?
  let (name, cursor) ← anchorName? s.cursor
  return { s.push (t name) with cursor, keyAllowed := false }

/-- A tag, which may be part of a key. -/
def fetchTag? (s : Scanner) : Option Scanner := do
  let s ← s.saveCandidate?
  let (token, cursor) ← s.tag?
  return { s.push token with cursor, keyAllowed := false }

/-- A block scalar, which is no key. -/
def fetchBlockScalar? (s : Scanner) (folded : Bool) : Option Scanner := do
  let s ← s.dropCandidate?
  let (text, cursor) ← s.cursor.block? folded s.indent
  let style := if folded then .other else .literal
  return { s.push (.scalar style text) with cursor, keyAllowed := true }

/-- A quoted scalar, which may be a key. -/
def fetchQuoted? (s : Scanner) (quote : Char) : Option Scanner := do
  let s ← s.saveCandidate?
  let (text, cursor) ← s.cursor.quoted? quote
  return { s.push (.scalar .other text) with cursor, keyAllowed := false }

/-- A plain scalar, which may be a key; a key may follow it on a later line. -/
def fetchPlain? (s : Scanner) : Option Scanner := do
  let s ← s.saveCandidate?
  let (text, broken, cursor) ← s.cursor.plain? s.inFlow (s.indent + 1)
  return { s.push (.scalar .plain text) with cursor, keyAllowed := broken }

/-- The characters that no plain scalar begins with, but for some before a letter. -/
def isIndicator (c : Char) : Bool := "-?:,[]\x7b\x7d#&*!|>'\"%@`".toList.contains c

/-- A plain scalar can begin here. -/
def startsPlain (s : Scanner) : Bool :=
  let c := s.cursor
  (!c.atSpace && !c.seesAny isIndicator)
    || (c.sees '-' && !(c.peekAt 1).any isBlank)
    || (!s.inFlow && (c.sees '?' || c.sees ':') && !c.spaceAt 1)

/-- The token that begins here. -/
def fetch? (s : Scanner) : Option Scanner :=
  let c := s.cursor
  if c.column = 0 && c.sees '%' then s.fetchDirective?
  else if c.atMarker '-' then s.fetchMarker? .documentStart
  else if c.atMarker '.' then s.fetchMarker? .documentEnd
  else if c.sees '[' then s.fetchFlowStart? .flowSequence
  else if c.sees '\x7b' then s.fetchFlowStart? .flowMapping
  else if c.sees ']' then s.fetchFlowEnd? .flowSequenceEnd
  else if c.sees '\x7d' then s.fetchFlowEnd? .flowMappingEnd
  else if c.sees ',' then s.fetchFlowEntry?
  else if c.sees '-' && c.spaceAt 1 then s.fetchBlockEntry?
  else if c.sees '?' && (s.inFlow || c.spaceAt 1) then s.fetchKey?
  else if c.sees ':' && (s.inFlow || c.spaceAt 1) then s.fetchValue?
  else if c.sees '*' then s.fetchAnchor? .alias
  else if c.sees '&' then s.fetchAnchor? .anchor
  else if c.sees '!' then s.fetchTag?
  else if c.sees '|' && !s.inFlow then s.fetchBlockScalar? false
  else if c.sees '>' && !s.inFlow then s.fetchBlockScalar? true
  else if c.sees '\'' then s.fetchQuoted? '\''
  else if c.sees '"' then s.fetchQuoted? '"'
  else if s.startsPlain then s.fetchPlain?
  else none

/-- All tokens to the end of the text; each takes at least one character. -/
def run? : Nat → Scanner → Option Scanner
  | 0, _ => none
  | n + 1, s => do
    let s := s.toToken (n + 1)
    let s ← s.dropAllStale?
    let s := s.closeBlocks s.cursor.column
    if s.cursor.atEnd then s.finish? else run? n (← s.fetch?)

end Scanner

/-- The tokens of a text. -/
def Token.scan? (cs : List Char) : Option (List Token) :=
  if cs.all isAllowed then
    (Scanner.run? (cs.length + 1) (Scanner.start cs)).map (·.tokens.toList)
  else none

end ContentIndex.Yaml
