import ContentIndex.Bytes
import ContentIndex.Json.Basic
import ContentIndex.Number.Decimal

/-!
# JSON tokens

The lexer is a machine that takes one character at a time, so it is a fold over the text. A text
may have ill-formed parts, but only inside strings. A number that is too great and a string that is
no text are tokens all the same.

## Main definitions

* `Json.Token`: punctuation and scalars
* `Json.Number.ofLiteral?`: the number of a literal
* `Json.StringPart`, `Json.StringPart.join?`: what strings are written with, and their text
* `Json.Lexer.step`, `Json.Token.scan?`: the machine and its run over a text
-/

namespace ContentIndex.Json

/-- A piece of JSON text. -/
inductive Token
  | openArray
  | closeArray
  | openObject
  | closeObject
  | comma
  | colon
  | null
  | bool (b : Bool)
  /-- A number, unless it is too great for any. -/
  | number (n : Option Number)
  /-- A string, unless it is no text. -/
  | string (s : Option String)

/-! ### Numbers -/

/-- The parts of a number as it may be written: no plus sign, no leading zeros, and digits on both
sides of a point. -/
def Number.literal? (cs : List Char) : Option DecimalLiteral := do
  let l ← DecimalLiteral.split? cs
  guard (l.sign ≠ some '+' ∧ l.whole ≠ [] ∧ l.fraction ≠ some [])
  guard (l.whole = ['0'] ∨ l.whole.head? ≠ some '0')
  return l

/-- The number of a literal: an integer if it has neither point nor exponent and fits 64 bits,
and a double otherwise; `-0` is the negative zero. -/
def Number.ofLiteral? (l : DecimalLiteral) : Option Number := do
  let n : Int := digitsValue l.whole
  let i := if l.isNegative then -n else n
  if l.isWhole ∧ ¬(l.isNegative ∧ n = 0) then
    if let some m := Number.ofInt? i then return m
  Number.ofFloat? (← l.scaled?)

/-! ### Strings -/

/-- A part of a written string. -/
inductive StringPart
  | char (c : Char)
  /-- A UTF-16 unit, written as an escape. -/
  | unit (u : Nat)
  | illFormed

namespace StringPart

/-- The unit is the first half of a character. -/
def isHigh (u : Nat) : Bool := 0xD800 ≤ u && u < 0xDC00

/-- The unit is the second half of a character. -/
def isLow (u : Nat) : Bool := 0xDC00 ≤ u && u < 0xE000

/-- The character of two halves. -/
def pair (high low : Nat) : Char := Char.ofNat (0x10000 + (high - 0xD800) * 0x400 + (low - 0xDC00))

/-- Puts a part before a text that may begin with the second half of a character. -/
def prepend? (part : StringPart) : List Char × Option Nat → Option (List Char × Option Nat)
  | (cs, none) => match part with
    | .char c => some (c :: cs, none)
    | .unit u =>
      if isLow u then some (cs, some u)
      else if isHigh u then none
      else some (Char.ofNat u :: cs, none)
    | .illFormed => none
  | (cs, some low) => match part with
    | .unit u => if isHigh u then some (pair u low :: cs, none) else none
    | _ => none

/-- The text of reversed parts; halves of characters must come in pairs. -/
def join? (reversed : List StringPart) : Option String :=
  match reversed.foldlM (fun state part => part.prepend? state) ([], none) with
  | some (cs, none) => some (String.ofList cs)
  | _ => none

end StringPart

/-! ### The machine -/

namespace Lexer

/-- What the machine is in the middle of; what it has read so far is reversed. -/
inductive Mode
  | blank
  | word (read : List Char)
  | number (read : List Char)
  | string (read : List StringPart)
  | escape (read : List StringPart)
  | unicode (read : List StringPart) (digits : Nat) (value : Nat)

/-- A mode and the tokens read so far, reversed. -/
structure State where
  /-- The mode. -/
  mode : Mode
  /-- The finished tokens, the last one first. -/
  tokens : List Token

/-- The characters a number literal is made of. -/
def isNumberChar (c : Char) : Bool :=
  c.isDigit || c = '-' || c = '+' || c = '.' || c = 'e' || c = 'E'

/-- The token of a bare word. -/
def word? (read : List Char) : Option Token :=
  if read = ['l', 'l', 'u', 'n'] then some .null
  else if read = ['e', 'u', 'r', 't'] then some (.bool true)
  else if read = ['e', 's', 'l', 'a', 'f'] then some (.bool false)
  else none

/-- The token of a number. -/
def number? (read : List Char) : Option Token :=
  (Number.literal? read.reverse).map fun l => .number (Number.ofLiteral? l)

/-- One character between tokens. -/
def start (tokens : List Token) (c : Char) : Option State :=
  if c = ' ' || c = '\n' || c = '\t' || c = '\r' then some ⟨.blank, tokens⟩
  else if c = '[' then some ⟨.blank, .openArray :: tokens⟩
  else if c = ']' then some ⟨.blank, .closeArray :: tokens⟩
  else if c = '\x7b' then some ⟨.blank, .openObject :: tokens⟩
  else if c = '\x7d' then some ⟨.blank, .closeObject :: tokens⟩
  else if c = ',' then some ⟨.blank, .comma :: tokens⟩
  else if c = ':' then some ⟨.blank, .colon :: tokens⟩
  else if c = '"' then some ⟨.string [], tokens⟩
  else if c = '-' || c.isDigit then some ⟨.number [c], tokens⟩
  else if c.isLower then some ⟨.word [c], tokens⟩
  else none

/-- The character of a simple escape. -/
def unescape? (c : Char) : Option Char :=
  if c = '"' || c = '\\' || c = '/' then some c
  else if c = 'n' then some '\n'
  else if c = 't' then some '\t'
  else if c = 'r' then some '\r'
  else if c = 'b' then some '\x08'
  else if c = 'f' then some '\x0c'
  else none

/-- One character of the text. -/
def stepChar (s : State) (c : Char) : Option State :=
  match s.mode with
  | .blank => start s.tokens c
  | .word read =>
    if c.isLower then some ⟨.word (c :: read), s.tokens⟩
    else do start ((← word? read) :: s.tokens) c
  | .number read =>
    if isNumberChar c then some ⟨.number (c :: read), s.tokens⟩
    else do start ((← number? read) :: s.tokens) c
  | .string read =>
    if c = '"' then some ⟨.blank, .string (StringPart.join? read) :: s.tokens⟩
    else if c = '\\' then some ⟨.escape read, s.tokens⟩
    else if c < ' ' then none
    else some ⟨.string (.char c :: read), s.tokens⟩
  | .escape read =>
    if c = 'u' then some ⟨.unicode read 0 0, s.tokens⟩
    else (unescape? c).map fun d => ⟨.string (.char d :: read), s.tokens⟩
  | .unicode read digits value => do
    let v := value * 16 + (← Bytes.hexValue? c)
    if digits < 3 then return ⟨.unicode read (digits + 1) v, s.tokens⟩
    return ⟨.string (.unit v :: read), s.tokens⟩

/-- One character of the text, or an ill-formed part of it. -/
def step (s : State) : Option Char → Option State
  | some c => stepChar s c
  | none => match s.mode with
    | .string read => some ⟨.string (.illFormed :: read), s.tokens⟩
    | _ => none

/-- The tokens at the end of the text; nothing may be left open. -/
def State.finish? (s : State) : Option (List Token) :=
  match s.mode with
  | .blank => some s.tokens.reverse
  | .word read => do return ((← word? read) :: s.tokens).reverse
  | .number read => do return ((← number? read) :: s.tokens).reverse
  | _ => none

end Lexer

/-- The tokens of a text that may have ill-formed parts. -/
def Token.scan? (cs : List (Option Char)) : Option (List Token) := do
  (← cs.foldlM Lexer.step ⟨.blank, []⟩).finish?

end ContentIndex.Json
