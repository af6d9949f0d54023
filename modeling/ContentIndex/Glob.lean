/-!
# Path patterns

`?` matches one character of a path component, `*` any number of them, `**` as a whole component
any number of components, and `[…]` or `[!…]` one character of a set or outside it. No wildcard
but `**` matches the separator.

## Main definitions

* `Glob`, `Glob.parse?`: patterns and their reading
* `Glob.matchFrom`, `Glob.accepts`: matching
-/

namespace ContentIndex

namespace Glob

/-- A member of a character set: a single character is a range of one. -/
structure CharRange where
  /-- The least character. -/
  lo : Char
  /-- The greatest character. -/
  hi : Char
  deriving DecidableEq

/-- A piece of a pattern. -/
inductive Token
  | literal (c : Char)
  | anyChar
  | within (set : List CharRange)
  | except (set : List CharRange)
  | star
  | components
  deriving DecidableEq

/-- The ranges and single characters between the brackets of a set. -/
def charSet : List Char → List CharRange
  | a :: '-' :: b :: r => ⟨a, b⟩ :: charSet r
  | a :: r => ⟨a, a⟩ :: charSet r
  | [] => []

/-- The text between the brackets and the text after them; the first character of the set may
be the closing bracket itself. -/
def splitSet? (a : Char) (r : List Char) : Option (List Char × List Char) :=
  match r.dropWhile (· ≠ ']') with
  | _ :: rest => some (a :: r.takeWhile (· ≠ ']'), rest)
  | [] => none

theorem length_splitSet? {a : Char} {r set rest : List Char}
    (h : splitSet? a r = some (set, rest)) : rest.length < r.length := by
  unfold splitSet? at h
  split at h
  · rename_i c rest' heq
    have := (List.dropWhile_suffix (l := r) (· ≠ ']')).length_le
    rw [heq, List.length_cons] at this
    simp only [Option.some.injEq, Prod.mk.injEq] at h
    rw [← h.2]
    omega
  · simp at h

/-- Reads the rest of a pattern after `prev`; `read` holds the tokens before it, reversed. Three
stars in a row, `**` beside other characters and an unclosed set are refused. -/
def parseFrom (prev : Option Char) (read : List Token) (cs : List Char) : Option (List Token) :=
  match cs with
  | [] => some read.reverse
  | '?' :: r => parseFrom (some '?') (.anyChar :: read) r
  | '*' :: '*' :: '*' :: _ => none
  | '*' :: '*' :: r =>
    if prev.any (· ≠ '/') then none
    else
      let read' := match read with
        | .components :: _ :: _ => read
        | _ => .components :: read
      match r with
      | [] => parseFrom (some '*') read' []
      | '/' :: r => parseFrom (some '/') read' r
      | _ => none
  | '*' :: r => parseFrom (some '*') (.star :: read) r
  | '[' :: '!' :: a :: r =>
    match h : splitSet? a r with
    | some (set, rest) =>
      have := length_splitSet? h
      parseFrom (some ']') (.except (charSet set) :: read) rest
    | none => none
  | '[' :: a :: r =>
    if a = '!' then none
    else match h : splitSet? a r with
      | some (set, rest) =>
        have := length_splitSet? h
        parseFrom (some ']') (.within (charSet set) :: read) rest
      | none => none
  | ['['] => none
  | c :: r => parseFrom (some c) (.literal c :: read) r
termination_by cs.length
decreasing_by all_goals (simp only [List.length_cons, List.length_nil]; omega)

/-- What an attempt to match found; `exhausted` says that the path ended before the pattern, so
that skipping more of the path cannot help. -/
inductive Outcome
  | matched
  | refused
  | exhausted
  deriving DecidableEq

/-- The set holds the character. -/
def inSet (set : List CharRange) (c : Char) : Bool := set.any fun s => s.lo ≤ c && c ≤ s.hi

/-- One character against a token for single characters. -/
def Token.takes (t : Token) (c : Char) : Bool :=
  match t with
  | .literal d => c = d
  | .anyChar => c ≠ '/'
  | .within set => c ≠ '/' && inSet set c
  | .except set => c ≠ '/' && !inSet set c
  | .star | .components => false

/-- Tries `next` here and after every character that `*` may skip. -/
def skipChars (next : List Char → Outcome) : List Char → Outcome
  | [] => next []
  | c :: r => match next (c :: r) with
    | .refused => if c = '/' then .refused else skipChars next r
    | o => o

/-- Tries `next` at the start of every later component, and at the end of the path. -/
def skipComponents (next : List Char → Outcome) : List Char → Outcome
  | [] => next []
  | c :: r =>
    if c = '/' then
      match next r with
      | .refused => skipComponents next r
      | o => o
    else skipComponents next r

/-- Matches the tokens against all of the path. -/
def matchFrom : List Token → List Char → Outcome
  | [], [] => .matched
  | [], _ :: _ => .refused
  | .star :: ts, cs => skipChars (matchFrom ts) cs
  | .components :: ts, cs =>
    match matchFrom ts cs with
    | .refused => skipComponents (matchFrom ts) cs
    | o => o
  | _ :: _, [] => .exhausted
  | t :: ts, c :: cs => if t.takes c then matchFrom ts cs else .refused

end Glob

/-- A path pattern. -/
structure Glob where
  /-- The pieces of the pattern. -/
  tokens : List Glob.Token
  deriving DecidableEq

namespace Glob

/-- Reads a pattern. -/
def parse? (text : String) : Option Glob := (parseFrom none [] text.toList).map (⟨·⟩)

/-- The pattern matches all of the path. -/
def accepts (g : Glob) (path : List Char) : Bool := matchFrom g.tokens path = .matched

end Glob

end ContentIndex
