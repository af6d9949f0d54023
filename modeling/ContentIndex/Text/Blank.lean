/-!
# Blanks

White space in the sense of the character property, not only of ASCII.

## Main definitions

* `Text.isBlank`: the white space characters
* `Text.trimStart`, `Text.trimEnd`, `Text.trim`: a text without blanks at its ends
-/

namespace ContentIndex.Text

/-- A white space character. -/
def isBlank (c : Char) : Bool :=
  ('\t' ≤ c && c ≤ '\r') || c = ' ' || c = '\u0085' || c = '\u00A0' || c = '\u1680'
    || ('\u2000' ≤ c && c ≤ '\u200A') || c = '\u2028' || c = '\u2029' || c = '\u202F'
    || c = '\u205F' || c = '\u3000'

/-- The text from its first character that is no blank. -/
def trimStart (cs : List Char) : List Char := cs.dropWhile isBlank

/-- The text up to its last character that is no blank. -/
def trimEnd (cs : List Char) : List Char := (cs.reverse.dropWhile isBlank).reverse

/-- The text without blanks at either end. -/
def trim (cs : List Char) : List Char := trimEnd (trimStart cs)

end ContentIndex.Text
