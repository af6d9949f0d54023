import ContentIndex.Text.CaseMap

/-!
# Words of a name

A name is cut into words at every character that is neither letter nor number, between a
lowercase and an uppercase letter, and before the last of several uppercase letters when a
lowercase letter follows it.

## Main definitions

* `Text.words`: the words of a name
* `Text.pascalCase`, `Text.camelCase`: the words joined, each with a capital, or each but the
  first
-/

namespace ContentIndex.Text

/-- The case of the letters read last. -/
inductive LetterCase
  | none
  | lower
  | upper
  deriving DecidableEq

/-- The case after one more character; characters without case change nothing. -/
def LetterCase.next (m : LetterCase) (c : Char) : LetterCase :=
  if isLowercase c then .lower else if isUppercase c then .upper else m

/-- The words of a run of letters and numbers; `word` is the open word, reversed. -/
def cutWords (m : LetterCase) (word : List Char) : List Char → List (List Char)
  | [] => []
  | [c] => [(c :: word).reverse]
  | c :: d :: r =>
    if m.next c = .lower && isUppercase d then
      (c :: word).reverse :: cutWords .none [] (d :: r)
    else if m = .upper && isUppercase c && isLowercase d then
      word.reverse :: cutWords .none [c] (d :: r)
    else cutWords (m.next c) (c :: word) (d :: r)

/-- The words of a name. -/
def words (name : String) : List (List Char) :=
  (name.toList.splitBy (fun a b => isAlphanumeric a == isAlphanumeric b)).flatMap fun run =>
    if run.head?.any isAlphanumeric then cutWords .none [] run else []

/-- A word in lowercase; a final sigma at its end takes its final form. -/
def lowerWord : List Char → List Char
  | [] => []
  | [c] => if c = 'Σ' then ['ς'] else lowercase c
  | c :: r => lowercase c ++ lowerWord r

/-- A word with a capital and the rest in lowercase. -/
def capitalWord : List Char → List Char
  | [] => []
  | c :: r => uppercase c ++ lowerWord r

/-- All words with a capital, joined. -/
def pascalCase (name : String) : String := String.ofList ((words name).flatMap capitalWord)

/-- The first word in lowercase and the others with a capital, joined. -/
def camelCase (name : String) : String :=
  String.ofList (match words name with
    | [] => []
    | w :: r => lowerWord w ++ r.flatMap capitalWord)

end ContentIndex.Text
