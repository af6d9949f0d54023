import ContentIndex.Json.Reader
import Mathlib.Data.List.Forall2
import Mathlib.Data.List.TakeWhile
import Mathlib.Data.Option.Basic

/-!
# Texts of JSON values

A script is what a JSON text says, with each number as it is written. The grammar tells the texts of a
script: blanks may stand between tokens, and the characters of a string may be escaped. The lexer finds
the tokens of a script in each of its texts, and the parser makes a draft of them. Two things may be
lost on the way: a number may be none that is read, and what is nested too deep is passed over.

## Main definitions

* `Json.Script`: JSON values with written numbers
* `Json.Script.IsText`: the texts of a script
* `Json.Script.tokens`, `Json.Script.echo`: the tokens of a script, and what is made of them

## Main results

* `Json.Lexer.run_written`: the lexer finds the tokens of a script in its texts
* `Json.Parser.run_tokens`: the parser makes the echo of a script of its tokens
* `Json.Script.IsText.document?_eq`: **what is written is read**
-/

namespace ContentIndex

/-! ### Literals -/

namespace DecimalLiteral

open Json.Lexer (isNumberChar)

theorem isNumberChar_of_isDigit {c : Char} (h : c.isDigit) : isNumberChar c := by
  simp [isNumberChar, h]

/-- A sign may come first. -/
theorem exists_of_splitSign {cs r : List Char} {sign : Option Char} (h : splitSign cs = (sign, r)) :
    cs = sign.toList ++ r ∧ ∀ c ∈ sign, c = '+' ∨ c = '-' := by
  cases cs with
  | nil =>
    cases h
    exact ⟨rfl, nofun⟩
  | cons c cs =>
    rw [splitSign] at h
    split at h
    · next hsign =>
      cases h
      refine ⟨rfl, ?_⟩
      rintro _ ⟨⟩
      simpa using hsign
    · cases h
      exact ⟨rfl, nofun⟩

theorem isNumberChar_of_splitSign {cs r : List Char} {sign : Option Char}
    (h : splitSign cs = (sign, r)) (hr : ∀ c ∈ r, isNumberChar c) : ∀ c ∈ cs, isNumberChar c := by
  obtain ⟨rfl, hsign⟩ := exists_of_splitSign h
  intro c hc
  rcases List.mem_append.mp hc with hc | hc
  · rcases hsign c (Option.mem_toList.mp hc) with rfl | rfl
    · rfl
    · rfl
  · exact hr c hc

/-- Digits and what comes after them. -/
theorem isNumberChar_of_dropWhile {cs : List Char}
    (h : ∀ c ∈ cs.dropWhile Char.isDigit, isNumberChar c) : ∀ c ∈ cs, isNumberChar c := by
  intro c hc
  rw [← List.takeWhile_append_dropWhile (p := Char.isDigit) (l := cs), List.mem_append] at hc
  rcases hc with hc | hc
  · exact isNumberChar_of_isDigit (List.mem_takeWhile_imp hc)
  · exact h c hc

theorem isNumberChar_of_exponent? {cs : List Char} {e : Int} (h : exponent? cs = some e) :
    ∀ c ∈ cs, isNumberChar c := by
  unfold exponent? at h
  split at h
  next sign ds hsign =>
    split at h
    · cases h
    · next hdigits =>
      simp only [Bool.or_eq_true, not_or, Bool.not_eq_true', Bool.not_eq_false] at hdigits
      exact isNumberChar_of_splitSign hsign fun c hc =>
        isNumberChar_of_isDigit (List.all_eq_true.mp hdigits.2 c hc)

/-- A point and digits, and what comes after them. -/
theorem isNumberChar_of_fraction {cs rest : List Char}
    (h : (match cs with
      | '.' :: r => (some (r.takeWhile Char.isDigit), r.dropWhile Char.isDigit)
      | r => (none, r)).2 = rest) (hrest : ∀ c ∈ rest, isNumberChar c) :
    ∀ c ∈ cs, isNumberChar c := by
  subst h
  split at hrest
  · exact List.forall_mem_cons.mpr ⟨rfl, isNumberChar_of_dropWhile hrest⟩
  · exact hrest

/-- A literal begins with its sign and its digits, and consists of the characters of numbers. -/
theorem exists_of_split? {cs : List Char} {l : DecimalLiteral} (h : split? cs = some l) :
    ∃ r, splitSign cs = (l.sign, r) ∧ l.whole = r.takeWhile Char.isDigit ∧
      ∀ c ∈ cs, isNumberChar c := by
  unfold split? at h
  split at h
  next sign r hsign =>
    have hall {rest : List Char}
        (hafter : (match r.dropWhile Char.isDigit with
          | '.' :: r => (some (r.takeWhile Char.isDigit), r.dropWhile Char.isDigit)
          | r => (none, r)).2 = rest) (hrest : ∀ c ∈ rest, isNumberChar c) :
        ∀ c ∈ cs, isNumberChar c :=
      isNumberChar_of_splitSign hsign
        (isNumberChar_of_dropWhile (isNumberChar_of_fraction hafter hrest))
    dsimp only at h
    split at h
    · next hrest =>
      cases h
      exact ⟨r, hsign, rfl, hall hrest nofun⟩
    · next c rest hrest =>
      split at h
      · next hc =>
        obtain ⟨e, he, rfl⟩ := Option.map_eq_some_iff.mp h
        refine ⟨r, hsign, rfl, hall hrest ?_⟩
        refine List.forall_mem_cons.mpr ⟨?_, isNumberChar_of_exponent? he⟩
        rw [Bool.or_eq_true, decide_eq_true_eq, decide_eq_true_eq] at hc
        rcases hc with rfl | rfl
        · rfl
        · rfl
      · cases h

end DecimalLiteral

namespace Json

namespace Number

/-- The number of a numeral, unless it is too great for any. -/
def read? (ds : List Char) : Option Number := (literal? ds).bind ofLiteral?

/-- The parts of a numeral: digits, after a minus sign or nothing. -/
theorem exists_of_literal? {ds : List Char} {l : DecimalLiteral} (h : literal? ds = some l) :
    DecimalLiteral.split? ds = some l ∧ l.sign ≠ some '+' ∧ l.whole ≠ [] ∧
      (l.whole = ['0'] ∨ l.whole.head? ≠ some '0') := by
  unfold literal? at h
  obtain ⟨l', hsplit, h⟩ := Option.bind_eq_some_iff.mp h
  obtain ⟨_, hparts, h⟩ := Option.bind_eq_some_iff.mp h
  obtain ⟨_, hlead, h⟩ := Option.bind_eq_some_iff.mp h
  cases h
  obtain ⟨hsign, hwhole, -⟩ := (Option.guard_eq_some' ()).mp hparts
  exact ⟨hsplit, hsign, hwhole, (Option.guard_eq_some' ()).mp hlead⟩

theorem isNumberChar_of_literal? {ds : List Char} (h : (literal? ds).isSome) :
    ∀ c ∈ ds, Lexer.isNumberChar c := by
  obtain ⟨l, hl⟩ := Option.isSome_iff_exists.mp h
  obtain ⟨r, -, -, hall⟩ := DecimalLiteral.exists_of_split? (exists_of_literal? hl).1
  exact hall

/-- A numeral begins with a minus sign or a digit. -/
theorem head_of_literal? {ds : List Char} (h : (literal? ds).isSome) :
    ∃ c cs, ds = c :: cs ∧ (c = '-' ∨ c.isDigit) := by
  obtain ⟨l, hl⟩ := Option.isSome_iff_exists.mp h
  obtain ⟨hsplit, hplus, hne, -⟩ := exists_of_literal? hl
  obtain ⟨r, hr, hwhole, -⟩ := DecimalLiteral.exists_of_split? hsplit
  obtain ⟨rfl, hsign⟩ := DecimalLiteral.exists_of_splitSign hr
  cases hs : l.sign with
  | some c =>
    have hminus : c = '-' := (hsign c hs).resolve_left fun hc => hplus (hc ▸ hs)
    exact ⟨c, r, rfl, Or.inl hminus⟩
  | none =>
    cases r with
    | nil => exact absurd hwhole hne
    | cons c cs =>
      refine ⟨c, cs, rfl, Or.inr ?_⟩
      rw [hwhole, List.takeWhile_cons] at hne
      by_contra hdigit
      exact hne (if_neg hdigit)

end Number

/-! ### Scripts -/

/-- What a JSON text says, its numbers as they are written. -/
inductive Script
  | null
  | bool (b : Bool)
  | number (ds : List Char)
  | string (s : String)
  | array (items : List Script)
  | object (members : List (String × Script))

instance : Inhabited Script := ⟨.null⟩

/-- The characters may stand between tokens. -/
def Blanks (cs : List Char) : Prop := ∀ c ∈ cs, c = ' ' ∨ c = '\n' ∨ c = '\t' ∨ c = '\r'

theorem blanks_nil : Blanks [] := nofun

/-- The texts of a part of a string. -/
inductive StringPart.Written : StringPart → List Char → Prop
  | char {c : Char} (quote : c ≠ '"') (mark : c ≠ '\\') (printed : ¬ c < ' ') :
      Written (.char c) [c]
  | escape {c d : Char} (h : Lexer.unescape? c = some d) : Written (.char d) ['\\', c]
  | unit {c₁ c₂ c₃ c₄ : Char} {a b c d : Nat} (h₁ : Bytes.hexValue? c₁ = some a)
      (h₂ : Bytes.hexValue? c₂ = some b) (h₃ : Bytes.hexValue? c₃ = some c)
      (h₄ : Bytes.hexValue? c₄ = some d) :
      Written (.unit (((a * 16 + b) * 16 + c) * 16 + d)) ['\\', 'u', c₁, c₂, c₃, c₄]

/-- The text is that of the string in quotes. -/
def IsQuoted (s : String) (cs : List Char) : Prop :=
  ∃ parts pieces, List.Forall₂ StringPart.Written parts pieces ∧
    StringPart.join? parts.reverse = some s ∧ cs = '"' :: pieces.flatten ++ ['"']

mutual

/-- The text is that of the script, without blanks around it. -/
inductive Script.Written : Script → List Char → Prop
  | null : Written .null ['n', 'u', 'l', 'l']
  | true : Written (.bool true) ['t', 'r', 'u', 'e']
  | false : Written (.bool false) ['f', 'a', 'l', 's', 'e']
  | number {ds : List Char} (h : (Number.literal? ds).isSome) : Written (.number ds) ds
  | string {s : String} {cs : List Char} (h : IsQuoted s cs) : Written (.string s) cs
  | array {items : List Script} {cs : List Char} (h : ItemsWritten items cs) :
      Written (.array items) ('[' :: cs ++ [']'])
  | object {members : List (String × Script)} {cs : List Char} (h : MembersWritten members cs) :
      Written (.object members) ('\x7b' :: cs ++ ['\x7d'])

/-- The text is that of the items, separated by commas. -/
inductive Script.ItemsWritten : List Script → List Char → Prop
  | none {b : List Char} (hb : Blanks b) : ItemsWritten [] b
  | last {b b' cs : List Char} {s : Script} (hb : Blanks b) (h : Script.Written s cs)
      (hb' : Blanks b') : ItemsWritten [s] (b ++ cs ++ b')
  | more {b b' cs ds : List Char} {s t : Script} {r : List Script} (hb : Blanks b)
      (h : Script.Written s cs) (hb' : Blanks b') (rest : ItemsWritten (t :: r) ds) :
      ItemsWritten (s :: t :: r) (b ++ cs ++ b' ++ ',' :: ds)

/-- The text is that of the members, separated by commas. -/
inductive Script.MembersWritten : List (String × Script) → List Char → Prop
  | none {b : List Char} (hb : Blanks b) : MembersWritten [] b
  | last {b b₁ b₂ b' cs q : List Char} {name : String} {s : Script} (hb : Blanks b)
      (hname : IsQuoted name q) (h₁ : Blanks b₁) (h₂ : Blanks b₂) (h : Script.Written s cs)
      (hb' : Blanks b') : MembersWritten [(name, s)] (b ++ q ++ b₁ ++ ':' :: (b₂ ++ cs ++ b'))
  | more {b b₁ b₂ b' cs ds q : List Char} {name : String} {s : Script} {m : String × Script}
      {r : List (String × Script)} (hb : Blanks b) (hname : IsQuoted name q) (h₁ : Blanks b₁)
      (h₂ : Blanks b₂) (h : Script.Written s cs) (hb' : Blanks b') (rest : MembersWritten (m :: r) ds) :
      MembersWritten ((name, s) :: m :: r)
        (b ++ q ++ b₁ ++ ':' :: (b₂ ++ cs ++ b' ++ ',' :: ds))

end

/-- The text is that of the script. -/
def Script.IsText (s : Script) (text : List Char) : Prop :=
  ∃ b cs b', Blanks b ∧ s.Written cs ∧ Blanks b' ∧ text = b ++ cs ++ b'

/-! ### Tokens of scripts -/

namespace Script

mutual

/-- The tokens of a script. -/
def tokens : Script → List Token
  | .null => [.null]
  | .bool b => [.bool b]
  | .number ds => [.number (Number.read? ds)]
  | .string s => [.string (some s)]
  | .array items => .openArray :: itemTokens items ++ [.closeArray]
  | .object members => .openObject :: memberTokens members ++ [.closeObject]

/-- The tokens of items, separated by commas. -/
def itemTokens : List Script → List Token
  | [] => []
  | [s] => s.tokens
  | s :: r => s.tokens ++ .comma :: itemTokens r

/-- The tokens of members, separated by commas. -/
def memberTokens : List (String × Script) → List Token
  | [] => []
  | [(k, s)] => .string (some k) :: .colon :: s.tokens
  | (k, s) :: r => .string (some k) :: .colon :: s.tokens ++ .comma :: memberTokens r

end

end Script

namespace Lexer

/-- The lexer run over characters. -/
def run (s : State) (cs : List Char) : Option State := (cs.map some).foldlM step s

@[simp] theorem run_nil (s : State) : run s [] = some s := rfl

@[simp] theorem run_cons (s : State) (c : Char) (cs : List Char) :
    run s (c :: cs) = (stepChar s c).bind (run · cs) := rfl

theorem run_append (s : State) (cs ds : List Char) :
    run s (cs ++ ds) = (run s cs).bind (run · ds) := by
  simp [run, List.foldlM_append]

/-- A part of a string is read as the part. -/
theorem run_part {part : StringPart} {cs : List Char} (h : part.Written cs) (read : List StringPart)
    (ts : List Token) : run ⟨.string read, ts⟩ cs = some ⟨.string (part :: read), ts⟩ := by
  cases h with
  | char quote mark printed => simp [stepChar, quote, mark, printed]
  | @escape c d h =>
    -- after the mark, a `u` starts a unit and no escape
    have hc : c ≠ 'u' := by
      rintro rfl
      cases h
    simp [stepChar, hc, h]
  | unit h₁ h₂ h₃ h₄ => simp [stepChar, h₁, h₂, h₃, h₄]

/-- Parts one after another are read as the parts. -/
theorem run_parts {parts : List StringPart} {pieces : List (List Char)}
    (h : List.Forall₂ StringPart.Written parts pieces) (read : List StringPart) (ts : List Token) :
    run ⟨.string read, ts⟩ pieces.flatten = some ⟨.string (parts.reverse ++ read), ts⟩ := by
  induction h generalizing read with
  | nil => rfl
  | cons hpart _ ih =>
    rw [List.flatten_cons, run_append, run_part hpart, Option.bind_some, ih]
    simp

/-- A quoted string is read as one token. -/
theorem run_quoted {s : String} {cs : List Char} (h : IsQuoted s cs) (ts : List Token) :
    run ⟨.blank, ts⟩ cs = some ⟨.blank, .string (some s) :: ts⟩ := by
  obtain ⟨parts, pieces, hparts, hjoin, rfl⟩ := h
  have hopen : stepChar ⟨.blank, ts⟩ '"' = some ⟨.string [], ts⟩ := rfl
  simp only [List.cons_append, run_cons, hopen, Option.bind_some, run_append, run_parts hparts]
  simp [stepChar, hjoin]

/-- The machine has read the tokens, the last one first; the end of the last one may only show at
the next character. -/
def State.Reaches (s : State) (ts : List Token) : Prop :=
  s = ⟨.blank, ts⟩ ∨ ∃ read t rest, ts = t :: rest ∧
    (s = ⟨.word read, rest⟩ ∧ word? read = some t ∨
      s = ⟨.number read, rest⟩ ∧ number? read = some t)

/-- A character that belongs to no word and no number starts afresh. -/
theorem State.Reaches.stepChar_eq {s : State} {ts : List Token} (h : s.Reaches ts) {c : Char}
    (hc : c.isLower = false) (hn : isNumberChar c = false) : stepChar s c = start ts c := by
  -- a word or a number that is still open ends at the character
  rcases h with rfl | ⟨read, t, rest, rfl, ⟨rfl, ht⟩ | ⟨rfl, ht⟩⟩
  · rfl
  · simp [stepChar, hc, ht]
  · simp [stepChar, hn, ht]

theorem State.Reaches.finish? {s : State} {ts : List Token} (h : s.Reaches ts) :
    s.finish? = some ts.reverse := by
  rcases h with rfl | ⟨read, t, rest, rfl, ⟨rfl, ht⟩ | ⟨rfl, ht⟩⟩
  · rfl
  · simp [State.finish?, ht]
  · simp [State.finish?, ht]

/-- Blanks are passed over. -/
theorem run_blanks (ts : List Token) {b : List Char} (hb : Blanks b) :
    run ⟨.blank, ts⟩ b = some ⟨.blank, ts⟩ := by
  induction b with
  | nil => rfl
  | cons c b ih =>
    obtain ⟨hc, hb⟩ := List.forall_mem_cons.mp hb
    have hstep : stepChar ⟨.blank, ts⟩ c = some ⟨.blank, ts⟩ := by
      rcases hc with rfl | rfl | rfl | rfl <;> rfl
    rw [run_cons, hstep, Option.bind_some, ih hb]

theorem State.Reaches.run_blanks {s : State} {ts : List Token} (h : s.Reaches ts) {b : List Char}
    (hb : Blanks b) : ∃ s', run s b = some s' ∧ s'.Reaches ts := by
  cases b with
  | nil => exact ⟨s, rfl, h⟩
  | cons c b =>
    obtain ⟨hc, hb⟩ := List.forall_mem_cons.mp hb
    have hstep : stepChar s c = some ⟨.blank, ts⟩ := by
      rcases hc with rfl | rfl | rfl | rfl <;> exact h.stepChar_eq rfl rfl
    exact ⟨_, by rw [run_cons, hstep, Option.bind_some, Lexer.run_blanks ts hb], Or.inl rfl⟩

/-- What is read with blanks around it is read as without them. -/
theorem run_padded {b cs b' : List Char} {ts us : List Token} (hb : Blanks b)
    (h : ∃ s, run ⟨.blank, ts⟩ cs = some s ∧ s.Reaches us) (hb' : Blanks b') :
    ∃ s, run ⟨.blank, ts⟩ (b ++ cs ++ b') = some s ∧ s.Reaches us := by
  obtain ⟨s, hrun, hs⟩ := h
  -- the blanks after it may be what ends it
  obtain ⟨s', hrun', hs'⟩ := hs.run_blanks hb'
  refine ⟨s', ?_, hs'⟩
  rw [run_append, run_append, run_blanks ts hb, Option.bind_some, hrun, Option.bind_some, hrun']

/-- The characters of a number pile up. -/
theorem run_number (read : List Char) (ts : List Token) {cs : List Char}
    (h : ∀ c ∈ cs, isNumberChar c) :
    run ⟨.number read, ts⟩ cs = some ⟨.number (cs.reverse ++ read), ts⟩ := by
  induction cs generalizing read with
  | nil => rfl
  | cons c cs ih =>
    have hc : stepChar ⟨.number read, ts⟩ c = some ⟨.number (c :: read), ts⟩ := by
      simp [stepChar, h c (List.mem_cons_self ..)]
    rw [run_cons, hc, Option.bind_some, ih _ fun d hd => h d (List.mem_cons_of_mem _ hd)]
    simp

/-- A number begins with a character that starts a number. -/
theorem start_number (ts : List Token) {c : Char} (hc : c = '-' ∨ c.isDigit) :
    start ts c = some ⟨.number [c], ts⟩ := by
  have hne (d : Char) (hd : ¬ (d = '-' ∨ d.isDigit)) : c ≠ d := fun h => hd (h ▸ hc)
  have hb : (c = '-' || c.isDigit) = true := by simpa using hc
  simp only [start, Bool.or_eq_true, decide_eq_true_eq, hb, hne ' ' (by decide),
    hne '\n' (by decide), hne '\t' (by decide), hne '\r' (by decide), hne '[' (by decide),
    hne ']' (by decide), hne '\x7b' (by decide), hne '\x7d' (by decide), hne ',' (by decide),
    hne ':' (by decide), hne '"' (by decide), or_self, if_true, if_false]

/-- A numeral is read as one token. -/
theorem run_numeral {ds : List Char} (h : (Number.literal? ds).isSome) (ts : List Token) :
    ∃ s, run ⟨.blank, ts⟩ ds = some s ∧ s.Reaches (.number (Number.read? ds) :: ts) := by
  have hall := Number.isNumberChar_of_literal? h
  obtain ⟨c, cs, rfl, hc⟩ := Number.head_of_literal? h
  obtain ⟨l, hl⟩ := Option.isSome_iff_exists.mp h
  have hstart : stepChar ⟨.blank, ts⟩ c = some ⟨.number [c], ts⟩ := start_number ts hc
  refine ⟨⟨.number (c :: cs).reverse, ts⟩, ?_, Or.inr ⟨_, _, ts, rfl, Or.inr ⟨rfl, ?_⟩⟩⟩
  · rw [run_cons, hstart, Option.bind_some,
      run_number _ _ fun d hd => hall d (List.mem_cons_of_mem _ hd), List.reverse_cons]
  · rw [number?, List.reverse_reverse, Number.read?, hl]
    rfl

mutual

/-- **The lexer finds the tokens of a script in its texts.** -/
theorem run_written : ∀ (s : Script) {cs : List Char} (ts : List Token), s.Written cs →
    ∃ st, run ⟨.blank, ts⟩ cs = some st ∧ st.Reaches (s.tokens.reverse ++ ts)
  | .null, _, ts, .null => ⟨_, rfl, Or.inr ⟨_, .null, ts, rfl, Or.inl ⟨rfl, rfl⟩⟩⟩
  | .bool true, _, ts, .true => ⟨_, rfl, Or.inr ⟨_, .bool true, ts, rfl, Or.inl ⟨rfl, rfl⟩⟩⟩
  | .bool false, _, ts, .false => ⟨_, rfl, Or.inr ⟨_, .bool false, ts, rfl, Or.inl ⟨rfl, rfl⟩⟩⟩
  | .string _, _, ts, .string h => ⟨_, run_quoted h ts, Or.inl rfl⟩
  | .number _, _, ts, .number h => run_numeral h ts
  | .array items, _, ts, .array h => by
    obtain ⟨st, hrun, hst⟩ := run_itemsWritten items (.openArray :: ts) h
    have hopen : stepChar ⟨.blank, ts⟩ '[' = some ⟨.blank, .openArray :: ts⟩ := rfl
    refine ⟨_, ?_, Or.inl rfl⟩
    rw [List.cons_append, run_cons, hopen, Option.bind_some, run_append, hrun, Option.bind_some,
      run_cons, hst.stepChar_eq rfl rfl]
    simp [start, Script.tokens]
  | .object members, _, ts, .object h => by
    obtain ⟨st, hrun, hst⟩ := run_membersWritten members (.openObject :: ts) h
    have hopen : stepChar ⟨.blank, ts⟩ '\x7b' = some ⟨.blank, .openObject :: ts⟩ := rfl
    refine ⟨_, ?_, Or.inl rfl⟩
    rw [List.cons_append, run_cons, hopen, Option.bind_some, run_append, hrun, Option.bind_some,
      run_cons, hst.stepChar_eq rfl rfl]
    simp [start, Script.tokens]

/-- The lexer finds the tokens of items in their texts. -/
theorem run_itemsWritten : ∀ (items : List Script) {cs : List Char} (ts : List Token),
    Script.ItemsWritten items cs → ∃ st, run ⟨.blank, ts⟩ cs = some st ∧
      st.Reaches ((Script.itemTokens items).reverse ++ ts)
  | [], _, ts, .none hb => ⟨_, run_blanks ts hb, Or.inl rfl⟩
  | [s], _, ts, .last hb h hb' => run_padded hb (run_written s ts h) hb'
  | s :: t :: r, _, ts, .more hb h hb' rest => by
    obtain ⟨st, hrun, hst⟩ := run_padded hb (run_written s ts h) hb'
    obtain ⟨st', hrun', hst'⟩ := run_itemsWritten (t :: r) (.comma :: (s.tokens.reverse ++ ts)) rest
    have hcomma : stepChar st ',' = some ⟨.blank, .comma :: (s.tokens.reverse ++ ts)⟩ :=
      hst.stepChar_eq rfl rfl
    refine ⟨st', ?_, by simpa [Script.itemTokens] using hst'⟩
    rw [run_append, hrun, Option.bind_some, run_cons, hcomma, Option.bind_some, hrun']

/-- The lexer finds the tokens of members in their texts. -/
theorem run_membersWritten : ∀ (members : List (String × Script)) {cs : List Char}
    (ts : List Token), Script.MembersWritten members cs → ∃ st, run ⟨.blank, ts⟩ cs = some st ∧
      st.Reaches ((Script.memberTokens members).reverse ++ ts)
  | [], _, ts, .none hb => ⟨_, run_blanks ts hb, Or.inl rfl⟩
  | [(name, s)], _, ts, .last hb hname h₁ h₂ h hb' => by
    obtain ⟨st, hrun, hst⟩ := run_padded hb ⟨_, run_quoted hname ts, Or.inl rfl⟩ h₁
    obtain ⟨st', hrun', hst'⟩ :=
      run_padded h₂ (run_written s (.colon :: .string (some name) :: ts) h) hb'
    have hcolon : stepChar st ':' = some ⟨.blank, .colon :: .string (some name) :: ts⟩ :=
      hst.stepChar_eq rfl rfl
    refine ⟨st', ?_, by simpa [Script.memberTokens] using hst'⟩
    rw [run_append, hrun, Option.bind_some, run_cons, hcolon, Option.bind_some, hrun']
  | (name, s) :: m :: r, _, ts, .more hb hname h₁ h₂ h hb' rest => by
    obtain ⟨st, hrun, hst⟩ := run_padded hb ⟨_, run_quoted hname ts, Or.inl rfl⟩ h₁
    obtain ⟨st', hrun', hst'⟩ :=
      run_padded h₂ (run_written s (.colon :: .string (some name) :: ts) h) hb'
    obtain ⟨st'', hrun'', hst''⟩ := run_membersWritten (m :: r)
      (.comma :: (s.tokens.reverse ++ .colon :: .string (some name) :: ts)) rest
    have hcolon : stepChar st ':' = some ⟨.blank, .colon :: .string (some name) :: ts⟩ :=
      hst.stepChar_eq rfl rfl
    have hcomma : stepChar st' ',' =
        some ⟨.blank, .comma :: (s.tokens.reverse ++ .colon :: .string (some name) :: ts)⟩ :=
      hst'.stepChar_eq rfl rfl
    refine ⟨st'', ?_, by simpa [Script.memberTokens] using hst''⟩
    rw [run_append, hrun, Option.bind_some, run_cons, hcolon, Option.bind_some, run_append, hrun',
      Option.bind_some, run_cons, hcomma, Option.bind_some, hrun'']

end

end Lexer

/-! ### The parser on tokens -/

namespace Script

mutual

/-- What is made of a script inside of so many arrays and objects. -/
def echo (depth : Nat) : Script → Draft
  | .null => .null
  | .bool b => .bool b
  | .number ds => Parser.part .number (Number.read? ds)
  | .string s => .string s
  | .array items =>
    if depth < Parser.maxDepth then .array (itemEchoes (depth + 1) items) else .unreadable
  | .object members =>
    if depth < Parser.maxDepth then .object (memberEchoes (depth + 1) members) else .unreadable

/-- What is made of items. -/
def itemEchoes (depth : Nat) : List Script → List Draft
  | [] => []
  | s :: r => s.echo depth :: itemEchoes depth r

/-- What is made of members. -/
def memberEchoes (depth : Nat) : List (String × Script) → List (MemberName × Draft)
  | [] => []
  | (name, s) :: r => (.text name, s.echo depth) :: memberEchoes depth r

end

end Script

namespace Parser

/-- The parser run over tokens. -/
def run (s : State) (ts : List Token) : Option State := ts.foldlM step s

@[simp] theorem run_nil (s : State) : run s [] = some s := rfl

@[simp] theorem run_cons (s : State) (t : Token) (ts : List Token) :
    run s (t :: ts) = (step s t).bind (run · ts) := rfl

theorem run_append (s : State) (ts us : List Token) :
    run s (ts ++ us) = (run s ts).bind (run · us) := by
  simp [run, List.foldlM_append]

/-- A value may come next. -/
def Expect.AllowsValue (e : Expect) : Prop := e = .value ∨ e = .valueOrClose

/-- Where a value may come next, any token but a closing bracket starts one. -/
theorem step_eq_start {e : Expect} (he : e.AllowsValue) (stack : List Frame) (t : Token)
    (ht : t ≠ .closeArray) : step ⟨stack, e⟩ t = start stack t := by
  rcases he with rfl | rfl
  · rfl
  · cases t <;> first | rfl | exact absurd rfl ht

/-- A container that is not nested too deep is kept as it is. -/
theorem close_eq (stack : List Frame) (d : Draft) :
    close stack d = ⟨stack, .rest (if stack.length < maxDepth then d else .unreadable)⟩ := by
  have hdrop : stack.drop (maxDepth - 1) = [] ↔ stack.length < maxDepth := by
    rw [List.drop_eq_nil_iff]
    exact Nat.lt_succ_iff.symm
  simp [close, hdrop]

mutual

/-- **The parser makes the echo of a script of its tokens.** -/
theorem run_tokens : ∀ (s : Script) (stack : List Frame) (e : Expect), e.AllowsValue →
    run ⟨stack, e⟩ s.tokens = some ⟨stack, .rest (s.echo stack.length)⟩
  | .null, stack, e, he => by
    rw [Script.tokens, run_cons, step_eq_start he stack .null nofun]
    rfl
  | .bool b, stack, e, he => by
    rw [Script.tokens, run_cons, step_eq_start he stack (.bool b) nofun]
    rfl
  | .number ds, stack, e, he => by
    rw [Script.tokens, run_cons, step_eq_start he stack (.number (Number.read? ds)) nofun]
    rfl
  | .string s, stack, e, he => by
    rw [Script.tokens, run_cons, step_eq_start he stack (.string (some s)) nofun]
    rfl
  | .array [], stack, e, he => by
    rw [Script.tokens, List.cons_append, run_cons, step_eq_start he stack .openArray nofun]
    exact congrArg some (close_eq stack (.array []))
  | .array (s :: r), stack, e, he => by
    obtain ⟨read, d, hread, hrun⟩ := run_itemTokens (s :: r) stack [] .valueOrClose nofun
      (Or.inr rfl)
    have hopen : start stack .openArray = some ⟨.array [] :: stack, .valueOrClose⟩ := rfl
    rw [Script.tokens, List.cons_append, run_cons, step_eq_start he stack .openArray nofun, hopen,
      Option.bind_some, run_append, hrun, Option.bind_some]
    simp only [run_cons, step, close_eq, Option.bind_some, run_nil, hread, Script.echo]
    rfl
  | .object [], stack, e, he => by
    rw [Script.tokens, List.cons_append, run_cons, step_eq_start he stack .openObject nofun]
    exact congrArg some (close_eq stack (.object []))
  | .object (m :: r), stack, e, he => by
    obtain ⟨read, n, d, hread, hrun⟩ := run_memberTokens (m :: r) stack [] (.nameOrClose [])
      nofun (Or.inl rfl)
    have hopen : start stack .openObject = some ⟨stack, .nameOrClose []⟩ := rfl
    rw [Script.tokens, List.cons_append, run_cons, step_eq_start he stack .openObject nofun, hopen,
      Option.bind_some, run_append, hrun, Option.bind_some]
    simp only [run_cons, step, close_eq, Option.bind_some, run_nil, hread, Script.echo]
    rfl

/-- The parser collects what is read of items. -/
theorem run_itemTokens : ∀ (items : List Script) (stack : List Frame) (read : List Draft)
    (e : Expect), items ≠ [] → e.AllowsValue →
    ∃ read' d, (d :: read').reverse = read.reverse ++ Script.itemEchoes (stack.length + 1) items ∧
      run ⟨.array read :: stack, e⟩ (Script.itemTokens items) =
        some ⟨.array read' :: stack, .rest d⟩
  | [], _, _, _, hne, _ => absurd rfl hne
  -- the last item is not yet among those that were read: a bracket or a comma puts it there
  | [s], stack, read, e, _, he =>
    ⟨read, s.echo (stack.length + 1), by simp [Script.itemEchoes], run_tokens s _ e he⟩
  | s :: t :: r, stack, read, e, _, he => by
    obtain ⟨read', d, hread, hrun⟩ := run_itemTokens (t :: r) stack
      (s.echo (stack.length + 1) :: read) .value nofun (Or.inl rfl)
    refine ⟨read', d, by simpa [Script.itemEchoes] using hread, ?_⟩
    rw [Script.itemTokens, run_append, run_tokens s (.array read :: stack) e he, Option.bind_some,
      run_cons]
    · exact hrun
    · nofun

/-- The parser collects what is read of members. -/
theorem run_memberTokens : ∀ (members : List (String × Script)) (stack : List Frame)
    (read : List (MemberName × Draft)) (e : Expect),
    members ≠ [] → e = .nameOrClose read ∨ e = .name read →
    ∃ read' n d,
      ((n, d) :: read').reverse =
        read.reverse ++ Script.memberEchoes (stack.length + 1) members ∧
      run ⟨stack, e⟩ (Script.memberTokens members) = some ⟨.object read' n :: stack, .rest d⟩
  | [], _, _, _, hne, _ => absurd rfl hne
  | [(k, s)], stack, read, e, _, he => by
    have hs := run_tokens s (.object read (.text k) :: stack) .value (Or.inl rfl)
    refine ⟨read, .text k, s.echo (stack.length + 1), by simp [Script.memberEchoes], ?_⟩
    rcases he with rfl | rfl
    · exact hs
    · exact hs
  | (k, s) :: m :: r, stack, read, e, _, he => by
    have hs := run_tokens s (.object read (.text k) :: stack) .value (Or.inl rfl)
    obtain ⟨read', n, d, hread, hrun⟩ := run_memberTokens (m :: r) stack
      ((.text k, s.echo (stack.length + 1)) :: read) (.name _) nofun (Or.inr rfl)
    refine ⟨read', n, d, by simpa [Script.memberEchoes] using hread, ?_⟩
    have hname : step ⟨stack, e⟩ (.string (some k)) =
        some ⟨.object read (.text k) :: stack, .colon⟩ := by
      rcases he with rfl | rfl
      · rfl
      · rfl
    have hcolon : step ⟨.object read (.text k) :: stack, .colon⟩ .colon =
      some ⟨.object read (.text k) :: stack, .value⟩ := rfl
    rw [Script.memberTokens, List.cons_append, run_cons, hname, Option.bind_some, List.cons_append,
      run_cons, hcolon, Option.bind_some, run_append, hs, Option.bind_some]
    · exact hrun
    · nofun

end

end Parser

/-- The tokens of a script are found in its texts. -/
theorem Script.IsText.scan?_eq {s : Script} {text : List Char} (h : s.IsText text) :
    Token.scan? (text.map some) = some s.tokens := by
  obtain ⟨b, cs, b', hb, hs, hb', rfl⟩ := h
  obtain ⟨st, hrun, hst⟩ := Lexer.run_padded hb (Lexer.run_written s [] hs) hb'
  have hfold : ((b ++ cs ++ b').map some).foldlM Lexer.step ⟨.blank, []⟩ = some st := hrun
  rw [Token.scan?, hfold, Option.bind_eq_bind, Option.bind_some, hst.finish?]
  simp

/-- **What is written is read.** -/
theorem Script.IsText.document?_eq {s : Script} {text : List Char} (h : s.IsText text) :
    Draft.document? (text.map some) = some (s.echo 0) := by
  have hparse : s.tokens.foldlM Parser.step ⟨[], .value⟩ = some ⟨[], .rest (s.echo 0)⟩ :=
    Parser.run_tokens s [] .value (Or.inl rfl)
  simp [Draft.document?, h.scan?_eq, hparse, Parser.State.finish?]

end Json

end ContentIndex
