import Mathlib.Algebra.Group.Nat.Defs
import ContentIndex.Json.Record
import ContentIndex.Proofs.JsonGrammar
import ContentIndex.Proofs.NumberText

/-!
# Reading what was written

A value is written as a script is, with its numbers in their shortest form. Two things may be lost when
the text is read: a double may be read as another one, and what is nested too deep is passed over. The
rest is read back, so a value without such parts is read back as a whole. Whole numbers are read back.

## Main definitions

* `Json.Number.reread`: what is read where a number was written
* `Json.Value.script`: the script that is written for a value
* `Json.Value.tokens`, `Json.Value.echo`: the tokens of a value, and what is made of them
* `Json.Value.HasNumbers`: all numbers in a value satisfy a predicate

## Main results

* `Json.Value.written_script`: what is written of a value is a text of its script
* `Json.Draft.ofBytes?_bytes`: **bytes that were written are read**
* `Json.Draft.ofBytes?_bytes_of_readsBack`: **a value is read back from its bytes**
* `Json.Number.readsBack_int`: whole numbers are read back
-/

namespace ContentIndex.Json

/-! ### Strings -/

namespace Lexer

theorem hexValue?_hexDigit : ∀ n < 16, Bytes.hexValue? (Bytes.hexDigit n) = some n := by decide

end Lexer

namespace StringPart

/-- An escape is the text of a part that stands for the character. -/
theorem exists_written_escape (c : Char) : ∃ part : StringPart, part.Written (escape c) ∧
    ∀ cs, part.prepend? (cs, none) = some (c :: cs, none) := by
  have hsimple {d e : Char} (h : Lexer.unescape? e = some d) (he : escape d = ['\\', e]) :
      ∃ part : StringPart, part.Written (escape d) ∧
        ∀ cs, part.prepend? (cs, none) = some (d :: cs, none) :=
    ⟨.char d, he ▸ .escape h, fun cs => rfl⟩
  by_cases h₁ : c = '"'
  · subst h₁
    exact hsimple (e := '"') rfl rfl
  by_cases h₂ : c = '\\'
  · subst h₂
    exact hsimple (e := '\\') rfl rfl
  by_cases h₃ : ' ' ≤ c
  · have hself : escape c = [c] := by simp [escape, h₁, h₂, h₃]
    exact ⟨.char c, hself ▸ .char h₁ h₂ (Char.not_lt.mpr h₃), fun cs => rfl⟩
  by_cases h₄ : c = '\n'
  · subst h₄
    exact hsimple (e := 'n') rfl rfl
  by_cases h₅ : c = '\r'
  · subst h₅
    exact hsimple (e := 'r') rfl rfl
  by_cases h₆ : c = '\t'
  · subst h₆
    exact hsimple (e := 't') rfl rfl
  by_cases h₇ : c = '\x08'
  · subst h₇
    exact hsimple (e := 'b') rfl rfl
  by_cases h₈ : c = '\x0c'
  · subst h₈
    exact hsimple (e := 'f') rfl rfl
  have hlt : c.toNat < 32 := by
    simpa [Char.le_def, UInt32.le_iff_toNat_le] using h₃
  have hzero : Bytes.hexValue? '0' = some 0 := by decide
  have hunit := Written.unit hzero hzero (Lexer.hexValue?_hexDigit (c.toNat / 16) (by omega))
    (Lexer.hexValue?_hexDigit (c.toNat % 16) (by omega))
  have hval : ((0 * 16 + 0) * 16 + c.toNat / 16) * 16 + c.toNat % 16 = c.toNat := by omega
  have hlong : escape c = ['\\', 'u', '0', '0', Bytes.hexDigit (c.toNat / 16),
      Bytes.hexDigit (c.toNat % 16)] := by
    simp [escape, h₁, h₂, h₃, h₄, h₅, h₆, h₇, h₈]
  rw [hval] at hunit
  refine ⟨.unit c.toNat, hlong ▸ hunit, fun cs => ?_⟩
  have hl : StringPart.isLow c.toNat = false := by simp [StringPart.isLow]; omega
  have hh : StringPart.isHigh c.toNat = false := by simp [StringPart.isHigh]; omega
  simp [StringPart.prepend?, hl, hh]

end StringPart

/-- What is written of a string is a text of it in quotes. -/
theorem isQuoted_quoted (s : String) : IsQuoted s (quoted s) := by
  have hparts (cs : List Char) : ∃ parts, List.Forall₂ StringPart.Written parts (cs.map escape) ∧
      parts.reverse.foldlM (fun state part => part.prepend? state) ([], none) =
        some (cs, none) := by
    induction cs with
    | nil => exact ⟨[], .nil, rfl⟩
    | cons c cs ih =>
      obtain ⟨part, hpart, hprepend⟩ := StringPart.exists_written_escape c
      obtain ⟨parts, hparts, hjoin⟩ := ih
      refine ⟨part :: parts, .cons hpart hparts, ?_⟩
      rw [List.reverse_cons, List.foldlM_append, hjoin]
      simp [hprepend]
  obtain ⟨parts, hparts, hjoin⟩ := hparts s.toList
  refine ⟨parts, s.toList.map escape, hparts, ?_, ?_⟩
  · simp [StringPart.join?, hjoin]
  · rw [quoted, List.flatMap_def]

/-! ### Tokens of values -/

namespace Number

/-- What is read where the number was written, unless that is too great for any number. -/
def reread (n : Number) : Option Number := (literal? n.chars).bind ofLiteral?

/-- The number is read where it was written. -/
def ReadsBack (n : Number) : Prop := n.reread = some n

end Number

namespace Value

mutual

/-- The tokens of a value. -/
def tokens : Value → List Token
  | .null => [.null]
  | .bool b => [.bool b]
  | .number n => [.number n.reread]
  | .string s => [.string (some s)]
  | .array items => .openArray :: itemTokens items ++ [.closeArray]
  | .object members => .openObject :: memberTokens members ++ [.closeObject]

/-- The tokens of items, separated by commas. -/
def itemTokens : List Value → List Token
  | [] => []
  | [v] => v.tokens
  | v :: r => v.tokens ++ .comma :: itemTokens r

/-- The tokens of members, separated by commas. -/
def memberTokens : List (String × Value) → List Token
  | [] => []
  | [(k, v)] => .string (some k) :: .colon :: v.tokens
  | (k, v) :: r => .string (some k) :: .colon :: v.tokens ++ .comma :: memberTokens r

end

mutual

/-- All numbers in a value satisfy the predicate. -/
def HasNumbers (p : Number → Prop) : Value → Prop
  | .number n => p n
  | .array items => ItemsHaveNumbers p items
  | .object members => MembersHaveNumbers p members
  | _ => True

/-- All numbers in the items satisfy the predicate. -/
def ItemsHaveNumbers (p : Number → Prop) : List Value → Prop
  | [] => True
  | v :: r => v.HasNumbers p ∧ ItemsHaveNumbers p r

/-- All numbers in the members satisfy the predicate. -/
def MembersHaveNumbers (p : Number → Prop) : List (String × Value) → Prop
  | [] => True
  | (_, v) :: r => v.HasNumbers p ∧ MembersHaveNumbers p r

end

end Value

/-! ### Scripts of values -/

namespace Value

mutual

/-- The script that is written for a value. -/
def script : Value → Script
  | .null => .null
  | .bool b => .bool b
  | .number n => .number n.chars
  | .string s => .string s
  | .array items => .array (itemScripts items)
  | .object members => .object (memberScripts members)

/-- The scripts of items. -/
def itemScripts : List Value → List Script
  | [] => []
  | v :: r => v.script :: itemScripts r

/-- The scripts of members. -/
def memberScripts : List (String × Value) → List (String × Script)
  | [] => []
  | (name, v) :: r => (name, v.script) :: memberScripts r

end

mutual

/-- **What is written of a value is a text of its script.** -/
theorem written_script : ∀ v : Value, v.script.Written v.chars
  | .null => .null
  | .bool true => .true
  | .bool false => .false
  | .string s => .string (isQuoted_quoted s)
  | .number n => by
    obtain ⟨l, hl⟩ := n.isAllowed_chars.literal?
    exact .number (hl ▸ rfl)
  | .array items => .array (itemsWritten_itemScripts items)
  | .object members => .object (membersWritten_memberScripts members)

theorem itemsWritten_itemScripts : ∀ items : List Value,
    Script.ItemsWritten (itemScripts items) (itemChars items)
  | [] => .none blanks_nil
  | [v] => by
    have hlast := Script.ItemsWritten.last blanks_nil (written_script v) blanks_nil
    rwa [List.nil_append, List.append_nil] at hlast
  | v :: w :: r => by
    have hmore := Script.ItemsWritten.more blanks_nil (written_script v) blanks_nil
      (itemsWritten_itemScripts (w :: r))
    rwa [List.nil_append, List.append_nil] at hmore

theorem membersWritten_memberScripts : ∀ members : List (String × Value),
    Script.MembersWritten (memberScripts members) (memberChars members)
  | [] => .none blanks_nil
  | [(k, v)] => by
    have hlast := Script.MembersWritten.last blanks_nil (isQuoted_quoted k) blanks_nil blanks_nil
      (written_script v) blanks_nil
    rwa [List.nil_append, List.append_nil, List.nil_append, List.append_nil] at hlast
  | (k, v) :: m :: r => by
    have hmore := Script.MembersWritten.more blanks_nil (isQuoted_quoted k) blanks_nil blanks_nil
      (written_script v) blanks_nil (membersWritten_memberScripts (m :: r))
    rw [List.nil_append, List.append_nil, List.nil_append, List.append_nil] at hmore
    rw [memberChars, List.append_assoc, List.cons_append]
    · exact hmore
    · nofun

end

mutual

theorem tokens_script : ∀ v : Value, v.script.tokens = v.tokens
  | .null | .bool _ | .string _ | .number _ => rfl
  | .array items => by
    rw [script, Script.tokens, tokens, itemTokens_itemScripts items]
  | .object members => by
    rw [script, Script.tokens, tokens, memberTokens_memberScripts members]

theorem itemTokens_itemScripts : ∀ items : List Value,
    Script.itemTokens (itemScripts items) = itemTokens items
  | [] => rfl
  | [v] => tokens_script v
  | v :: w :: r => by
    have hrest := itemTokens_itemScripts (w :: r)
    simp only [itemScripts] at hrest ⊢
    rw [Script.itemTokens, itemTokens, tokens_script v, hrest]
    · nofun
    · nofun

theorem memberTokens_memberScripts : ∀ members : List (String × Value),
    Script.memberTokens (memberScripts members) = memberTokens members
  | [] => rfl
  | [(k, v)] => by
    rw [memberScripts, memberScripts, Script.memberTokens, memberTokens, tokens_script v]
  | (k, v) :: (l, w) :: r => by
    have hrest := memberTokens_memberScripts ((l, w) :: r)
    simp only [memberScripts] at hrest ⊢
    rw [Script.memberTokens, memberTokens, tokens_script v, hrest]
    · nofun
    · nofun

end

end Value

/-! ### What is read of values -/

namespace Value

mutual

/-- What is read where a value was written inside of so many arrays and objects. -/
def echo (depth : Nat) : Value → Draft
  | .null => .null
  | .bool b => .bool b
  | .number n => Parser.part .number n.reread
  | .string s => .string s
  | .array items =>
    if depth < Parser.maxDepth then .array (itemEchoes (depth + 1) items) else .unreadable
  | .object members =>
    if depth < Parser.maxDepth then .object (memberEchoes (depth + 1) members) else .unreadable

/-- What is read where items were written. -/
def itemEchoes (depth : Nat) : List Value → List Draft
  | [] => []
  | v :: r => v.echo depth :: itemEchoes depth r

/-- What is read where members were written. -/
def memberEchoes (depth : Nat) : List (String × Value) → List (MemberName × Draft)
  | [] => []
  | (name, v) :: r => (.text name, v.echo depth) :: memberEchoes depth r

end

mutual

theorem echo_script : ∀ (v : Value) (depth : Nat), v.script.echo depth = v.echo depth
  | .null, _ | .bool _, _ | .string _, _ | .number _, _ => rfl
  | .array items, depth => by
    rw [script, Script.echo, echo, itemEchoes_itemScripts items]
  | .object members, depth => by
    rw [script, Script.echo, echo, memberEchoes_memberScripts members]

theorem itemEchoes_itemScripts : ∀ (items : List Value) (depth : Nat),
    Script.itemEchoes depth (itemScripts items) = itemEchoes depth items
  | [], _ => rfl
  | v :: r, depth => by
    rw [itemScripts, Script.itemEchoes, itemEchoes, echo_script v, itemEchoes_itemScripts r]

theorem memberEchoes_memberScripts : ∀ (members : List (String × Value)) (depth : Nat),
    Script.memberEchoes depth (memberScripts members) = memberEchoes depth members
  | [], _ => rfl
  | (name, v) :: r, depth => by
    rw [memberScripts, Script.memberEchoes, memberEchoes, echo_script v, memberEchoes_memberScripts r]

end

mutual

/-- If its numbers are read back, then a value that is not nested too deep is read back. -/
theorem echo_eq_draft : ∀ (v : Value) (depth : Nat), v.HasNumbers Number.ReadsBack →
    depth + v.draft.depth ≤ Parser.maxDepth → v.echo depth = v.draft
  | .null, _, _, _ | .bool _, _, _, _ | .string _, _, _, _ => rfl
  | .number n, _, h, _ => by
    have h : n.reread = some n := h
    rw [echo, h]
    rfl
  | .array items, depth, h, hd => by
    have hd : depth + (Draft.depthItems (itemDrafts items) + 1) ≤ Parser.maxDepth := hd
    rw [echo, if_pos (by omega), itemEchoes_eq_itemDrafts items _ h (by omega)]
    rfl
  | .object members, depth, h, hd => by
    have hd : depth + (Draft.depthMembers (memberDrafts members) + 1) ≤ Parser.maxDepth := hd
    rw [echo, if_pos (by omega), memberEchoes_eq_memberDrafts members _ h (by omega)]
    rfl

theorem itemEchoes_eq_itemDrafts : ∀ (items : List Value) (depth : Nat),
    ItemsHaveNumbers Number.ReadsBack items →
    depth + Draft.depthItems (itemDrafts items) ≤ Parser.maxDepth →
    itemEchoes depth items = itemDrafts items
  | [], _, _, _ => rfl
  | v :: r, depth, h, hd => by
    simp only [itemDrafts, Draft.depthItems] at hd
    rw [itemEchoes, echo_eq_draft v depth h.1 (by omega),
      itemEchoes_eq_itemDrafts r depth h.2 (by omega)]
    rfl

theorem memberEchoes_eq_memberDrafts : ∀ (members : List (String × Value)) (depth : Nat),
    MembersHaveNumbers Number.ReadsBack members →
    depth + Draft.depthMembers (memberDrafts members) ≤ Parser.maxDepth →
    memberEchoes depth members = memberDrafts members
  | [], _, _, _ => rfl
  | (name, v) :: r, depth, h, hd => by
    simp only [memberDrafts, Draft.depthMembers] at hd
    rw [memberEchoes, echo_eq_draft v depth h.1 (by omega),
      memberEchoes_eq_memberDrafts r depth h.2 (by omega)]
    rfl

end

end Value

/-! ### Reading back -/

/-- What is written of a value is the text of a script. -/
theorem Value.isText_script (v : Value) : v.script.IsText v.chars :=
  ⟨[], v.chars, [], blanks_nil, v.written_script, blanks_nil, by simp⟩

theorem Value.chars_bytes (v : Value) : v.bytes.chars = v.chars.map some := by
  simp [bytes, compact]

/-- The tokens of a value are found in its bytes. -/
theorem Token.scan?_bytes (v : Value) : scan? v.bytes.chars = some v.tokens := by
  rw [v.chars_bytes, v.isText_script.scan?_eq, v.tokens_script]

namespace Draft

/-- **Bytes that were written are read.** -/
theorem ofBytes?_bytes (v : Value) : ofBytes? v.bytes = some (v.echo 0) := by
  rw [ofBytes?, v.chars_bytes, v.isText_script.document?_eq, v.echo_script]

/-- **A value is read back from its bytes**, if its numbers are read back and it is not nested too
deep. -/
theorem ofBytes?_bytes_of_readsBack {v : Value} (hn : v.HasNumbers Number.ReadsBack)
    (hd : v.draft.depth ≤ Parser.maxDepth) : ofBytes? v.bytes = some v.draft := by
  rw [ofBytes?_bytes, v.echo_eq_draft 0 hn (by omega)]

end Draft

namespace Number

/-- **Whole numbers are read back**, whatever their size. -/
theorem readsBack_int (i : Int) (fits : -2 ^ 63 ≤ i ∧ i < 2 ^ 64) : (int i fits).ReadsBack := by
  obtain ⟨e, hread, he⟩ := (allowed_toDigits i.natAbs).literal?_text (i < 0)
  obtain rfl : e = none := by simpa using he
  have hint : ofInt? i = some (.int i fits) := dif_pos fits
  have hvalue : (if i < 0 then -(i.natAbs : Int) else i.natAbs) = i := by split <;> omega
  have hzero : i < 0 → i.natAbs ≠ 0 := by omega
  rw [ReadsBack, reread, chars_int, hread, Option.bind_some, ofLiteral?]
  generalize i.natAbs = n at hvalue hzero
  by_cases hi : i < 0
  · rw [if_pos hi] at hvalue
    simp [hi, DecimalLiteral.isNegative, DecimalLiteral.isWhole, hvalue, hzero hi, hint]
  · rw [if_neg hi] at hvalue
    simp [hi, DecimalLiteral.isNegative, DecimalLiteral.isWhole, hvalue, hint]

theorem readsBack_ofInt? {n : Nat} {m : Number} (h : ofInt? n = some m) : m.ReadsBack := by
  simp only [ofInt?] at h
  split at h
  · next hfits =>
    cases h
    exact readsBack_int n hfits
  · cases h

/-- **A double is read as a double**, if it is read. -/
theorem exists_float_of_reread {x : Binary64} {finite : x.isFinite} {m : Number}
    (h : (float x finite).reread = some m) : ∃ y hy, m = .float y hy := by
  obtain ⟨negative, whole, fraction, exponent, hallowed, hpoint, hchars⟩ :=
    floatLayout.exists_text_write x
  obtain ⟨e, hread, he⟩ := hallowed.literal?_text negative
  have hchars : (float x finite).chars = DecimalLiteral.text negative whole fraction exponent := hchars
  rw [reread, hchars, hread, Option.bind_some, ofLiteral?] at h
  have hwhole : DecimalLiteral.isWhole ⟨if negative then some '-' else none, whole, fraction, e⟩ =
      false := by
    rw [DecimalLiteral.isWhole, ← Option.not_isSome, ← Option.not_isSome, he]
    rcases hpoint rfl with hfraction | hexponent
    · simp [hfraction]
    · simp [hexponent]
  simp only [hwhole, Bool.false_eq_true, false_and, if_false] at h
  obtain ⟨y, -, hy⟩ := Option.bind_eq_some_iff.mp h
  unfold ofFloat? at hy
  split at hy
  · next hfinite =>
    cases hy
    exact ⟨y, hfinite, rfl⟩
  · cases hy

/-- A number below the bound of 64 bits is read as a number. -/
theorem exists_ofInt? {n : Nat} (h : n < 2 ^ 64) :
    ∃ m, ofInt? n = some m ∧ ∀ {bound}, n < bound → Draft.natBelow? bound (.number m) = some n := by
  have hfits : -2 ^ 63 ≤ (n : Int) ∧ (n : Int) < 2 ^ 64 := by omega
  refine ⟨.int n hfits, dif_pos hfits, fun {bound} hb => ?_⟩
  have hrange : 0 ≤ (n : Int) ∧ (n : Int) < bound := by omega
  rw [Draft.natBelow?, if_pos hrange, Int.toNat_natCast]

end Number

theorem Value.nat_eq {n : Nat} {m : Number} (h : Number.ofInt? n = some m) :
    Value.nat n = .number m := by
  -- the function is unfolded without its argument: the bounds of `ofInt?` at a variable number
  -- are not to be evaluated when two sides are compared
  have hnat : ∀ f : Nat → Value, f = Value.nat → f n = .number m := by
    intro f hf
    delta Value.nat at hf
    rw [hf]
    simp only [h]
  exact hnat _ rfl

end ContentIndex.Json
