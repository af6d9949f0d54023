import ContentIndex.Proofs.Text
import ContentIndex.Proofs.WriteBack

/-!
# Front matter

A Markdown file begins with front matter if its first line is made of three dashes and a later line
is one of three dashes that blanks may follow. The front matter is what stands between them. All
other files are text only. A file may be cut at the byte offsets of its lines: they lie within the
file and never inside a character.

## Main definitions

* `Text.lines`: the lines of a text with their line breaks
* `Text.slice?`: the part of a text between two byte offsets
* `Document.IsParted`: a text is front matter between two lines of dashes, and a body
* `Document.splitAtOffsets?`: front matter is found by counting the bytes of lines

## Main results

* `Text.lines_of_append`: some of the lines of a text are the lines of a text
* `Document.splitAtDashes?_eq_some_iff`: the front matter ends at the first line of dashes
* `Document.splitAtOffsets?_eq`: cuts at byte offsets are possible, and give the same parts
* `Document.splitFront_exact`: **front matter is found exactly where it is, and nothing is lost**
-/

namespace ContentIndex

namespace Text

/-! ### Lines -/

/-- The lines of a text, each with the line break that ends it. -/
def lines : List Char → List (List Char)
  | [] => []
  | c :: r =>
    if c = '\n' then ['\n'] :: lines r
    else match lines r with
      | [] => [[c]]
      | line :: rest => (c :: line) :: rest

variable {cs line w r : List Char} {rest ls ls' : List (List Char)}

/-- A text without a line break is one line, unless it is empty. -/
theorem lines_of_notMem (h : '\n' ∉ cs) : lines cs = if cs = [] then [] else [cs] := by
  induction cs with
  | nil => rfl
  | cons c cs ih =>
    rw [List.mem_cons, not_or] at h
    rw [lines, if_neg (Ne.symm h.1), ih h.2]
    cases cs <;> rfl

/-- A line break ends the first line. -/
theorem lines_append_cons (h : '\n' ∉ w) : lines (w ++ '\n' :: r) = (w ++ ['\n']) :: lines r := by
  induction w with
  | nil => simp [lines]
  | cons c w ih =>
    rw [List.mem_cons, not_or] at h
    rw [List.cons_append, lines, if_neg (Ne.symm h.1), ih h.2]
    rfl

/-- The first line ends with the first line break, or it is all of the text. -/
theorem eq_of_lines_eq_cons (h : lines cs = line :: rest) :
    (∃ w r, '\n' ∉ w ∧ cs = w ++ '\n' :: r ∧ line = w ++ ['\n'] ∧ rest = lines r) ∨
      ('\n' ∉ cs ∧ line = cs ∧ rest = []) := by
  by_cases hmem : '\n' ∈ cs
  · obtain ⟨w, r, rfl, hw⟩ := List.eq_append_cons_of_mem hmem
    rw [lines_append_cons hw] at h
    obtain ⟨rfl, rfl⟩ := List.cons.inj h
    exact Or.inl ⟨w, r, hw, rfl, rfl, rfl⟩
  · rw [lines_of_notMem hmem] at h
    split at h
    · cases h
    · obtain ⟨rfl, rfl⟩ := List.cons.inj h
      exact Or.inr ⟨hmem, rfl, rfl⟩

/-- The lines make up the text. -/
@[simp] theorem flatten_lines (cs : List Char) : (lines cs).flatten = cs := by
  induction cs with
  | nil => rfl
  | cons c cs ih =>
    rw [lines]
    split
    · next hc =>
      rw [List.flatten_cons, ih, hc]
      rfl
    · -- the character goes to the front of the next line, or is the last one
      split
      · next heq =>
        rw [heq, List.flatten_nil] at ih
        rw [← ih]
        rfl
      · next line rest heq =>
        rw [heq, List.flatten_cons] at ih
        rw [List.flatten_cons, List.cons_append, ih]

/-- Some of the lines of a text are the lines of a text. -/
theorem lines_of_append (h : lines cs = ls ++ ls') :
    lines ls.flatten = ls ∧ lines ls'.flatten = ls' := by
  induction ls generalizing cs with
  | nil =>
    rw [List.nil_append] at h
    exact ⟨rfl, by rw [← h, flatten_lines]⟩
  | cons line ls ih =>
    rcases eq_of_lines_eq_cons h with ⟨w, r, hw, rfl, rfl, hr⟩ | ⟨hcs, rfl, hnil⟩
    · obtain ⟨hls, hls'⟩ := ih hr.symm
      refine ⟨?_, hls'⟩
      rw [List.flatten_cons, List.append_assoc, List.singleton_append, lines_append_cons hw, hls]
    · obtain ⟨rfl, rfl⟩ := List.append_eq_nil_iff.mp hnil
      refine ⟨?_, rfl⟩
      rw [List.flatten_cons, List.flatten_nil, List.append_nil]
      exact h

/-- A line break at the end of a line is a blank. -/
theorem trimEnd_append_newline (w : List Char) : trimEnd (w ++ ['\n']) = trimEnd w := by
  have hblank : isBlank '\n' = true := by decide
  simp [trimEnd, hblank]

/-! ### Byte offsets -/

/-- The number of bytes of a text. -/
def size (cs : List Char) : Nat := (String.ofList cs).utf8ByteSize

/-- The part of a text between two byte offsets. There is none unless the offsets are in order, and
both lie within the text and not inside of a character. -/
def slice? (cs : List Char) (start stop : Nat) : Option (List Char) :=
  let s := String.ofList cs
  if start ≤ stop ∧ String.Pos.Raw.IsValid s ⟨start⟩ ∧ String.Pos.Raw.IsValid s ⟨stop⟩ then
    (Bytes.text? (((Bytes.ofText s).take stop).drop start)).map String.toList
  else none

@[simp] theorem size_append (a b : List Char) : size (a ++ b) = size a + size b := by
  rw [size, String.ofList_append, String.utf8ByteSize_append]
  rfl

theorem length_ofText (cs : List Char) : (Bytes.ofText (String.ofList cs)).length = size cs := rfl

/-- A text can be cut behind each of its beginnings. -/
theorem isValid_size (a b : List Char) :
    String.Pos.Raw.IsValid (String.ofList (a ++ b)) ⟨size a⟩ :=
  String.Pos.Raw.isValid_iff_exists_append.mpr
    ⟨String.ofList a, String.ofList b, String.ofList_append .., rfl⟩

/-- A part of a text is found between its offsets. -/
theorem slice?_append (a b c : List Char) :
    slice? (a ++ b ++ c) (size a) (size (a ++ b)) = some b := by
  have hstart : String.Pos.Raw.IsValid (String.ofList (a ++ b ++ c)) ⟨size a⟩ := by
    rw [List.append_assoc]
    exact isValid_size a (b ++ c)
  have hbytes : ((Bytes.ofText (String.ofList (a ++ b ++ c))).take (size (a ++ b))).drop (size a) =
      Bytes.ofText (String.ofList b) := by
    rw [String.ofList_append, Bytes.ofText_append, ← length_ofText (a ++ b), List.take_left,
      String.ofList_append, Bytes.ofText_append, ← length_ofText a, List.drop_left]
  rw [slice?, if_pos ⟨by simp, hstart, isValid_size (a ++ b) c⟩, hbytes, Bytes.text?_ofText,
    Option.map_some, String.toList_ofList]

end Text

namespace Document

open Text (lines size slice?)

/-! ### Files with front matter -/

/-- The lines that front matter begins with. -/
def openings : List (List Char) := [['-', '-', '-', '\n'], ['-', '-', '-', '\r', '\n']]

/-- A line of three dashes, which blanks may follow. -/
def IsFence (line : List Char) : Prop := Text.trimEnd line = ['-', '-', '-']

instance (line : List Char) : Decidable (IsFence line) := inferInstanceAs (Decidable (_ = _))

/-- The text without the byte order mark that it may begin with. -/
def unmarked (cs : List Char) : List Char := if cs.head? = some '\uFEFF' then cs.tail else cs

/-- The text has a first line of dashes, and another line of dashes below it. -/
def HasFront (t : List Char) : Prop :=
  ∃ opening ∈ openings, ∃ rest, t = opening ++ rest ∧ ∃ line ∈ lines rest, IsFence line

/-- The text is a first line of dashes, the front matter, the first line of dashes below it with its
line break, and the body. -/
structure IsParted (t opening front closing body : List Char) : Prop where
  /-- The first line is one of dashes. -/
  opening_mem : opening ∈ openings
  /-- Nothing is lost. -/
  eq_append : t = opening ++ front ++ closing ++ body
  /-- The front matter, the line below it and the body are made of whole lines. -/
  lines_eq : lines (front ++ closing ++ body) = lines front ++ closing :: lines body
  /-- The line below the front matter is one of dashes. -/
  isFence_closing : IsFence closing
  /-- No line of the front matter is one of dashes. -/
  not_isFence : ∀ line ∈ lines front, ¬ IsFence line

variable {t front body opening closing rest cs : List Char} {before after ls : List (List Char)}

theorem afterDashes?_eq_some_iff :
    afterDashes? t = some rest ↔ ∃ opening ∈ openings, t = opening ++ rest := by
  constructor
  · intro h
    unfold afterDashes? at h
    split at h
    · cases h
      exact ⟨_, List.mem_cons_self .., rfl⟩
    · cases h
      exact ⟨_, List.mem_cons_of_mem _ (List.mem_cons_self ..), rfl⟩
    · cases h
  · rintro ⟨opening, hopening, rfl⟩
    rcases List.mem_pair.mp hopening with rfl | rfl <;> rfl

/-- A text without a line break is front matter only if it is a line of dashes. -/
theorem splitAtDashes?_of_notMem (h : '\n' ∉ cs) :
    splitAtDashes? cs = if IsFence cs then some ([], []) else none := by
  have hpass : ∀ c ∈ cs, decide (c ≠ '\n') = true := fun c hc =>
    decide_eq_true fun heq => h (heq ▸ hc)
  have hline : cs.takeWhile (· ≠ '\n') = cs := List.takeWhile_eq_self_iff.mpr hpass
  have hrest : cs.dropWhile (· ≠ '\n') = [] := List.dropWhile_eq_nil_iff.mpr hpass
  rw [splitAtDashes?]
  split
  · rw [hline]
    rfl
  · next heq =>
    rw [hrest] at heq
    cases heq

/-- The first line of dashes ends the front matter. -/
theorem splitAtDashes?_of_lines (hlines : lines cs = before ++ closing :: after)
    (hclosing : IsFence closing) (hbefore : ∀ line ∈ before, ¬ IsFence line) :
    splitAtDashes? cs = some (before.flatten, after.flatten) := by
  -- on the lines that are passed over; the rest of the text begins with the next one
  induction before generalizing cs with
  | nil =>
    rcases Text.eq_of_lines_eq_cons hlines with ⟨w, r, hw, rfl, rfl, rfl⟩ | ⟨hcs, rfl, rfl⟩
    · rw [IsFence, Text.trimEnd_append_newline] at hclosing
      rw [splitAtDashes?_line hw, if_pos hclosing, Text.flatten_lines]
      rfl
    · rw [splitAtDashes?_of_notMem hcs, if_pos hclosing]
      rfl
  | cons line before ih =>
    rw [List.forall_mem_cons] at hbefore
    rcases Text.eq_of_lines_eq_cons hlines with ⟨w, r, hw, rfl, rfl, hr⟩ | ⟨-, -, hnil⟩
    · have hline := hbefore.1
      rw [IsFence, Text.trimEnd_append_newline] at hline
      rw [splitAtDashes?_line hw, if_neg hline, ih hr.symm hbefore.2]
      simp
    · cases List.append_eq_nil_iff.mp hnil |>.2

/-- Without a line of dashes there is no front matter. -/
theorem splitAtDashes?_eq_none (h : ∀ line ∈ lines cs, ¬ IsFence line) :
    splitAtDashes? cs = none := by
  induction hlines : lines cs generalizing cs with
  | nil =>
    have hcs : cs = [] := by rw [← Text.flatten_lines cs, hlines, List.flatten_nil]
    subst hcs
    rw [splitAtDashes?_of_notMem List.not_mem_nil, if_neg (by decide)]
  | cons line rest ih =>
    rw [hlines, List.forall_mem_cons] at h
    rcases Text.eq_of_lines_eq_cons hlines with ⟨w, r, hw, rfl, rfl, rfl⟩ | ⟨hcs, rfl, rfl⟩
    · have hline := h.1
      rw [IsFence, Text.trimEnd_append_newline] at hline
      rw [splitAtDashes?_line hw, if_neg hline, ih h.2 rfl]
      rfl
    · rw [splitAtDashes?_of_notMem hcs, if_neg h.1]

/-- Of some lines none is one of dashes, or there is a first one. -/
theorem exists_first_fence (ls : List (List Char)) :
    (∀ line ∈ ls, ¬ IsFence line) ∨
      ∃ before closing after, ls = before ++ closing :: after ∧ IsFence closing ∧
        ∀ line ∈ before, ¬ IsFence line := by
  cases hfind : ls.find? fun line => IsFence line with
  | none =>
    left
    intro line hline
    simpa using List.find?_eq_none.mp hfind line hline
  | some closing =>
    obtain ⟨hclosing, before, after, rfl, hbefore⟩ := List.find?_eq_some_iff_append.mp hfind
    exact Or.inr ⟨before, closing, after, rfl, by simpa using hclosing, by simpa using hbefore⟩

/-- The front matter ends at the first line of dashes. -/
theorem splitAtDashes?_eq_some_iff : splitAtDashes? cs = some (front, body) ↔
    ∃ closing, cs = front ++ closing ++ body ∧
      lines cs = lines front ++ closing :: lines body ∧ IsFence closing ∧
      ∀ line ∈ lines front, ¬ IsFence line := by
  constructor
  · intro h
    rcases exists_first_fence (lines cs) with
      hnone | ⟨before, closing, after, hls, hclosing, hfirst⟩
    · rw [splitAtDashes?_eq_none hnone] at h
      cases h
    · rw [splitAtDashes?_of_lines hls hclosing hfirst] at h
      cases h
      have hcs : cs = before.flatten ++ closing ++ after.flatten := by
        rw [← Text.flatten_lines cs, hls]
        simp
      have hbefore := (Text.lines_of_append hls).1
      rw [List.append_cons] at hls
      have hafter := (Text.lines_of_append hls).2
      refine ⟨closing, hcs, ?_, hclosing, ?_⟩
      · rw [hbefore, hafter, hls, ← List.append_cons]
      · rwa [hbefore]
  · -- the lines decide, so the parts can be no others
    rintro ⟨closing, -, hlines, hclosing, hfirst⟩
    rw [splitAtDashes?_of_lines hlines hclosing hfirst, Text.flatten_lines, Text.flatten_lines]

theorem exists_isParted_iff : (∃ opening closing, IsParted t opening front closing body) ↔
    (afterDashes? t).bind splitAtDashes? = some (front, body) := by
  rw [Option.bind_eq_some_iff]
  constructor
  · rintro ⟨opening, closing, h⟩
    refine ⟨front ++ closing ++ body, afterDashes?_eq_some_iff.mpr ⟨opening, h.opening_mem, ?_⟩,
      splitAtDashes?_eq_some_iff.mpr ⟨closing, rfl, h.lines_eq, h.isFence_closing, h.not_isFence⟩⟩
    rw [h.eq_append, List.append_assoc, List.append_assoc, List.append_assoc]
  · rintro ⟨rest, hrest, hsplit⟩
    obtain ⟨opening, hopening, rfl⟩ := afterDashes?_eq_some_iff.mp hrest
    obtain ⟨closing, rfl, hlines, hclosing, hfirst⟩ := splitAtDashes?_eq_some_iff.mp hsplit
    exact ⟨opening, closing, hopening, by simp, hlines, hclosing, hfirst⟩

/-- Front matter can be told from two lines of dashes. -/
theorem hasFront_iff :
    HasFront t ↔ ∃ front body opening closing, IsParted t opening front closing body := by
  constructor
  · rintro ⟨opening, hopening, rest, rfl, line, hline, hfence⟩
    rcases exists_first_fence (lines rest) with
      hnone | ⟨before, closing, after, hls, hclosing, hfirst⟩
    · exact absurd hfence (hnone line hline)
    · refine ⟨before.flatten, after.flatten, exists_isParted_iff.mpr ?_⟩
      rw [afterDashes?_eq_some_iff.mpr ⟨opening, hopening, rfl⟩, Option.bind_some,
        splitAtDashes?_of_lines hls hclosing hfirst]
  · rintro ⟨front, body, opening, closing, h⟩
    refine ⟨opening, h.opening_mem, front ++ closing ++ body, ?_, closing, ?_, h.isFence_closing⟩
    · rw [h.eq_append, List.append_assoc, List.append_assoc, List.append_assoc]
    · rw [h.lines_eq]
      simp

/-- What a file is split into. -/
theorem splitFront_eq (cs : List Char) : splitFront cs =
    ((afterDashes? (unmarked cs)).bind splitAtDashes?).elim (none, unmarked cs)
      fun (front, body) => (some front, body) := by
  rw [splitFront, ← unmarked]
  cases (afterDashes? (unmarked cs)).bind splitAtDashes? <;> rfl

/-! ### Cuts at byte offsets -/

/-- The byte offsets at which the first line of dashes begins and ends, if the first line begins at
the given one. -/
def fence? (offset : Nat) : List (List Char) → Option (Nat × Nat)
  | [] => none
  | line :: rest =>
    if IsFence line then some (offset, offset + size line) else fence? (offset + size line) rest

/-- The parts of a Markdown file, cut out at byte offsets; none if a cut is not possible. -/
def splitAtOffsets? (cs : List Char) : Option (Option (List Char) × List Char) :=
  let t := unmarked cs
  match afterDashes? t with
  | none => some (none, t)
  | some rest =>
    match fence? 0 (lines rest) with
    | none => some (none, t)
    | some (start, stop) => do
      let front ← slice? rest 0 start
      let body ← slice? rest stop (size rest)
      return (some front, body)

theorem fence?_eq_none {offset : Nat} (h : ∀ line ∈ ls, ¬ IsFence line) :
    fence? offset ls = none := by
  induction ls generalizing offset with
  | nil => rfl
  | cons line ls ih =>
    rw [List.forall_mem_cons] at h
    rw [fence?, if_neg h.1, ih h.2]

/-- The bytes of the lines before it add up to the offset of the first line of dashes. -/
theorem fence?_append_cons {offset : Nat} (hclosing : IsFence closing)
    (hbefore : ∀ line ∈ before, ¬ IsFence line) : fence? offset (before ++ closing :: after) =
      some (offset + size before.flatten, offset + size before.flatten + size closing) := by
  induction before generalizing offset with
  | nil =>
    rw [List.nil_append, fence?, if_pos hclosing]
    rfl
  | cons line before ih =>
    rw [List.forall_mem_cons] at hbefore
    rw [List.cons_append, fence?, if_neg hbefore.1, ih hbefore.2, List.flatten_cons,
      Text.size_append, Nat.add_assoc offset]

/-- Cuts at byte offsets are possible, and give the same parts. -/
theorem splitAtOffsets?_eq (cs : List Char) : splitAtOffsets? cs = some (splitFront cs) := by
  rw [splitAtOffsets?, splitFront_eq]
  cases afterDashes? (unmarked cs) with
  | none => rfl
  | some rest =>
    rcases exists_first_fence (lines rest) with
      hnone | ⟨before, closing, after, hls, hclosing, hfirst⟩
    · simp [fence?_eq_none hnone, splitAtDashes?_eq_none hnone]
    · have hrest : rest = before.flatten ++ closing ++ after.flatten := by
        rw [← Text.flatten_lines rest, hls]
        simp
      have hfront : slice? rest 0 (size before.flatten) = some before.flatten := by
        rw [hrest, List.append_assoc]
        exact Text.slice?_append [] before.flatten (closing ++ after.flatten)
      have hbody : slice? rest (size before.flatten + size closing) (size rest) =
          some after.flatten := by
        have := Text.slice?_append (before.flatten ++ closing) after.flatten []
        rwa [List.append_nil, ← hrest, Text.size_append] at this
      have hfence : fence? 0 (lines rest) =
          some (size before.flatten, size before.flatten + size closing) := by
        rw [hls, fence?_append_cons hclosing hfirst, Nat.zero_add]
      simp [hfence, hfront, hbody, splitAtDashes?_of_lines hls hclosing hfirst]

/-- **Front matter is found exactly where it is, and nothing is lost.** A text, without the byte
order mark that it may begin with, is split into front matter and body exactly if it is a first line
of dashes, the front matter, the first line of dashes below it with its line break, and the body.
That is so whenever it has a first line of dashes and another one below it; any other text is a
body. The parts can be cut out at the byte offsets at which their lines begin and end. -/
theorem splitFront_exact (cs : List Char) :
    (∀ front body, splitFront cs = (some front, body) ↔
      ∃ opening closing, IsParted (unmarked cs) opening front closing body) ∧
    (HasFront (unmarked cs) ↔
      ∃ front body opening closing, IsParted (unmarked cs) opening front closing body) ∧
    (splitFront cs = (none, unmarked cs) ↔ ¬ HasFront (unmarked cs)) ∧
    splitAtOffsets? cs = some (splitFront cs) := by
  have hsome (front body : List Char) : splitFront cs = (some front, body) ↔
      ∃ opening closing, IsParted (unmarked cs) opening front closing body := by
    rw [exists_isParted_iff, splitFront_eq]
    cases (afterDashes? (unmarked cs)).bind splitAtDashes? with
    | none => simp
    | some parts => simp [Prod.ext_iff]
  refine ⟨hsome, hasFront_iff, ?_, splitAtOffsets?_eq cs⟩
  simp only [hasFront_iff, ← hsome]
  rw [splitFront_eq]
  cases (afterDashes? (unmarked cs)).bind splitAtDashes? with
  | none => simp
  | some parts => simp

end Document

end ContentIndex
