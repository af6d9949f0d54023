import Mathlib.Data.List.DropRight
import ContentIndex.Proofs.Canonical

/-!
# Writing a Markdown file back

A Markdown file that is written from what was read holds the same document, if what is written as
YAML is read back and the text is kept apart from it. The text of a file begins with no line break
and is not blank, or else it is left out; but a text that stands as an entry in the front matter can
be so, and loses its line breaks when it is written below.

## Main definitions

* `Document.settle`: a document as its file is read back
* `Document.Apart`: the parts of the file are told apart
* `Document.IsOwnEntry`: the text is an entry of the front matter

## Main results

* `Document.splitFront_fenced`: front matter is found again between its lines of dashes
* `Document.parse_print_markdown`: **what is read after writing back is what was read before**, but
  for line breaks that begin an entry of the front matter
-/

namespace ContentIndex

open Json (Value)

namespace Document

/-! ### Front matter -/

section Front

variable {line front rest body : List Char}

/-- The first line of a text is tried, and then the next. -/
theorem splitAtDashes?_line (h : '\n' ∉ line) : splitAtDashes? (line ++ '\n' :: rest) =
    if Text.trimEnd line = ['-', '-', '-'] then some ([], rest)
    else (splitAtDashes? rest).map fun (front, body) => (line ++ '\n' :: front, body) := by
  have hpass : ∀ c ∈ line, decide (c ≠ '\n') = true := fun c hc =>
    decide_eq_true fun heq => h (heq ▸ hc)
  have hline : (line ++ '\n' :: rest).takeWhile (· ≠ '\n') = line := by
    rw [List.takeWhile_append_of_pos hpass]
    simp
  have hrest : (line ++ '\n' :: rest).dropWhile (· ≠ '\n') = '\n' :: rest := by
    rw [List.dropWhile_append_of_pos hpass]
    simp
  rw [splitAtDashes?]
  split
  · next heq => rw [hrest] at heq; cases heq
  · next heq =>
    rw [hrest] at heq
    cases heq
    rw [hline]

/-- The front matter ends at the first line of dashes. -/
theorem splitAtDashes?_append (hend : front = [] ∨ front.getLast? = some '\n')
    (hlines : ∀ line ∈ front.splitOn '\n', Text.trimEnd line ≠ ['-', '-', '-']) :
    splitAtDashes? (front ++ (['-', '-', '-'] ++ '\n' :: body)) = some (front, body) := by
  induction hlength : front.length using Nat.strong_induction_on generalizing front with
  | _ n ih =>
    rcases hend with rfl | hend
    · rw [List.nil_append, splitAtDashes?_line (by decide), if_pos (by decide)]
    · obtain ⟨line, front, rfl, hline⟩ := List.eq_append_cons_of_mem (List.mem_of_getLast? hend)
      have hsplit : (line ++ '\n' :: front).splitOn '\n' = line :: front.splitOn '\n' :=
        List.splitOnP_append_cons_of_forall_mem
          (fun c hc => beq_eq_false_iff_ne.mpr fun heq : c = '\n' => hline (heq ▸ hc)) _
          (by decide) _
      rw [hsplit, List.forall_mem_cons] at hlines
      have hfront : front = [] ∨ front.getLast? = some '\n' := by
        cases front with
        | nil => exact Or.inl rfl
        | cons c front =>
          rw [List.getLast?_append] at hend
          simpa using hend
      have hshorter : front.length < n := by
        rw [← hlength, List.length_append, List.length_cons]
        omega
      rw [List.append_assoc, List.cons_append, splitAtDashes?_line hline, if_neg hlines.1,
        ih _ hshorter hfront hlines.2 rfl]
      rfl

/-- **Front matter is found again between its lines of dashes.** -/
theorem splitFront_fenced (body : List Char) (hend : front.getLast? = some '\n')
    (hlines : ∀ line ∈ front.splitOn '\n', Text.trimEnd line ≠ ['-', '-', '-']) :
    splitFront (['-', '-', '-', '\n'] ++ front ++ ['-', '-', '-', '\n'] ++ body) =
      (some front, body) := by
  have hrest : ['-', '-', '-', '\n'] ++ front ++ ['-', '-', '-', '\n'] ++ body =
      '-' :: '-' :: '-' :: '\n' :: (front ++ (['-', '-', '-'] ++ '\n' :: body)) := by simp
  rw [hrest, splitFront, if_neg (by simp), afterDashes?, Option.bind_some,
    splitAtDashes?_append (Or.inr hend) hlines]

/-- A text without front matter and byte order mark is a file of its own. -/
theorem splitFront_of_eq_none (hmark : body.head? ≠ some '\uFEFF')
    (hnone : (splitFront body).1 = none) : splitFront body = (none, body) := by
  rw [splitFront, if_neg hmark] at hnone ⊢
  split at hnone
  · cases hnone
  · rfl

end Front

/-! ### The text -/

/-- A text without the line breaks that it begins with. -/
def unbroken (cs : List Char) : List Char := cs.dropWhile fun c => c = '\r' || c = '\n'

/-- The members of a file with a text beside them; a text of blanks is left out. -/
def withText (bodyField : String) (cs : List Char) (ms : List (String × Value)) :
    List (String × Value) :=
  if (unbroken cs).all Text.isBlank then ms
  else Entries.insert bodyField (.string (String.ofList (unbroken cs))) ms

/-- The text of a document. -/
def textOf (bodyField : String) (ms : List (String × Value)) : List Char :=
  match Entries.find? bodyField ms with
  | some (.string s) => s.toList
  | _ => []

/-- The document as its file is read back: the text without the line breaks that it begins with, and
left out if it is blank. -/
def settle (bodyField : String) (ms : List (String × Value)) : List (String × Value) :=
  withText bodyField (textOf bodyField ms) (Entries.erase bodyField ms)

/-- The text is blank, or it begins with a line break. -/
def IsLoose (s : String) : Prop := s.toList.all Text.isBlank ∨ unbroken s.toList ≠ s.toList

/-- The text is an entry of the front matter in a file. -/
structure IsOwnEntry (bodyField : String) (content : Bytes) (ms : List (String × Value))
    (s : String) : Prop where
  /-- The front matter holds the whole document. -/
  front : ∃ text yaml, content.text? = some text ∧ (splitFront text.toList).1 = some yaml ∧
    yamlMembers yaml = .ok ms
  /-- The text is one of its members. -/
  text : Entries.find? bodyField ms = some (.string s)

/-- The parts of the file of a document are told apart: the last line of the front matter is ended,
and a text that is all of the file begins with no byte order mark and no front matter. -/
structure Apart (bodyField : String) (ms : List (String × Value)) : Prop where
  closed : Entries.erase bodyField ms ≠ [] →
    (Yaml.print (Entries.erase bodyField ms)).getLast? = some '\n'
  unmarked : Entries.erase bodyField ms = [] → (textOf bodyField ms).head? ≠ some '\uFEFF'
  unfenced : Entries.erase bodyField ms = [] → (splitFront (textOf bodyField ms)).1 = none

variable {bodyField path : String} {content : Bytes} {cs : List Char} {s : String}
  {ms : List (String × Value)}

/-- A file is read as the members of its front matter with its text beside them. -/
theorem markdownMembers_eq_ok_iff : markdownMembers bodyField cs = .ok ms ↔
    ∃ front, (splitFront cs).1.elim (.ok []) yamlMembers = .ok front ∧
      withText bodyField (splitFront cs).2 front = ms := by
  unfold markdownMembers
  generalize splitFront cs = parts
  obtain ⟨front, rest⟩ := parts
  constructor
  · intro h
    cases front with
    | none => exact ⟨[], rfl, Except.ok.inj h⟩
    | some yaml =>
      obtain ⟨front, hfront, h⟩ := exists_of_bind_eq_ok h
      exact ⟨front, hfront, Except.ok.inj h⟩
  · rintro ⟨members, hmembers, rfl⟩
    cases front with
    | none =>
      cases hmembers
      rfl
    | some yaml =>
      rw [Option.elim_some] at hmembers
      show (yamlMembers yaml >>= _) = _
      rw [hmembers]
      rfl

theorem parse_markdown_eq_ok_iff (hformat : DocumentFormat.ofPath? path = some .markdown) :
    parse bodyField path content = .ok ms ↔
      ∃ text, content.text? = some text ∧ markdownMembers bodyField text.toList = .ok ms := by
  unfold parse
  rw [hformat]
  cases content.text? with
  | none => exact ⟨nofun, nofun⟩
  | some text =>
    refine ⟨fun h => ⟨text, rfl, eq_ok_of_mapError h⟩, ?_⟩
    rintro ⟨_, ⟨⟩, h⟩
    show Except.mapError _ (markdownMembers bodyField text.toList) = _
    rw [h]
    rfl

/-- A text that is not loose is put beside the members as it is. -/
theorem withText_of_not_isLoose (h : ¬ IsLoose s) :
    withText bodyField s.toList ms = Entries.insert bodyField (.string s) ms := by
  obtain ⟨hblank, hbreak⟩ := not_or.mp h
  rw [withText, not_not.mp hbreak, if_neg hblank, String.ofList_toList]

/-- A text that stands below the front matter is left out, or it is not loose once it is read. -/
theorem withText_cases : withText bodyField cs ms = ms ∨
    ∃ s, ¬ IsLoose s ∧ withText bodyField cs ms = Entries.insert bodyField (.string s) ms := by
  unfold withText
  split
  · exact Or.inl rfl
  · next hblank =>
    refine Or.inr ⟨_, ?_, rfl⟩
    rw [IsLoose, String.toList_ofList]
    exact not_or.mpr ⟨hblank, not_not.mpr (List.dropWhile_idempotent ..)⟩

/-- A document whose text is not loose is read back as it is. -/
theorem settle_of_not_isLoose (hsorted : Entries.Sorted ms)
    (h : ∀ v ∈ Entries.find? bodyField ms, ∃ s, v = .string s ∧ ¬ IsLoose s) :
    settle bodyField ms = ms := by
  unfold settle textOf
  cases hfind : Entries.find? bodyField ms with
  | none => exact Entries.erase_of_find?_eq_none hfind
  | some v =>
    obtain ⟨s, rfl, hs⟩ := h v hfind
    rw [withText_of_not_isLoose hs, Entries.insert_erase hsorted hfind]

/-- What a file was read as is not changed by its own file, unless its text is a loose entry of the
front matter. -/
theorem settle_cases (hformat : DocumentFormat.ofPath? path = some .markdown)
    (hparse : parse bodyField path content = .ok ms)
    (hbody : ∀ v ∈ Entries.find? bodyField ms, ∃ s, v = .string s) :
    settle bodyField ms = ms ∨ ∃ s, IsOwnEntry bodyField content ms s ∧ IsLoose s := by
  have hsorted : Entries.Sorted ms := (isCanonical_of_parse hparse).1
  obtain ⟨text, htext, hmembers⟩ := (parse_markdown_eq_ok_iff hformat).mp hparse
  obtain ⟨front, hfront, hms⟩ := markdownMembers_eq_ok_iff.mp hmembers
  rcases withText_cases with hout | ⟨s, hs, hin⟩
  · -- no text stands below the front matter, so the whole document is in it
    obtain rfl : front = ms := hout.symm.trans hms
    by_cases hloose : ∃ s, Entries.find? bodyField front = some (.string s) ∧ IsLoose s
    · obtain ⟨s, hfind, hs⟩ := hloose
      cases hyaml : (splitFront text.toList).1 with
      | none =>
        rw [hyaml] at hfront
        cases hfront
        cases hfind
      | some yaml =>
        rw [hyaml] at hfront
        exact Or.inr ⟨s, ⟨⟨text, yaml, htext, hyaml, hfront⟩, hfind⟩, hs⟩
    · refine Or.inl (settle_of_not_isLoose hsorted fun v hv => ?_)
      obtain ⟨s, rfl⟩ := hbody v hv
      exact ⟨s, rfl, fun hs => hloose ⟨s, hv, hs⟩⟩
  · obtain rfl := hin.symm.trans hms
    refine Or.inl (settle_of_not_isLoose hsorted fun v hv => ⟨s, ?_, hs⟩)
    rw [Entries.find?_insert, if_pos rfl] at hv
    exact (Option.some.inj hv).symm

/-- The file of a document whose text is a string. -/
theorem printMarkdown_eq (hbody : ∀ v ∈ Entries.find? bodyField ms, ∃ s, v = .string s) :
    printMarkdown bodyField ms = .ok ((if (Entries.erase bodyField ms).isEmpty then []
      else ['-', '-', '-', '\n'] ++ Yaml.print (Entries.erase bodyField ms) ++
        ['-', '-', '-', '\n']) ++ textOf bodyField ms) := by
  unfold printMarkdown textOf
  cases hfind : Entries.find? bodyField ms with
  | none => rfl
  | some v =>
    obtain ⟨s, rfl⟩ := hbody v hfind
    rfl

/-- The file of a document is told apart into its front matter and its text. -/
theorem markdownMembers_of_apart (h : Apart bodyField ms)
    (hbody : ∀ v ∈ Entries.find? bodyField ms, ∃ s, v = .string s)
    (hread : yamlMembers (Yaml.print (Entries.erase bodyField ms)) =
      .ok (Entries.erase bodyField ms))
    (hlines : ∀ line ∈ (Yaml.print (Entries.erase bodyField ms)).splitOn '\n',
      Text.trimEnd line ≠ ['-', '-', '-'])
    (hprint : printMarkdown bodyField ms = .ok cs) :
    markdownMembers bodyField cs = .ok (settle bodyField ms) := by
  rw [printMarkdown_eq hbody] at hprint
  cases hprint
  by_cases hempty : Entries.erase bodyField ms = []
  · have hsplit := splitFront_of_eq_none (h.unmarked hempty) (h.unfenced hempty)
    refine markdownMembers_eq_ok_iff.mpr ⟨[], ?_, ?_⟩
    · rw [hempty, List.isEmpty_nil, if_pos rfl, List.nil_append, hsplit]
      rfl
    · rw [hempty, List.isEmpty_nil, if_pos rfl, List.nil_append, hsplit, settle, hempty]
  · have hsplit := splitFront_fenced (textOf bodyField ms) (h.closed hempty) hlines
    refine markdownMembers_eq_ok_iff.mpr ⟨Entries.erase bodyField ms, ?_, ?_⟩
    · rw [if_neg (by rwa [List.isEmpty_iff]), hsplit]
      exact hread
    · rw [if_neg (by rwa [List.isEmpty_iff]), hsplit]
      rfl

theorem print_markdown (hformat : DocumentFormat.ofPath? path = some .markdown)
    (h : printMarkdown bodyField ms = .ok cs) :
    print bodyField path (.object ms) = .ok (Bytes.ofText (String.ofList cs)) := by
  unfold print
  rw [hformat]
  show Except.mapError _ (printMarkdown bodyField ms >>= _) = _
  rw [h]
  rfl

/-- **What is read after writing back is what was read before**, but for a blank text or line breaks
before a text that are an entry of the front matter. -/
theorem parse_print_markdown (hformat : DocumentFormat.ofPath? path = some .markdown)
    (hparse : parse bodyField path content = .ok ms)
    (hbody : ∀ v ∈ Entries.find? bodyField ms, ∃ s, v = .string s)
    (hread : yamlMembers (Yaml.print (Entries.erase bodyField ms)) =
      .ok (Entries.erase bodyField ms))
    (hlines : ∀ line ∈ (Yaml.print (Entries.erase bodyField ms)).splitOn '\n',
      Text.trimEnd line ≠ ['-', '-', '-']) :
    ∃ file, print bodyField path (.object ms) = .ok file ∧
      (Apart bodyField ms → parse bodyField path file = .ok (settle bodyField ms)) ∧
      (settle bodyField ms = ms ∨ ∃ s, IsOwnEntry bodyField content ms s ∧ IsLoose s) := by
  have hprint := printMarkdown_eq hbody
  refine ⟨_, print_markdown hformat hprint, fun hapart => ?_, settle_cases hformat hparse hbody⟩
  refine (parse_markdown_eq_ok_iff hformat).mpr ⟨_, Bytes.text?_ofText _, ?_⟩
  rw [String.toList_ofList]
  exact markdownMembers_of_apart hapart hbody hread hlines hprint

/-! ### Examples of notes -/

section Notes

/-- A note with a title and a text. -/
def greeting : String := "---\ntitle: x\n---\n\nText\n"

/-- A note with a title whose text is an empty entry of its front matter. -/
def emptyEntry : String := "---\nbody: ''\ntitle: x\n---\n"

theorem parse_greeting : parse "body" "a.md" (Bytes.ofText greeting) =
    .ok [("body", .string "Text\n"), ("title", .string "x")] := by
  refine eq_ok_of_toOption ?_
  decide +kernel

theorem parse_emptyEntry : parse "body" "a.md" (Bytes.ofText emptyEntry) =
    .ok [("body", .string ""), ("title", .string "x")] := by
  refine eq_ok_of_toOption ?_
  decide +kernel

theorem print_title : Yaml.print [("title", .string "x")] = "title: x\n".toList := by
  rw [Yaml.print, Yaml.Printer.memberEntries, Yaml.Printer.memberEntries]
  · decide +kernel
  · intro items h
    cases h
  · intro h
    cases h

theorem yamlMembers_title : yamlMembers (Yaml.print [("title", .string "x")]) =
    .ok [("title", .string "x")] := by
  rw [print_title]
  refine eq_ok_of_toOption ?_
  decide +kernel

theorem trimEnd_title : ∀ line ∈ (Yaml.print [("title", .string "x")]).splitOn '\n',
    Text.trimEnd line ≠ ['-', '-', '-'] := by
  rw [print_title]
  decide +kernel

/-- The greeting is read back as it is. -/
theorem parse_print_greeting : ∃ file,
    print "body" "a.md" (.object [("body", .string "Text\n"), ("title", .string "x")]) =
      .ok file ∧
    parse "body" "a.md" file = .ok [("body", .string "Text\n"), ("title", .string "x")] := by
  obtain ⟨file, hfile, hback, -⟩ := parse_print_markdown (by decide) parse_greeting
    (fun v hv => ⟨"Text\n", (Option.some.inj hv).symm⟩) yamlMembers_title trimEnd_title
  refine ⟨file, hfile, hback ⟨fun _ => ?_, nofun, nofun⟩⟩
  show (Yaml.print [("title", .string "x")]).getLast? = _
  rw [print_title]
  decide

/-- The empty entry is not read back, though its front matter is. -/
theorem parse_print_emptyEntry :
    parse "body" "a.md" (Bytes.ofText emptyEntry) =
      .ok [("body", .string ""), ("title", .string "x")] ∧
    yamlMembers (Yaml.print [("title", .string "x")]) = .ok [("title", .string "x")] ∧
    (∀ line ∈ (Yaml.print [("title", .string "x")]).splitOn '\n',
      Text.trimEnd line ≠ ['-', '-', '-']) ∧
    ¬ ∃ file, print "body" "a.md" (.object [("body", .string ""), ("title", .string "x")]) =
      .ok file ∧
      parse "body" "a.md" file = .ok [("body", .string ""), ("title", .string "x")] := by
  refine ⟨parse_emptyEntry, yamlMembers_title, trimEnd_title, ?_⟩
  rintro ⟨file, hfile, hback⟩
  have hprint : printMarkdown "body" [("body", .string ""), ("title", .string "x")] =
      .ok ("---\n".toList ++ Yaml.print [("title", .string "x")] ++ "---\n".toList ++ []) :=
    printMarkdown_eq fun v hv => ⟨"", (Option.some.inj hv).symm⟩
  obtain rfl := Except.ok.inj ((print_markdown (by decide) hprint).symm.trans hfile)
  rw [print_title] at hback
  have hdropped : parse "body" "a.md" (Bytes.ofText (String.ofList ("---\n".toList ++
      "title: x\n".toList ++ "---\n".toList ++ []))) = .ok [("title", .string "x")] := by
    refine eq_ok_of_toOption ?_
    decide +kernel
  exact absurd (congrArg List.length (Except.ok.inj (hdropped.symm.trans hback))) (by decide)

end Notes

end Document

end ContentIndex
