import ContentIndex.Proofs.CapitalNames

/-!
# Reading the schema definition language

The text of a schema is read line after line, and a line word after word. A line with a keyword
begins a declaration; the lines with two blanks in front that follow it are its fields.

## Main definitions

* `Graph.Declaration`: scalars, object types and unions
* `Graph.declarations`: what a text declares
* `Graph.definedTypes`, `Graph.queryFields`: the names of types in a text, and the fields of queries
* `Graph.Declares`, `Graph.GivesFields`: parts of a text that declare types, or give fields to one

## Main results

* `Graph.Declares.append`, `Graph.GivesFields.append`: parts of a text are read one after another
* `Graph.declares_objectText`, `Graph.declares_unionText`: **object types and unions are read as they
  are written**
-/

namespace ContentIndex

namespace Graph

open Text (Plain IsNameChar)

/-! ### The reader -/

/-- A declaration in the schema definition language. -/
inductive Declaration
  | scalar (name : String)
  /-- An object type, with the names and the types of its fields. -/
  | object (name : String) (fields : List (String × String))
  | union (name : String) (members : List String)
  deriving DecidableEq

namespace Declaration

/-- The name that is declared. -/
def name : Declaration → String
  | .scalar name | .object name _ | .union name _ => name

/-- The types that are used. -/
def uses : Declaration → List String
  | .scalar _ => []
  | .object _ fields => fields.map (·.2)
  | .union _ members => members

/-- The fields of queries. -/
def queries : Declaration → List String
  | .object name fields => if name = "Query" then fields.map (·.1) else []
  | _ => []

end Declaration

/-- The words of a line. -/
def wordsOf (line : List Char) : List String := (line.splitOn ' ').map String.ofList

/-- The type without the marks of lists and of values that are always there. -/
def baseType (type : String) : String :=
  String.ofList (type.toList.filter fun c => c ≠ '[' && c ≠ ']' && c ≠ '!')

/-- The name of a field, which ends before its arguments or its type. -/
def fieldName (word : String) : String :=
  String.ofList (word.toList.takeWhile fun c => c ≠ ':' && c ≠ '(')

/-- What is read from some lines: the fields at the front, and the declarations after them. -/
abbrev Reading := List (String × String) × List Declaration

/-- What is read with one more line in front. -/
def Reading.line (rest : Reading) : List String → Reading
  | ["scalar", name] => ([], .scalar name :: rest.2)
  | ["type", name, "\x7b"] => ([], .object name rest.1 :: rest.2)
  | "union" :: name :: "=" :: members => ([], .union name (members.filter (· ≠ "|")) :: rest.2)
  | "" :: "" :: field :: type => ((fieldName field, baseType (type.getLastD "")) :: rest.1, rest.2)
  | _ => ([], rest.2)

/-- What is read from a text. -/
def reading (text : List Char) : Reading :=
  (text.splitOn '\n').foldr (fun line rest => rest.line (wordsOf line)) ([], [])

/-- What a text declares. -/
def declarations (text : String) : List Declaration := (reading text.toList).2

/-- The scalars that every schema has. -/
def builtInTypes : List String := ["Int", "Float", "String", "Boolean", "ID"]

/-- The names of the types that are defined where the text is read. -/
def definedTypes (text : String) : List String := builtInTypes ++ (declarations text).map (·.name)

/-- The names of the fields of queries. -/
def queryFields (text : String) : List String := (declarations text).flatMap Declaration.queries

/-! ### Words -/

theorem wordsOf_append {word : List Char} (h : ' ' ∉ word) (rest : List Char) :
    wordsOf (word ++ ' ' :: rest) = String.ofList word :: wordsOf rest := by
  rw [wordsOf, List.splitOn_append_cons_self_of_not_mem h, List.map_cons, wordsOf]

theorem wordsOf_of_not_mem {word : List Char} (h : ' ' ∉ word) :
    wordsOf word = [String.ofList word] := by
  rw [wordsOf, List.splitOn_eq_singleton h, List.map_singleton]

/-- The words of a list with bars between its items. -/
theorem wordsOf_intercalate {member : String} {members : List String}
    (h : ∀ m ∈ member :: members, Plain m) : wordsOf (" | ".intercalate (member :: members)).toList =
      member :: members.flatMap fun m => ["|", m] := by
  have hspace {m : String} (hm : Plain m) : ' ' ∉ m.toList := hm.not_mem (by decide)
  induction members generalizing member with
  | nil =>
    rw [String.intercalate_singleton, wordsOf_of_not_mem (hspace (h _ (List.mem_cons_self ..))),
      String.ofList_toList]
    rfl
  | cons next members ih =>
    obtain ⟨hmember, hmembers⟩ := List.forall_mem_cons.mp h
    have hline : (" | ".intercalate (member :: next :: members)).toList =
        member.toList ++ ' ' :: (['|'] ++ ' ' :: (" | ".intercalate (next :: members)).toList) := by
      rw [String.intercalate_cons_cons, String.toList_append, String.toList_append, List.append_assoc]
      rfl
    rw [hline, wordsOf_append (hspace hmember), wordsOf_append (by decide), ih hmembers,
      String.ofList_toList]
    rfl

/-- The bars between the items do not count. -/
theorem filter_bars {members : List String} (h : ∀ m ∈ members, m ≠ "|") :
    (members.flatMap fun m => ["|", m]).filter (· ≠ "|") = members := by
  induction members with
  | nil => rfl
  | cons m members ih =>
    obtain ⟨hm, hmembers⟩ := List.forall_mem_cons.mp h
    rw [List.flatMap_cons, List.filter_append, ih hmembers]
    simp [hm]

theorem not_mem_intercalate {c : Char} {separator : String} (hc : c ∉ separator.toList)
    {items : List String} (h : ∀ s ∈ items, c ∉ s.toList) :
    c ∉ (separator.intercalate items).toList := by
  induction items with
  | nil => simp
  | cons s items ih =>
    obtain ⟨hs, hitems⟩ := List.forall_mem_cons.mp h
    cases items with
    | nil => simpa using hs
    | cons t items =>
      rw [String.intercalate_cons_cons, String.toList_append, String.toList_append]
      simp only [List.mem_append, not_or]
      exact ⟨⟨hs, hc⟩, ih hitems⟩

theorem baseType_of_plain {type : String} (h : Plain type) : baseType type = type := by
  rw [baseType, List.filter_eq_self.mpr, String.ofList_toList]
  intro c hc
  have hname := h c hc
  have hbar : c ≠ '[' ∧ c ≠ ']' ∧ c ≠ '!' := by
    refine ⟨?_, ?_, ?_⟩ <;>
    · rintro rfl
      exact absurd hname (by decide)
  simp [hbar]

theorem fieldName_append {name : String} (h : Plain name) {c : Char} (hc : c = ':' ∨ c = '(')
    (rest : List Char) : fieldName (String.ofList (name.toList ++ c :: rest)) = name := by
  have hname : ∀ d ∈ name.toList, (decide (d ≠ ':') && decide (d ≠ '(')) = true := by
    intro d hd
    have hd' := h d hd
    have hmark : d ≠ ':' ∧ d ≠ '(' := by
      refine ⟨?_, ?_⟩ <;>
      · rintro rfl
        exact absurd hd' (by decide)
    simp [hmark]
  rw [fieldName, String.toList_ofList, List.takeWhile_append_of_pos hname,
    List.takeWhile_cons_of_neg (by rcases hc with rfl | rfl <;> decide), List.append_nil,
    String.ofList_toList]

/-! ### Lines -/

theorem reading_line {line : List Char} (h : '\n' ∉ line) (rest : List Char) :
    reading (line ++ '\n' :: rest) = (reading rest).line (wordsOf line) := by
  rw [reading, List.splitOn_append_cons_self_of_not_mem h, List.foldr_cons, reading]

/-- The part of a text declares types, whatever follows it. -/
def Declares (text : String) (ds : List Declaration) : Prop :=
  ∀ rest, (reading (text.toList ++ rest)).2 = ds ++ (reading rest).2

/-- The part of a text gives fields to the type that is declared before it. -/
def GivesFields (text : String) (fields : List (String × String)) : Prop :=
  ∀ rest, reading (text.toList ++ rest) = (fields ++ (reading rest).1, (reading rest).2)

variable {text text' name type : String} {ds ds' : List Declaration}
  {fields fields' : List (String × String)} {members : List String}

theorem Declares.eq (h : Declares text ds) : declarations text = ds := by
  have hall := h []
  rwa [List.append_nil, show (reading []).2 = [] from rfl, List.append_nil] at hall

theorem declares_empty : Declares "" [] := fun _ => rfl

theorem givesFields_empty : GivesFields "" [] := fun _ => rfl

theorem Declares.append (h : Declares text ds) (h' : Declares text' ds') :
    Declares (text ++ text') (ds ++ ds') := by
  intro rest
  rw [String.toList_append, List.append_assoc, h, h', List.append_assoc]

theorem GivesFields.append (h : GivesFields text fields) (h' : GivesFields text' fields') :
    GivesFields (text ++ text') (fields ++ fields') := by
  intro rest
  rw [String.toList_append, List.append_assoc, h, h', List.append_assoc]

/-- The parts of a list are read one after another. -/
theorem declares_join {α : Type} {l : List α} {f : α → String} {g : α → List Declaration}
    (h : ∀ a ∈ l, Declares (f a) (g a)) : Declares (String.join (l.map f)) (l.flatMap g) := by
  induction l with
  | nil => exact declares_empty
  | cons a l ih =>
    obtain ⟨ha, hl⟩ := List.forall_mem_cons.mp h
    rw [List.map_cons, String.join_cons, List.flatMap_cons]
    exact ha.append (ih hl)

theorem givesFields_join {α : Type} {l : List α} {f : α → String} {g : α → List (String × String)}
    (h : ∀ a ∈ l, GivesFields (f a) (g a)) :
    GivesFields (String.join (l.map f)) (l.flatMap g) := by
  induction l with
  | nil => exact givesFields_empty
  | cons a l ih =>
    obtain ⟨ha, hl⟩ := List.forall_mem_cons.mp h
    rw [List.map_cons, String.join_cons, List.flatMap_cons]
    exact ha.append (ih hl)

/-- A line that is no field gives the declaration that its words make. -/
theorem declares_line {line : String} {words : List String} (hline : '\n' ∉ line.toList)
    (hwords : wordsOf line.toList = words) (hds : ∀ rest, (Reading.line rest words).2 = ds ++ rest.2) :
    Declares (line ++ "\n") ds := by
  intro rest
  have htext : (line ++ "\n").toList ++ rest = line.toList ++ '\n' :: rest := by simp
  rw [htext, reading_line hline, hwords, hds]

theorem declares_blank : Declares "\n" [] := by
  have hblank : Declares ("" ++ "\n") [] := declares_line (by decide) rfl fun _ => rfl
  exact hblank

/-! ### Fields -/

/-- A line with two blanks in front gives the field of its first word and its last one. -/
theorem givesFields_line {line word : String} {others : List String} (hline : '\n' ∉ line.toList)
    (hwords : wordsOf line.toList = "" :: "" :: word :: others) :
    GivesFields (line ++ "\n") [(fieldName word, baseType (others.getLastD ""))] := by
  intro rest
  have htext : (line ++ "\n").toList ++ rest = line.toList ++ '\n' :: rest := by simp
  rw [htext, reading_line hline, hwords]
  rfl

/-- A type as it is written at a field, with marks that do not count. -/
structure IsTypeText (text type : String) : Prop where
  /-- It is one word. -/
  space : ' ' ∉ text.toList
  /-- It is in one line. -/
  line : '\n' ∉ text.toList
  /-- It is the type without the marks. -/
  base : baseType text = type

theorem isTypeText_of_plain (h : Plain type) : IsTypeText type type :=
  ⟨h.not_mem (by decide), h.not_mem (by decide), baseType_of_plain h⟩

theorem IsTypeText.append {type' : String} (h : IsTypeText text type)
    (h' : IsTypeText text' type') : IsTypeText (text ++ text') (type ++ type') := by
  refine ⟨by simp [h.space, h'.space], by simp [h.line, h'.line], ?_⟩
  rw [← h.base, ← h'.base, baseType, baseType, baseType, ← String.ofList_append,
    ← List.filter_append, String.toList_append]

/-- Marks may follow a type. -/
theorem IsTypeText.mark (h : IsTypeText text type) {mark : String} (hmark : IsTypeText mark "") :
    IsTypeText (text ++ mark) type := by
  have hboth := h.append hmark
  rwa [String.append_empty] at hboth

/-- A list is written with brackets. -/
theorem IsTypeText.list (h : IsTypeText text type) : IsTypeText ("[" ++ text ++ "]") type := by
  have hopen : IsTypeText "[" "" := ⟨by decide, by decide, by decide⟩
  have hclose : IsTypeText "]" "" := ⟨by decide, by decide, by decide⟩
  have hall := (hopen.append h).mark hclose
  rwa [String.empty_append] at hall

theorem isTypeText_bang : IsTypeText "!" "" := ⟨by decide, by decide, by decide⟩

/-- **A field is read as it is written.** -/
theorem givesFields_typed (hname : Plain name) (htype : IsTypeText text type) :
    GivesFields ("  " ++ name ++ ": " ++ text ++ "\n") [(name, type)] := by
  have hwords : wordsOf ("  " ++ name ++ ": " ++ text).toList =
      ["", "", String.ofList (name.toList ++ [':']), text] := by
    have hspace : ' ' ∉ name.toList ++ [':'] := by
      have : ' ' ∉ name.toList := hname.not_mem (by decide)
      simp [this]
    have hline : ("  " ++ name ++ ": " ++ text).toList =
        [] ++ ' ' :: ([] ++ ' ' :: ((name.toList ++ [':']) ++ ' ' :: text.toList)) := by simp
    rw [hline, wordsOf_append (by decide), wordsOf_append (by decide), wordsOf_append hspace,
      wordsOf_of_not_mem htype.space, String.ofList_toList]
  have hline : '\n' ∉ ("  " ++ name ++ ": " ++ text).toList := by
    have : '\n' ∉ name.toList := hname.not_mem (by decide)
    simp [this, htype.line]
  have hfield := givesFields_line hline hwords
  rwa [fieldName_append hname (Or.inl rfl), List.getLastD_cons, List.getLastD_nil, htype.base]
    at hfield

/-- **A field with arguments is read as it is written.** -/
theorem givesFields_arguments (hname : Plain name) {first others : String}
    (hspace : ' ' ∉ first.toList) (hlines : '\n' ∉ (first ++ others).toList)
    (htype : IsTypeText text type) :
    GivesFields ("  " ++ name ++ "(" ++ first ++ " " ++ others ++ " " ++ text ++ "\n")
      [(name, type)] := by
  have hwords : wordsOf ("  " ++ name ++ "(" ++ first ++ " " ++ others ++ " " ++ text).toList =
      "" :: "" :: String.ofList (name.toList ++ '(' :: first.toList) ::
        (wordsOf others.toList ++ [text]) := by
    have hword : ' ' ∉ name.toList ++ '(' :: first.toList := by
      have : ' ' ∉ name.toList := hname.not_mem (by decide)
      simp [this, hspace]
    have hline : ("  " ++ name ++ "(" ++ first ++ " " ++ others ++ " " ++ text).toList =
        [] ++ ' ' :: ([] ++ ' ' :: ((name.toList ++ '(' :: first.toList) ++ ' ' ::
          (others.toList ++ ' ' :: text.toList))) := by simp
    rw [hline, wordsOf_append (by decide), wordsOf_append (by decide), wordsOf_append hword,
      wordsOf, List.splitOn_append_cons_self, List.map_append, ← wordsOf, ← wordsOf,
      wordsOf_of_not_mem htype.space, String.ofList_toList]
  have hline : '\n' ∉ ("  " ++ name ++ "(" ++ first ++ " " ++ others ++ " " ++ text).toList := by
    have : '\n' ∉ name.toList := hname.not_mem (by decide)
    rw [String.toList_append, List.mem_append, not_or] at hlines
    simp [this, hlines, htype.line]
  have hfield := givesFields_line hline hwords
  rwa [fieldName_append hname (Or.inr rfl), List.getLastD_concat, htype.base] at hfield

/-! ### Types -/

/-- An object type is read with the fields that are given to it. -/
theorem declares_type (hname : Plain name) (hfields : GivesFields text fields) :
    Declares ("type " ++ name ++ " \x7b\n" ++ text ++ "\x7d\n") [.object name fields] := by
  intro rest
  have hline : '\n' ∉ "type".toList ++ ' ' :: (name.toList ++ ' ' :: ['\x7b']) := by
    have : '\n' ∉ name.toList := hname.not_mem (by decide)
    simp [this]
  have hwords : wordsOf ("type".toList ++ ' ' :: (name.toList ++ ' ' :: ['\x7b'])) =
      ["type", name, "\x7b"] := by
    rw [wordsOf_append (by decide), wordsOf_append (hname.not_mem (by decide)),
      wordsOf_of_not_mem (by decide), String.ofList_toList, String.ofList_toList]
  have htext : ("type " ++ name ++ " \x7b\n" ++ text ++ "\x7d\n").toList ++ rest =
      ("type".toList ++ ' ' :: (name.toList ++ ' ' :: ['\x7b'])) ++ '\n' ::
        (text.toList ++ (['\x7d'] ++ '\n' :: rest)) := by simp
  -- the brace ends the fields, so that fields in the rest are not taken for fields of the type
  have hend : (reading rest).line (wordsOf ['\x7d']) = ([], (reading rest).2) := rfl
  rw [htext, reading_line hline, hwords, hfields, reading_line (by decide), hend]
  simp [Reading.line]

/-- The fields that all objects have, and those that documents have. -/
def systemFields (document : Bool) : List (String × String) :=
  (if document then [("_collection", "String"), ("_path", "String")] else []) ++
    [("_template", "String")]

theorem givesFields_system (document : Bool) :
    GivesFields ((if document then "  _collection: String!\n  _path: String!\n" else "") ++
      "  _template: String!\n") (systemFields document) := by
  have hfield (name : String) (hname : Plain name) :
      GivesFields ("  " ++ name ++ ": " ++ ("String" ++ "!") ++ "\n") [(name, "String")] :=
    givesFields_typed hname ((isTypeText_of_plain (by decide)).mark isTypeText_bang)
  cases document with
  | false => exact hfield "_template" (by decide)
  | true =>
    exact ((hfield "_collection" (by decide)).append (hfield "_path" (by decide))).append
      (hfield "_template" (by decide))

/-- **An object type is read as it is written.** -/
theorem declares_objectText (hname : Plain name) (hfields : GivesFields text fields)
    (document : Bool) :
    Declares (objectText name document text) [.object name (systemFields document ++ fields)] := by
  have htype := (declares_type hname ((givesFields_system document).append hfields)).append
    declares_blank
  rw [List.append_nil] at htype
  refine Eq.mp (congrArg (Declares · _) ?_) htype
  simp [objectText, String.append_assoc]

/-- **A union is read as it is written.** -/
theorem declares_unionText (hname : Plain name) (hne : members ≠ [])
    (hmembers : ∀ m ∈ members, Plain m) :
    Declares (unionText name members) [.union name members] := by
  obtain ⟨member, members, rfl⟩ := List.exists_cons_of_ne_nil hne
  -- bars are words, and no member is one
  have hbar : ∀ m ∈ member :: members, m ≠ "|" := by
    rintro m hm rfl
    exact absurd (hmembers _ hm) (by decide)
  have hwords : wordsOf ("union " ++ name ++ " = " ++ " | ".intercalate (member :: members)).toList =
      "union" :: name :: "=" :: member :: members.flatMap fun m => ["|", m] := by
    have hline : ("union " ++ name ++ " = " ++ " | ".intercalate (member :: members)).toList =
        "union".toList ++ ' ' :: (name.toList ++ ' ' ::
          ("=".toList ++ ' ' :: (" | ".intercalate (member :: members)).toList)) := by simp
    rw [hline, wordsOf_append (by decide), wordsOf_append (hname.not_mem (by decide)),
      wordsOf_append (by decide), wordsOf_intercalate hmembers, String.ofList_toList,
      String.ofList_toList, String.ofList_toList]
  have hline : '\n' ∉ ("union " ++ name ++ " = " ++ " | ".intercalate (member :: members)).toList := by
    have hn : '\n' ∉ name.toList := hname.not_mem (by decide)
    have hms : '\n' ∉ (" | ".intercalate (member :: members)).toList :=
      not_mem_intercalate (by decide) fun m hm => (hmembers m hm).not_mem (by decide)
    simp [hn, hms, -String.toList_intercalate]
  have hfilter : (member :: members.flatMap fun m => ["|", m]).filter (· ≠ "|") =
      member :: members := by
    obtain ⟨hmember, hrest⟩ := List.forall_mem_cons.mp hbar
    rw [List.filter_cons_of_pos (by simpa using hmember), filter_bars hrest]
  have hunion : Declares (("union " ++ name ++ " = " ++ " | ".intercalate (member :: members)) ++ "\n")
      [.union name (member :: members)] :=
    declares_line hline hwords fun rest => by rw [Reading.line, hfilter]; rfl
  have hboth := hunion.append declares_blank
  rw [List.append_nil] at hboth
  refine Eq.mp (congrArg (Declares · _) ?_) hboth
  simp [unionText, String.append_assoc]

end Graph

end ContentIndex
