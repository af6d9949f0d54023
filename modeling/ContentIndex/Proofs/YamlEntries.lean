import ContentIndex.Proofs.Positions

/-!
# What becomes of the entries of a YAML text

The entries of the mappings in a YAML text become members of objects. An entry has a member of its own,
with its value, unless one of three things happens. A number that is not finite has no JSON number, and
becomes null, which stands for no value. Keys that are different in YAML may be written alike as member
names, and then the last of them counts. And the text of a Markdown file takes the place of an entry of
its name.

## Main definitions

* `Yaml.Node.Leads`: how a node is reached in a tree, and the position that it stands for
* `Yaml.Node.Entry`: the values of entries, at any depth
* `Yaml.Node.Clashes`, `Yaml.Node.Vanishes`, `Yaml.Node.Displaced`: what may happen to an entry
* `Yaml.Node.Keeps`: a value has all entries of a tree

## Main results

* `Yaml.Node.Leads.eq_of_position`: unless keys clash, positions tell entries apart
* `Yaml.Node.keeps_iff`: **entries are kept unless keys clash or numbers vanish**
* `Document.keeps_entries_iff`: **the same for files, of which the text may take the place of an entry**
-/

namespace ContentIndex

open Json (Value Step Position)

namespace Yaml

/-! ### Nodes as values -/

/-- The step into the object that a local tag wraps a node in. -/
def tagSteps (tag : Option Bytes) : Position :=
  match localTag? tag with
  | some name => [.member ("!" ++ withoutMark name)]
  | none => []

theorem at?_wrapTagged (tag : Option Bytes) (v : Value) (p : Position) :
    (wrapTagged tag v).at? (tagSteps tag ++ p) = v.at? p := by
  unfold wrapTagged tagSteps
  cases localTag? tag with
  | none => rfl
  | some name => simp [Value.at?, Entries.find?]

/-- The member name of a node that is a key. -/
def Node.keyName? (n : Node) : Option String := n.toJson?.bind Yaml.memberName?

theorem Node.exists_of_toJson?_sequence {tag : Option Bytes} {items : List Node} {v : Value}
    (h : (Node.sequence tag items).toJson? = some v) :
    ∃ vs, v = wrapTagged tag (.array vs) ∧ List.Forall₂ (fun n v => n.toJson? = some v) items vs := by
  rw [toJson?] at h
  obtain ⟨vs, hvs, h⟩ := Option.bind_eq_some_iff.mp h
  cases h
  refine ⟨vs, rfl, ?_⟩
  clear h
  induction items generalizing vs with
  | nil =>
    cases hvs
    exact .nil
  | cons n items ih =>
    rw [itemsToJson?] at hvs
    obtain ⟨v, hv, hvs⟩ := Option.bind_eq_some_iff.mp hvs
    obtain ⟨rest, hrest, hvs⟩ := Option.bind_eq_some_iff.mp hvs
    cases hvs
    exact .cons hv (ih rest hrest)

theorem Node.forall₂_of_entriesToJson? {entries : List (Node × Node)} {es : List (Value × Value)}
    (h : entriesToJson? entries = some es) :
    List.Forall₂ (fun e x => e.1.toJson? = some x.1 ∧ e.2.toJson? = some x.2) entries es := by
  induction entries generalizing es with
  | nil =>
    cases h
    exact .nil
  | cons e entries ih =>
    obtain ⟨k, n⟩ := e
    rw [entriesToJson?] at h
    obtain ⟨key, hkey, h⟩ := Option.bind_eq_some_iff.mp h
    obtain ⟨v, hv, h⟩ := Option.bind_eq_some_iff.mp h
    obtain ⟨rest, hrest, h⟩ := Option.bind_eq_some_iff.mp h
    cases h
    exact .cons ⟨hkey, hv⟩ (ih hrest)

/-- The members of a mapping are its entries under the names of their keys. -/
theorem Node.exists_of_toJson?_mapping {tag : Option Bytes} {entries : List (Node × Node)} {v : Value}
    (h : (Node.mapping tag entries).toJson? = some v) :
    ∃ members, v = wrapTagged tag (.object (Entries.ofList members)) ∧
      List.Forall₂ (fun e m => e.1.keyName? = some m.1 ∧ e.2.toJson? = some m.2) entries members := by
  rw [toJson?] at h
  obtain ⟨es, hes, h⟩ := Option.bind_eq_some_iff.mp h
  split at h
  · cases h
  obtain ⟨members, hmembers, h⟩ := Option.bind_eq_some_iff.mp h
  cases h
  refine ⟨members, rfl, ?_⟩
  have hentries := forall₂_of_entriesToJson? hes
  clear hes
  clear * - hentries hmembers
  induction hentries generalizing members with
  | nil =>
    cases hmembers
    exact .nil
  | @cons e x entries es he _ ih =>
    rw [List.mapM_cons] at hmembers
    obtain ⟨m, hm, hmembers⟩ := Option.bind_eq_some_iff.mp hmembers
    obtain ⟨rest, hrest, hmembers⟩ := Option.bind_eq_some_iff.mp hmembers
    obtain ⟨name, hname, hm⟩ := Option.bind_eq_some_iff.mp hm
    cases hm
    cases hmembers
    refine .cons ⟨?_, he.2⟩ (ih rest hrest)
    rw [keyName?, he.1]
    exact hname

/-! ### Entries -/

/-- The numbers of items and entries lead from a tree to a node in it, which stands for what is at the
position. -/
inductive Node.Leads : Node → List Nat → Position → Node → Prop
  | here (n : Node) : Leads n [] [] n
  | item {tag : Option Bytes} {items : List Node} {i : Nat} {m : Node} {path : List Nat} {p : Position}
      {w : Node} (item : items[i]? = some m) (rest : Leads m path p w) :
      Leads (.sequence tag items) (i :: path) (tagSteps tag ++ .item i :: p) w
  | entry {tag : Option Bytes} {entries : List (Node × Node)} {i : Nat} {k m : Node} {name : String}
      {path : List Nat} {p : Position} {w : Node} (entry : entries[i]? = some (k, m))
      (named : k.keyName? = some name) (rest : Leads m path p w) :
      Leads (.mapping tag entries) (i :: path) (tagSteps tag ++ .member name :: p) w

/-- The node is the value of an entry of a mapping in the tree. -/
inductive Node.Entry (n : Node) : List Nat → Position → Node → Prop
  | of {path : List Nat} {p : Position} {tag : Option Bytes} {entries : List (Node × Node)} {i : Nat}
      {k w : Node} {name : String} (mapping : n.Leads path p (.mapping tag entries))
      (entry : entries[i]? = some (k, w)) (named : k.keyName? = some name) :
      Entry n (path ++ [i]) (p ++ (tagSteps tag ++ [.member name])) w

/-- Two keys of one mapping in the tree have the same member name. -/
inductive Node.Clashes (n : Node) : Prop
  | of {path : List Nat} {p : Position} {tag : Option Bytes} {entries : List (Node × Node)} {i j : Nat}
      {k k' w w' : Node} {name : String} (mapping : n.Leads path p (.mapping tag entries))
      (apart : i ≠ j) (entry : entries[i]? = some (k, w)) (entry' : entries[j]? = some (k', w'))
      (named : k.keyName? = some name) (named' : k'.keyName? = some name) : Clashes n

/-- The node is null. -/
def Node.IsNull : Node → Prop
  | .scalar tag style text => localTag? tag = none ∧ Resolved.ofScalar? tag style text = some .null
  | _ => False

/-- The node is a number that is not finite. -/
def Node.IsInfinite : Node → Prop
  | .scalar tag style text => localTag? tag = none ∧
    ∃ x, Resolved.ofScalar? tag style text = some (.float x) ∧ x.isFinite = false
  | _ => False

/-- A number that is not finite is the value of an entry. -/
def Node.Vanishes (n : Node) : Prop := ∃ path p w, n.Entry path p w ∧ w.IsInfinite

/-- The value has the entries of the tree: those that are not null are found in it as values, and no two
of them are one. -/
structure Node.Keeps (n : Node) (v : Value) : Prop where
  /-- Every entry is there with its value. -/
  own : ∀ path p w, n.Entry path p w → ¬ w.IsNull →
    ∃ u, v.at? p = some u ∧ w.toJson? = some u ∧ u.isNull = false
  /-- Different entries are at different positions. -/
  apart : ∀ path path' p w w', n.Entry path p w → n.Entry path' p w' → path = path'

namespace Node

variable {n m w w' : Node} {path path' : List Nat} {p q : Position} {v : Value}

theorem Leads.trans (h : n.Leads path p m) (h' : m.Leads path' q w) :
    n.Leads (path ++ path') (p ++ q) w := by
  induction h with
  | here => exact h'
  | item item _ ih =>
    rw [List.append_assoc]
    exact .item item (ih h')
  | entry entry named _ ih =>
    rw [List.append_assoc]
    exact .entry entry named (ih h')

theorem Entry.leads (h : n.Entry path p w) : n.Leads path p w := by
  obtain ⟨mapping, entry, named⟩ := h
  exact mapping.trans (.entry entry named (.here w))

theorem Entry.position_ne (h : n.Entry path p w) : p ≠ [] := by
  obtain ⟨mapping, entry, named⟩ := h
  simp

/-- Keys that clash below a node clash in the tree. -/
theorem Clashes.of_leads (h : n.Leads path p m) (hm : m.Clashes) : n.Clashes := by
  obtain ⟨mapping, apart, entry, entry', named, named'⟩ := hm
  exact ⟨h.trans mapping, apart, entry, entry', named, named'⟩

/-- The names of keys that do not clash are different. -/
theorem nodup_of_not_clashes {tag : Option Bytes} {entries : List (Node × Node)}
    {members : List (String × Value)} (h : ¬ (mapping tag entries).Clashes)
    (hmembers : List.Forall₂ (fun e m => e.1.keyName? = some m.1 ∧ e.2.toJson? = some m.2)
      entries members) : (members.map (·.1)).Nodup := by
  have hlength := hmembers.length_eq
  rw [List.Nodup, List.pairwise_map, List.pairwise_iff_getElem]
  intro i j hi hj hij heq
  have hfirst := (hmembers.get (i := i) (hlength ▸ hi) hi).1
  have hsecond := (hmembers.get (i := j) (hlength ▸ hj) hj).1
  exact h ⟨.here _, Nat.ne_of_lt hij, List.getElem?_eq_getElem (hlength ▸ hi),
    List.getElem?_eq_getElem (hlength ▸ hj), hfirst, hsecond.trans (congrArg some heq.symm)⟩

/-- **Unless keys clash, nodes are found where they stand for something.** -/
theorem Leads.at? (h : n.Leads path p w) (hv : n.toJson? = some v) (hclash : ¬ n.Clashes) :
    ∃ u, w.toJson? = some u ∧ v.at? p = some u := by
  induction h generalizing v with
  | here n => exact ⟨v, hv, rfl⟩
  | @item tag items i m path p w item rest ih =>
    obtain ⟨vs, rfl, hvs⟩ := exists_of_toJson?_sequence hv
    obtain ⟨hi, rfl⟩ := List.getElem?_eq_some_iff.mp item
    have hi' : i < vs.length := hvs.length_eq ▸ hi
    have hitem := hvs.get (i := i) hi hi'
    obtain ⟨u, hu, hat⟩ := ih hitem fun hm => hclash (.of_leads (.item item (.here _)) hm)
    refine ⟨u, hu, ?_⟩
    rw [at?_wrapTagged, Value.at?, List.getElem?_eq_getElem hi']
    exact hat
  | @entry tag entries i k m name path p w entry named rest ih =>
    obtain ⟨members, rfl, hmembers⟩ := exists_of_toJson?_mapping hv
    have hnames := nodup_of_not_clashes hclash hmembers
    obtain ⟨hi, hentry⟩ := List.getElem?_eq_some_iff.mp entry
    have hi' : i < members.length := hmembers.length_eq ▸ hi
    obtain ⟨hname, hvalue⟩ := hmembers.get (i := i) hi hi'
    simp only [List.get_eq_getElem, hentry] at hname hvalue
    obtain ⟨u, hu, hat⟩ := ih hvalue fun hm => hclash (.of_leads (.entry entry named (.here _)) hm)
    refine ⟨u, hu, ?_⟩
    have hmem : (name, members[i].2) ∈ members := by
      rw [show name = members[i].1 from Option.some.inj (named.symm.trans hname)]
      exact List.getElem_mem hi'
    rw [at?_wrapTagged, Value.at?, Entries.find?_ofList_of_mem hnames hmem]
    exact hat

/-- **Unless keys clash, positions tell nodes apart.** -/
theorem Leads.eq_of_position (h : n.Leads path p w) (h' : n.Leads path' p w')
    (hclash : ¬ n.Clashes) : path = path' := by
  -- both nodes are reached by one position; its form tells how the second one is reached
  induction h generalizing path' with
  | here n =>
    generalize hq : ([] : Position) = q at h'
    cases h' with
    | here => rfl
    | item | entry => simp at hq
  | @item tag items i m path p w item rest ih =>
    generalize hq : tagSteps tag ++ Step.item i :: p = q at h'
    cases h' with
    | here => simp at hq
    | @item _ _ j m' path' p' _ item' rest' =>
      obtain ⟨hij, rfl⟩ := List.cons.inj (List.append_cancel_left hq)
      obtain rfl := Step.item.inj hij
      obtain rfl := Option.some.inj (item.symm.trans item')
      rw [ih rest' fun hm => hclash (.of_leads (.item item (.here _)) hm)]
  | @entry tag entries i k m name path p w entry named rest ih =>
    generalize hq : tagSteps tag ++ Step.member name :: p = q at h'
    cases h' with
    | here => simp at hq
    | @entry _ _ j k' m' name' path' p' _ entry' named' rest' =>
      obtain ⟨hname, rfl⟩ := List.cons.inj (List.append_cancel_left hq)
      obtain rfl := Step.member.inj hname
      -- entries of one name are one entry, because names do not clash
      have hij : i = j := by
        by_contra hne
        exact hclash ⟨.here _, hne, entry, entry', named, named'⟩
      subst hij
      cases entry.symm.trans entry'
      rw [ih rest' fun hm => hclash (.of_leads (.entry entry named (.here _)) hm)]

/-- **A node becomes null if it is null, or a number that is not finite.** -/
theorem isNull_iff (h : n.toJson? = some v) : v.isNull ↔ n.IsNull ∨ n.IsInfinite := by
  have hwrapped {tag : Option Bytes} {u : Value} (hu : u.isNull = false) :
      (wrapTagged tag u).isNull = false := by
    unfold wrapTagged
    split
    · rfl
    · exact hu
  cases n with
  | «alias» => cases h
  | sequence tag items =>
    obtain ⟨vs, rfl, -⟩ := exists_of_toJson?_sequence h
    rw [hwrapped rfl]
    simp [IsNull, IsInfinite]
  | mapping tag entries =>
    obtain ⟨members, rfl, -⟩ := exists_of_toJson?_mapping h
    rw [hwrapped rfl]
    simp [IsNull, IsInfinite]
  | scalar tag style text =>
    -- a tag of its own wraps the scalar in an object, which is not null
    rw [toJson?] at h
    obtain ⟨r, hr, h⟩ := Option.bind_eq_some_iff.mp h
    obtain ⟨u, hu, h⟩ := Option.bind_eq_some_iff.mp h
    cases h
    have hscalar : u.isNull ↔ r = .null ∨ ∃ x, r = .float x ∧ x.isFinite = false := by
      cases r with
      | null | bool | text => cases hu; simp [Value.isNull]
      | wide => cases hu
      | int i =>
        obtain ⟨n, -, rfl⟩ := Option.map_eq_some_iff.mp hu
        simp [Value.isNull]
      | float x =>
        cases hu
        cases hx : x.isFinite <;> simp [Value.float, Json.Number.ofFloat?, hx, Value.isNull]
    simp only [IsNull, IsInfinite, hr, Option.some.injEq, ← and_or_left, ← hscalar, wrapTagged]
    cases localTag? tag with
    | none => simp
    | some name => simp [Value.isNull]

theorem IsInfinite.not_isNull (h : n.IsInfinite) : ¬ n.IsNull := by
  cases n with
  | scalar tag style text =>
    obtain ⟨-, x, hx, -⟩ := h
    rintro ⟨-, hnull⟩
    cases hx.symm.trans hnull
  | _ => exact id

theorem Keeps.not_clashes (h : n.Keeps v) : ¬ n.Clashes := by
  rintro ⟨mapping, hne, entry, entry', named, named'⟩
  have heq := h.apart _ _ _ _ _ (.of mapping entry named) (.of mapping entry' named')
  exact hne (by simpa using heq)

theorem Keeps.not_vanishes (h : n.Keeps v) : ¬ n.Vanishes := by
  rintro ⟨path, p, w, hentry, hinfinite⟩
  obtain ⟨u, -, hu, hpresent⟩ := h.own path p w hentry hinfinite.not_isNull
  rw [Bool.eq_false_iff] at hpresent
  exact hpresent ((isNull_iff hu).mpr (Or.inr hinfinite))

/-- **The entries of a tree are kept unless keys clash or numbers vanish.** -/
theorem keeps_iff (h : n.toJson? = some v) : n.Keeps v ↔ ¬ n.Clashes ∧ ¬ n.Vanishes := by
  refine ⟨fun hkeeps => ⟨hkeeps.not_clashes, hkeeps.not_vanishes⟩, ?_⟩
  rintro ⟨hclash, hvanish⟩
  constructor
  · intro path p w hentry hnull
    obtain ⟨u, hu, hat⟩ := hentry.leads.at? h hclash
    refine ⟨u, hat, hu, Bool.eq_false_iff.mpr fun hnone => ?_⟩
    exact ((isNull_iff hu).mp hnone).elim hnull fun hw => hvanish ⟨path, p, w, hentry, hw⟩
  · intro path path' p w w' hentry hentry'
    exact hentry.leads.eq_of_position hentry'.leads hclash

/-- The text takes the place of the member of the given name, and an entry stood for something in this
member that is not the text. -/
def Displaced (bodyField : String) (body : Option String) (n : Node) : Prop :=
  ∃ s ∈ body, ∃ path p w, n.Entry path (.member bodyField :: p) w ∧ ¬ w.IsNull ∧
    ¬ (p = [] ∧ w.toJson? = some (.string s))

end Node

/-- A document is read as the value of its tree. -/
theorem Document.read?_toJson (d : Document) :
    d.read? Node.toJson = (d.read? Node.expand).bind Node.toJson? := by
  unfold read? Node.toJson
  show Option.map Prod.fst ((((d.root.getD (.empty none)).expand.run _).run 0).bind fun x =>
    x.1.toJson?.bind fun v => some (v, x.2)) = (Option.map Prod.fst _).bind _
  rw [Option.map_bind, Option.bind_map]
  refine congrArg _ (funext fun x => ?_)
  rw [Function.comp_apply, Function.comp_apply]
  cases x.1.toJson? with
  | none => rfl
  | some v => rfl

end Yaml

/-! ### Files -/

namespace Document

/-- The YAML in a text of the format, and the text that is put in a member beside it. -/
def yamlPart? (cs : List Char) : DocumentFormat → Option (List Char × Option String)
  | .yaml => some (cs, none)
  | .markdown =>
    let (front, rest) := splitFront cs
    let body := rest.dropWhile fun c => c = '\r' || c = '\n'
    front.map fun yaml =>
      (yaml, if body.all Text.isBlank then none else some (String.ofList body))
  | .json => none

open Yaml (Node)

variable {bodyField path : String} {content : Bytes} {ms front : List (String × Value)}
  {cs yaml : List Char} {body : Option String} {format : DocumentFormat}

/-- The members of a file are those of its YAML, but for the one that is the text. -/
theorem members_eq (hpart : yamlPart? cs format = some (yaml, body))
    (h : members bodyField cs format = .ok ms) : ∃ front, yamlMembers yaml = .ok front ∧
      ms = body.elim front fun s => Entries.insert bodyField (.string s) front := by
  cases format with
  | yaml =>
    cases hpart
    exact ⟨ms, h, rfl⟩
  | json => cases hpart
  | markdown =>
    rw [members, markdownMembers] at h
    unfold yamlPart? at hpart
    generalize splitFront cs = parts at h hpart
    obtain ⟨front, rest⟩ := parts
    cases front with
    | none => cases hpart
    | some yaml' =>
      obtain ⟨front, hfront, hms⟩ := exists_of_bind_eq_ok h
      cases hpart
      refine ⟨front, hfront, (Except.ok.inj hms).symm.trans ?_⟩
      split <;> rfl

/-- What stands in YAML is a mapping, or nothing. -/
theorem exists_of_yamlMembers (h : yamlMembers yaml = .ok front) :
    ∃ n v, (Yaml.Document.ofText? yaml).bind (Yaml.Document.read? Node.expand) = some n ∧
      n.toJson? = some v ∧ (v = .object front ∨ v = .null ∧ front = []) := by
  unfold yamlMembers at h
  have hread : (Yaml.Document.ofText? yaml).bind (Yaml.Document.read? Node.toJson) =
      ((Yaml.Document.ofText? yaml).bind (Yaml.Document.read? Node.expand)).bind Node.toJson? := by
    rw [Option.bind_assoc]
    exact congrArg _ (funext Yaml.Document.read?_toJson)
  rw [hread] at h
  split at h
  · cases h
  · next hnull =>
    cases h
    obtain ⟨n, hn, hv⟩ := Option.bind_eq_some_iff.mp hnull
    exact ⟨n, .null, hn, hv, Or.inr ⟨rfl, rfl⟩⟩
  · next hobject =>
    cases h
    obtain ⟨n, hn, hv⟩ := Option.bind_eq_some_iff.mp hobject
    exact ⟨n, _, hn, hv, Or.inl rfl⟩
  · cases h

/-- What is found in the YAML of a file is found in the file, unless the text takes its place. -/
theorem at?_of_at?_front {n w : Node} {path : List Nat} {p : Position} {u : Value}
    (hentry : n.Entry path p w) (hplace : ¬ n.Displaced bodyField body) (hpresent : ¬ w.IsNull)
    (hw : w.toJson? = some u) (hat : (Value.object front).at? p = some u) :
    (Value.object (body.elim front fun s => Entries.insert bodyField (.string s) front)).at? p =
      some u := by
  cases body with
  | none => exact hat
  | some s =>
    cases p with
    | nil => exact absurd rfl hentry.position_ne
    | cons step p =>
      cases step with
      | item i => cases hat
      | member name =>
        rw [Option.elim_some, Value.at?, Entries.find?_insert]
        by_cases hname : name = bodyField
        · subst hname
          -- the entry is the text itself, or else the text took its place
          have htext : p = [] ∧ w.toJson? = some (.string s) := by
            by_contra hother
            exact hplace ⟨s, rfl, path, p, w, hentry, hpresent, hother⟩
          obtain ⟨rfl, hs⟩ := htext
          rw [if_pos rfl, ← hw, hs]
          rfl
        · rw [if_neg hname]
          exact hat

/-- **The entries in a file are kept**, unless keys clash, numbers vanish, or the text of the file takes
the place of one. A number that is not finite becomes null. Null is no value, so the number is in no
field and is not refused. -/
theorem keeps_entries_iff {text : String} (hformat : DocumentFormat.ofPath? path = some format)
    (htext : content.text? = some text) (hpart : yamlPart? text.toList format = some (yaml, body))
    (h : parse bodyField path content = .ok ms) :
    ∃ n, (Yaml.Document.ofText? yaml).bind (Yaml.Document.read? Node.expand) = some n ∧
      (n.Keeps (.object ms) ↔ ¬ n.Clashes ∧ ¬ n.Vanishes ∧ ¬ n.Displaced bodyField body) ∧
      (¬ n.Clashes → ¬ n.Displaced bodyField body → ∀ path p w, n.Entry path p w → w.IsInfinite →
        (Value.object ms).at? p = some .null ∧
          ∀ c policy k u, ¬ Graph.Collection.Reads c policy (.object ms) p k u) := by
  have hmembers : members bodyField text.toList format = .ok ms := by
    rw [parse, hformat, htext] at h
    exact eq_ok_of_mapError h
  obtain ⟨front, hfront, rfl⟩ := members_eq hpart hmembers
  obtain ⟨n, v, hn, hv, hobject⟩ := exists_of_yamlMembers hfront
  have hfront {path p w u} (hentry : n.Entry path p w) (hat : v.at? p = some u) :
      (Value.object front).at? p = some u := by
    obtain rfl | ⟨rfl, rfl⟩ := hobject
    · exact hat
    · -- nothing is found in null but null itself, which is no entry
      cases p with
      | nil => exact absurd rfl hentry.position_ne
      | cons step p => cases step <;> cases hat
  refine ⟨n, hn, ⟨fun hkeeps => ⟨hkeeps.not_clashes, hkeeps.not_vanishes, ?_⟩, ?_⟩, ?_⟩
  · -- where the text is, nothing but the text is found
    rintro ⟨s, rfl, path, p, w, hentry, hnull, hother⟩
    obtain ⟨u, hat, hu, -⟩ := hkeeps.own _ _ _ hentry hnull
    rw [Option.elim_some, Value.at?, Entries.find?_insert, if_pos rfl, Option.bind_some] at hat
    cases p with
    | nil => exact hother ⟨rfl, hu.trans hat.symm⟩
    | cons step p => cases step <;> cases hat
  · rintro ⟨hclash, hvanish, hplace⟩
    have hkeeps := (Node.keeps_iff hv).mpr ⟨hclash, hvanish⟩
    refine ⟨fun path p w hentry hnull => ?_, hkeeps.apart⟩
    obtain ⟨u, hat, hw, hpresent⟩ := hkeeps.own path p w hentry hnull
    exact ⟨u, at?_of_at?_front hentry hplace hnull hw (hfront hentry hat), hw, hpresent⟩
  · intro hclash hplace path p w hentry hinfinite
    obtain ⟨u, hu, hat⟩ := hentry.leads.at? hv hclash
    have hat' := at?_of_at?_front hentry hplace hinfinite.not_isNull hu (hfront hentry hat)
    have hnull : u = .null := by
      have := (Node.isNull_iff hu).mpr (Or.inr hinfinite)
      cases u <;> first | rfl | cases this
    subst hnull
    -- a member that is read is not null
    refine ⟨hat', fun c policy k u hreads => ?_⟩
    obtain ⟨mapping, entry, named⟩ := hentry
    rw [← List.append_assoc] at hreads hat'
    have hpresent := hreads.isNull_eq_false
    rw [Option.some.inj (hreads.at?.symm.trans hat')] at hpresent
    cases hpresent

/-- A post of which the rank is not finite. -/
def unrankedPost : String := "body: hi\nrank: .inf\n"

/-- A mapping whose second entry has the name `rank` and holds an infinite number. -/
def isUnranked : Node → Bool
  | .mapping none [_, (k, .scalar none .plain text)] =>
    decide (k.keyName? = some "rank") && decide (text = ".inf".toList)
  | _ => false

theorem parse_unrankedPost : parse "text" "posts/a.yml" (Bytes.ofText unrankedPost) =
    .ok [("body", .string "hi"), ("rank", .null)] := by
  refine eq_ok_of_toOption ?_
  decide +kernel

/-- The post is accepted without a rank, and nothing is noted about it. -/
theorem accepts_unrankedPost : ∃ ms,
    parse "text" "posts/a.yml" (Bytes.ofText unrankedPost) = .ok ms ∧
      Graph.board.record (.ofCollections [Graph.board]) .bestFit "posts/a.yml" "" (.object ms) =
        .ok (⟨"posts", "posts/a.yml", "text", [("body", .string "hi")], ""⟩, []) := by
  refine ⟨_, parse_unrankedPost, ?_⟩
  rfl

/-- The tree of the post does not keep its entries. -/
theorem keeps_entries_iff_unrankedPost : ∃ n ms,
    (Yaml.Document.ofText? unrankedPost.toList).bind (Yaml.Document.read? Node.expand) = some n ∧
      parse "text" "posts/a.yml" (Bytes.ofText unrankedPost) = .ok ms ∧ ¬ n.Keeps (.object ms) := by
  have hformat : DocumentFormat.ofPath? "posts/a.yml" = some .yaml := by rfl
  have htext : (Bytes.ofText unrankedPost).text? = some unrankedPost := Bytes.text?_ofText unrankedPost
  obtain ⟨n, hn, hkeeps, -⟩ := keeps_entries_iff hformat htext rfl parse_unrankedPost
  refine ⟨n, _, hn, parse_unrankedPost, fun h => ?_⟩
  have hshape : ((Yaml.Document.ofText? unrankedPost.toList).bind
      (Yaml.Document.read? Node.expand)).any isUnranked := by
    decide +kernel
  rw [hn, Option.any_some] at hshape
  unfold isUnranked at hshape
  split at hshape
  · next e k text =>
    rw [Bool.and_eq_true, decide_eq_true_eq, decide_eq_true_eq] at hshape
    obtain ⟨hname, rfl⟩ := hshape
    have hentry : Node.Entry (.mapping none [e, (k, .scalar none .plain ".inf".toList)]) [1]
        [.member "rank"] (.scalar none .plain ".inf".toList) :=
      .of (.here _) rfl hname
    have hinfinite : Node.IsInfinite (.scalar none .plain ".inf".toList) :=
      ⟨rfl, .infinity false, rfl, rfl⟩
    exact (hkeeps.mp h).2.1 ⟨_, _, _, hentry, hinfinite⟩
  · cases hshape

end Document

end ContentIndex
