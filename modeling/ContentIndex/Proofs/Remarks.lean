import ContentIndex.Proofs.Positions
import Mathlib.Data.Set.Image

/-!
# What becomes of the members of a document

A member of a document is stored if the chosen template declares it, and otherwise it is dropped, with
a warning that names its location, or the document is refused by a strict collection. So it is at every
object that is read, however deep it lies in objects and lists. The warnings account for what is
remarked: each remark is told once, and nothing else is told.

## Main definitions

* `Graph.Kind.Stores`: the stored value that a value of a kind stands for
* `Graph.Kind.Remarks`: what is remarked on a value and on all that is read in it
* `Graph.Accounts`: warnings that tell each remark once
* `Graph.Collection.Chooses`: the objects of a document, with their templates
* `Graph.Collection.Undeclared`: the members that have no field

## Main results

* `Graph.Kind.accepts_normalize`: **what is read is stored, and the warnings account for the remarks**
* `Graph.Collection.kept_or_noted`: **no member of a document is lost without a warning**
-/

namespace ContentIndex

open Json (Value Step Position)

-- powers as in the core library, whichever other modules are read
attribute [local instance (2000)] instPowNat

/-- What a warning says about its location. -/
inductive Remark
  /-- A member was dropped. -/
  | dropped (template : String)
  /-- A whole number was rounded. -/
  | rounded (written : Value) (stored : Binary64)
  deriving DecidableEq

/-- The warning that tells the remark. -/
def Remark.warning (location : String) : Remark → Warning
  | .dropped template => .dropped location template
  | .rounded written stored => .rounded location written stored

/-- The warning tells of a member that was dropped. -/
def Warning.isDropped : Warning → Bool
  | .dropped _ _ => true
  | .rounded _ _ _ => false

namespace Graph

variable {rules : Rules} {policy : TemplatePolicy} {here : String} {k k' : Kind} {v v' : Value}
  {x y : FieldValue} {p q : Position} {r : Remark} {ws : List Warning}

/-! ### What is stored -/

/-- The stored value stands for the value of the kind. Of a list and of an object this tells no more
than the length, or the template: what is in them has positions of its own. -/
inductive Kind.Stores (rules : Rules) : Kind → Value → FieldValue → Prop
  | string (s : String) : Stores rules .string (.string s) (.string s)
  | number (n : Json.Number) : Stores rules .number (.number n) (.number n.toFloat)
  | boolean (b : Bool) : Stores rules .boolean (.bool b) (.boolean b)
  | datetime {s d : String} (read : Instant.canonical? s = some d) :
      Stores rules .datetime (.string s) (.datetime d)
  | richText (v : Value) : Stores rules .richText v (.richText v)
  | reference (targets : List String) (s : String) : Stores rules (.reference targets) (.string s)
      (.reference (rules.target targets (String.ofList (withoutDots s.toList))))
  | list {vs : List Value} {xs : List FieldValue} (items : Kind) (length : xs.length = vs.length) :
      Stores rules (.list items) (.array vs) (.list xs)
  | object {templates : List Template} {members : List (String × Value)} {t : Template}
      (chosen : selectTemplate rules.policy templates members = .ok t)
      (fields : List (String × FieldValue)) :
      Stores rules (.object templates) (.object members) (.object t.name fields)

/-- Whatever is read in the value is stored at its position. -/
def Kind.Keeps (rules : Rules) (k : Kind) (v : Value) (x : FieldValue) : Prop :=
  ∀ p k' v', k.Reads rules.policy v p k' v' → ∃ y, x.at? p = some y ∧ k'.Stores rules v' y

/-- It is enough to look one step ahead. -/
theorem Kind.Keeps.of_step (h : k.Stores rules v x)
    (hstep : ∀ step k' v', k.Reads rules.policy v [step] k' v' →
      ∃ y, x.at? [step] = some y ∧ k'.Keeps rules v' y) : k.Keeps rules v x := by
  intro p k' v' hreads
  rcases hreads.eq_or_exists_step with ⟨rfl, rfl, rfl⟩ | ⟨step, q, l, w, rfl, hone, hrest⟩
  · exact ⟨x, rfl, h⟩
  · obtain ⟨y, hy, hkeeps⟩ := hstep step l w hone
    obtain ⟨z, hz, hstores⟩ := hkeeps q k' v' hrest
    refine ⟨z, ?_, hstores⟩
    rw [← List.singleton_append, FieldValue.at?_append, hy, Option.bind_some, hz]

/-! ### What is remarked -/

/-- The remark on a value itself, or on one of its members that has no field. -/
inductive Kind.Prompts (policy : TemplatePolicy) : Kind → Value → Position → Remark → Prop
  | rounded {i : Int} {fits : -2 ^ (63 : Nat) ≤ i ∧ i < 2 ^ (64 : Nat)}
      (inexact : (Binary64.ofInt i).toInt? ≠ some i) :
      Prompts policy .number (.number (.int i fits)) []
        (.rounded (.number (.int i fits)) (.ofInt i))
  | dropped {templates : List Template} {members : List (String × Value)} {t : Template}
      {name : String} {v : Value} (chosen : selectTemplate policy templates members = .ok t)
      (found : Entries.find? name members = some v) (present : v.isNull = false)
      (free : name ≠ systemTemplate) (undeclared : t.field? name = none) :
      Prompts policy (.object templates) (.object members) [.member name] (.dropped t.name)

/-- The remarks on a value and on all that is read in it. -/
def Kind.Remarks (policy : TemplatePolicy) (k : Kind) (v : Value) : Set (Position × Remark) :=
  {x | ∃ p k' v' q, k.Reads policy v p k' v' ∧ k'.Prompts policy v' q x.2 ∧ x.1 = p ++ q}

/-- A remark is on the value, or on what is read one step ahead. -/
theorem Kind.mem_remarks_iff : (p, r) ∈ k.Remarks policy v ↔ k.Prompts policy v p r ∨
    ∃ step q k' v', p = step :: q ∧ k.Reads policy v [step] k' v' ∧
      (q, r) ∈ k'.Remarks policy v' := by
  constructor
  · rintro ⟨p', k', v', q, hreads, hprompts, heq⟩
    rcases hreads.eq_or_exists_step with ⟨rfl, rfl, rfl⟩ | ⟨step, q', l, w, rfl, hone, hrest⟩
    · obtain rfl : p = q := heq
      exact Or.inl hprompts
    · exact Or.inr ⟨step, q' ++ q, l, w, heq, hone, q', k', v', q, hrest, hprompts, rfl⟩
  · rintro (hprompts | ⟨step, q, k', v', rfl, hreads, p', k'', v'', q', hrest, hprompts, heq⟩)
    · exact ⟨[], k, v, p, .here k v, hprompts, rfl⟩
    · exact ⟨[step] ++ p', k'', v'', q', hreads.trans hrest, hprompts, congrArg (step :: ·) heq⟩

/-! ### Warnings that account for remarks -/

/-- The remarks as they are seen from one step further out. -/
def ahead (step : Step) (S : Set (Position × Remark)) : Set (Position × Remark) :=
  {x | ∃ q, x.1 = step :: q ∧ (q, x.2) ∈ S}

/-- The warnings tell each of the remarks once, and nothing else. -/
def Accounts (here : String) (remarks : Set (Position × Remark)) (ws : List Warning) : Prop :=
  ∃ l : List (Position × Remark), l.Nodup ∧ (∀ x, x ∈ l ↔ x ∈ remarks) ∧
    ws = l.map fun x => x.2.warning (locate here x.1)

namespace Accounts

variable {S T : Set (Position × Remark)} {ws' : List Warning}

theorem empty (h : ∀ x, x ∉ S) : Accounts here S [] :=
  ⟨[], List.nodup_nil, fun x => iff_of_false List.not_mem_nil (h x), rfl⟩

theorem single {x : Position × Remark} (h : ∀ y, y ∈ S ↔ y = x) :
    Accounts here S [x.2.warning (locate here x.1)] :=
  ⟨[x], List.nodup_singleton x, fun y => List.mem_singleton.trans (h y).symm, rfl⟩

theorem append {U : Set (Position × Remark)} (h : Accounts here S ws) (h' : Accounts here T ws')
    (hapart : ∀ x ∈ S, x ∉ T) (hU : ∀ x, x ∈ U ↔ x ∈ S ∨ x ∈ T) : Accounts here U (ws ++ ws') := by
  obtain ⟨l, hl, hmem, rfl⟩ := h
  obtain ⟨l', hl', hmem', rfl⟩ := h'
  refine ⟨l ++ l', ?_, fun x => ?_, (List.map_append ..).symm⟩
  · refine List.nodup_append.mpr ⟨hl, hl', ?_⟩
    rintro x hx _ hx' rfl
    exact hapart x ((hmem x).mp hx) ((hmem' x).mp hx')
  · rw [List.mem_append, hmem, hmem', hU]

theorem ahead (step : Step) (h : Accounts (locate here [step]) S ws) :
    Accounts here (ahead step S) ws := by
  obtain ⟨l, hl, hmem, rfl⟩ := h
  refine ⟨l.map fun x => (step :: x.1, x.2), ?_, fun x => ?_, ?_⟩
  · refine hl.map fun a b hab => ?_
    obtain ⟨hpos, hremark⟩ := Prod.mk.inj hab
    exact Prod.ext (List.cons.inj hpos).2 hremark
  · rw [List.mem_map]
    constructor
    · rintro ⟨y, hy, rfl⟩
      exact ⟨y.1, rfl, (hmem y).mp hy⟩
    · rintro ⟨q, hq, hx⟩
      exact ⟨(q, x.2), (hmem _).mpr hx, Prod.ext hq.symm rfl⟩
  · rw [List.map_map]
    refine List.map_congr_left fun x _ => ?_
    cases step <;> rfl

theorem mem (h : Accounts here S ws) {x : Position × Remark} (hx : x ∈ S) :
    x.2.warning (locate here x.1) ∈ ws := by
  obtain ⟨l, -, hmem, rfl⟩ := h
  exact List.mem_map_of_mem ((hmem x).mpr hx)

theorem exists_of_mem (h : Accounts here S ws) {w : Warning} (hw : w ∈ ws) :
    ∃ x ∈ S, x.2.warning (locate here x.1) = w := by
  obtain ⟨l, -, hmem, rfl⟩ := h
  obtain ⟨x, hx, hwarning⟩ := List.mem_map.mp hw
  exact ⟨x, (hmem x).mp hx, hwarning⟩

end Accounts

/-- The warnings account for the remarks, and if the rules are strict, no member was dropped. -/
structure Rules.Tells (rules : Rules) (here : String) (remarks : Set (Position × Remark))
    (ws : List Warning) : Prop where
  /-- The warnings account for the remarks. -/
  accounts : Accounts here remarks ws
  /-- Strict rules are heeded. -/
  heeds : rules.strict → ∀ w ∈ ws, w.isDropped = false

namespace Rules.Tells

variable {S T : Set (Position × Remark)} {ws' : List Warning}

theorem empty (h : ∀ x, x ∉ S) : rules.Tells here S [] := ⟨.empty h, nofun⟩

theorem append {U : Set (Position × Remark)} (h : rules.Tells here S ws)
    (h' : rules.Tells here T ws') (hapart : ∀ x ∈ S, x ∉ T) (hU : ∀ x, x ∈ U ↔ x ∈ S ∨ x ∈ T) :
    rules.Tells here U (ws ++ ws') :=
  ⟨h.accounts.append h'.accounts hapart hU, fun hstrict =>
    List.forall_mem_append.mpr ⟨h.heeds hstrict, h'.heeds hstrict⟩⟩

theorem ahead (step : Step) (h : rules.Tells (locate here [step]) S ws) :
    rules.Tells here (ahead step S) ws :=
  ⟨h.accounts.ahead step, h.heeds⟩

theorem congr (h : rules.Tells here S ws) (hT : ∀ x, x ∈ T ↔ x ∈ S) : rules.Tells here T ws := by
  rwa [Set.ext hT]

/-- Remarks that lie ahead of different steps are told one after the other. -/
theorem cons {α : Type} (step : α → Step) (S : α → Set (Position × Remark)) {a : α} {l : List α}
    (hnew : ∀ b ∈ l, step a ≠ step b) (h : rules.Tells (locate here [step a]) (S a) ws)
    (h' : rules.Tells here {x | ∃ b ∈ l, x ∈ Graph.ahead (step b) (S b)} ws') :
    rules.Tells here {x | ∃ b ∈ a :: l, x ∈ Graph.ahead (step b) (S b)} (ws ++ ws') := by
  refine (h.ahead (step a)).append h' ?_ fun x => List.exists_mem_cons_iff ..
  -- one position does not begin with two steps
  rintro x ⟨p, hp, -⟩ ⟨b, hb, q, hq, -⟩
  rw [hp] at hq
  exact hnew b hb (List.cons.inj hq).1

end Rules.Tells

/-! ### Checks and their warnings -/

section Notes

variable {α β : Type}

/-- The check adds warnings to the ones so far. Together with what it yields, if it does not fail, they
have the property. -/
def Checked.Notes (t : Checked α) (P : α → List Warning → Prop) : Prop :=
  ∀ w a w', t.run w = .ok (a, w') → ∃ ws, w' = w ++ ws ∧ P a ws

namespace Checked.Notes

variable {P : α → List Warning → Prop} {Q : β → List Warning → Prop}

theorem pure {a : α} (h : P a []) : (Pure.pure a : Checked α).Notes P := by
  rintro w _ _ ⟨⟩
  exact ⟨[], (List.append_nil w).symm, h⟩

theorem refuse {location : String} {fault : FieldFault} :
    (Checked.refuse location fault : Checked α).Notes P := by
  rintro w a w' ⟨⟩

theorem warn {w : Warning} {P : Unit → List Warning → Prop} (h : P () [w]) :
    (Checked.warn w).Notes P := by
  rintro before _ _ ⟨⟩
  exact ⟨[w], rfl, h⟩

theorem bind {t : Checked α} {f : α → Checked β} (ht : t.Notes P)
    (hf : ∀ a ws, P a ws → (f a).Notes fun b ws' => Q b (ws ++ ws')) : (t >>= f).Notes Q := by
  intro w b w' h
  rw [StateT.run_bind] at h
  obtain ⟨⟨a, w₁⟩, ha, hb⟩ := exists_of_bind_eq_ok h
  obtain ⟨ws, rfl, hP⟩ := ht w a w₁ ha
  obtain ⟨ws', rfl, hQ⟩ := hf a ws hP _ b w' hb
  exact ⟨ws ++ ws', List.append_assoc .., hQ⟩

theorem mono {t : Checked α} {R : α → List Warning → Prop} (ht : t.Notes P)
    (h : ∀ a ws, P a ws → R a ws) : t.Notes R := by
  intro w a w' hrun
  obtain ⟨ws, hws, hP⟩ := ht w a w' hrun
  exact ⟨ws, hws, h a ws hP⟩

end Checked.Notes

end Notes

/-- What is accepted for a value: it keeps all that is read, and the warnings tell what is remarked. -/
structure Kind.Accepts (rules : Rules) (here : String) (k : Kind) (v : Value) (x : FieldValue)
    (ws : List Warning) : Prop where
  /-- What is read is stored. -/
  keeps : k.Keeps rules v x
  /-- What is remarked is told. -/
  tells : rules.Tells here (k.Remarks rules.policy v) ws

/-- A value in which nothing else is read. -/
theorem Kind.Accepts.leaf (h : k.Stores rules v x)
    (hleaf : ∀ step k' v', ¬ k.Reads rules.policy v [step] k' v')
    (hquiet : ∀ p r, ¬ k.Prompts rules.policy v p r) : k.Accepts rules here v x [] := by
  refine ⟨.of_step h fun step k' v' hreads => absurd hreads (hleaf step k' v'), .empty ?_⟩
  rintro ⟨p, r⟩ hmem
  rcases Kind.mem_remarks_iff.mp hmem with hprompts | ⟨step, q, k', v', -, hreads, -⟩
  · exact hquiet p r hprompts
  · exact hleaf step k' v' hreads

/-! ### Numbers and references -/

theorem accepts_checkNumber (n : Json.Number) :
    (checkNumber here n).Notes (Kind.number.Accepts rules here (.number n)) := by
  have hleaf : ∀ step k' v', ¬ Kind.number.Reads rules.policy (.number n) [step] k' v' := nofun
  unfold checkNumber
  cases n with
  | float y finite =>
    refine .pure (.leaf (.number _) hleaf ?_)
    rintro p r ⟨⟩
  | int i fits =>
    show Checked.Notes (if _ then _ else _) _
    split
    · next inexact =>
      -- the one remark is on the number itself
      refine .bind (.warn (P := fun _ ws => ws = [.rounded here (.number (.int i fits)) (.ofInt i)])
        rfl) ?_
      rintro _ _ rfl
      refine .pure ⟨.of_step (.number _) fun _ _ _ hreads => absurd hreads (hleaf _ _ _), ?_, ?_⟩
      · refine .single (x := ([], .rounded (.number (.int i fits)) (.ofInt i))) ?_
        rintro ⟨p, r⟩
        rw [Kind.mem_remarks_iff]
        constructor
        · rintro (hprompts | ⟨_, _, _, _, -, hreads, -⟩)
          · cases hprompts
            rfl
          · exact absurd hreads (hleaf _ _ _)
        · rintro ⟨⟩
          exact Or.inl (.rounded inexact)
      · intro hstrict w hw
        rw [List.mem_singleton.mp hw]
        rfl
    · next exact' =>
      refine .pure (.leaf (.number _) hleaf ?_)
      rintro p r ⟨inexact⟩
      exact exact' inexact

theorem accepts_checkReference {targets : List String} (s : String) :
    (checkReference rules here targets s).Notes
      ((Kind.reference targets).Accepts rules here (.string s)) := by
  have hleaf : ∀ step k' v', ¬ (Kind.reference targets).Reads rules.policy (.string s) [step] k' v' :=
    nofun
  unfold checkReference
  dsimp only
  split
  · exact .refuse
  · refine .pure (.leaf (.reference targets s) hleaf ?_)
    rintro p r ⟨⟩

/-! ### Lists -/

/-- The remarks on a list are those on its items. -/
theorem Kind.mem_remarks_list_iff {items : Kind} {vs : List Value} {x : Position × Remark} :
    x ∈ (Kind.list items).Remarks policy (.array vs) ↔
      ∃ e ∈ vs.zipIdx, x ∈ ahead (.item e.2) (items.Remarks policy e.1) := by
  obtain ⟨p, r⟩ := x
  rw [mem_remarks_iff]
  constructor
  · rintro (hprompts | ⟨step, q, k', v', rfl, hreads, hmem⟩)
    · cases hprompts
    · obtain ⟨rfl, i, rfl, item⟩ := hreads.exists_item
      exact ⟨(_, i), List.mem_zipIdx_iff_getElem?.mpr item, q, rfl, hmem⟩
  · rintro ⟨⟨w, i⟩, he, q, rfl, hmem⟩
    exact Or.inr ⟨.item i, q, items, w, rfl,
      .item (List.mem_zipIdx_iff_getElem?.mp he) (.here items w), hmem⟩

/-- Items are accepted one after the other. -/
theorem accepts_mapM (rules : Rules) (here : String) (items : Kind) {es : List (Value × Nat)}
    {f : Value × Nat → Checked FieldValue} (hes : (es.map (·.2)).Nodup)
    (hf : ∀ e ∈ es, (f e).Notes (items.Accepts rules (locate here [.item e.2]) e.1)) :
    (es.mapM f).Notes fun xs ws => List.Forall₂ (fun e x => items.Keeps rules e.1 x) es xs ∧
      rules.Tells here {x | ∃ e ∈ es, x ∈ ahead (.item e.2) (items.Remarks rules.policy e.1)} ws := by
  induction es with
  | nil => exact .pure ⟨.nil, .empty (by simp)⟩
  | cons e es ih =>
    rw [List.map_cons, List.nodup_cons] at hes
    obtain ⟨hhead, hrest⟩ := List.forall_mem_cons.mp hf
    rw [List.mapM_cons]
    refine .bind hhead fun x ws hx => .bind (ih hes.2 hrest) ?_
    rintro xs ws' ⟨hxs, htells⟩
    refine .pure ⟨.cons hx.keeps hxs, ?_⟩
    rw [List.append_nil]
    refine Rules.Tells.cons (fun e : Value × Nat => Step.item e.2)
      (fun e => items.Remarks rules.policy e.1) ?_ hx.tells htells
    intro d hd heq
    exact hes.1 (List.mem_map.mpr ⟨d, hd, (Step.item.inj heq).symm⟩)

theorem Kind.Accepts.list {items : Kind} {vs : List Value} {xs : List FieldValue}
    (h : List.Forall₂ (fun e x => items.Keeps rules e.1 x) vs.zipIdx xs)
    (htells : rules.Tells here
      {x | ∃ e ∈ vs.zipIdx, x ∈ ahead (.item e.2) (items.Remarks rules.policy e.1)} ws) :
    (Kind.list items).Accepts rules here (.array vs) (.list xs) ws := by
  have hlength : xs.length = vs.length := by rw [← h.length_eq, List.length_zipIdx]
  refine ⟨.of_step (.list items hlength) fun step k' v' hreads => ?_,
    htells.congr fun x => mem_remarks_list_iff⟩
  obtain ⟨rfl, i, rfl, item⟩ := hreads.exists_item
  have hi : i < xs.length := by
    rw [hlength]
    exact (List.getElem?_eq_some_iff.mp item).1
  have hkeeps := h.get (i := i) (by rw [h.length_eq]; exact hi) hi
  simp only [List.get_eq_getElem, List.getElem_zipIdx] at hkeeps
  refine ⟨xs[i], by simp [FieldValue.at?, hi], ?_⟩
  rwa [(List.getElem?_eq_some_iff.mp item).2] at hkeeps

/-! ### Objects -/

section Objects

variable {templates : List Template} {t : Template} {name : String}
  {members : List (String × Value)} {fs : List Field}

/-- The names that count are those of members that are not null and do not name the template. -/
theorem mem_presentNames_iff (h : Entries.Sorted members) : name ∈ presentNames members ↔
    ∃ v, Entries.find? name members = some v ∧ v.isNull = false ∧ name ≠ systemTemplate := by
  simp only [presentNames, List.mem_map, List.mem_filter, Entries.find?_eq_some_iff h]
  constructor
  · rintro ⟨⟨m, v⟩, ⟨hmem, hcounts⟩, rfl⟩
    exact ⟨v, hmem, by simpa using hcounts⟩
  · rintro ⟨v, hmem, hnull, hfree⟩
    exact ⟨(name, v), ⟨hmem, by simp [hnull, hfree]⟩, rfl⟩

theorem nodup_presentNames (h : Entries.Sorted members) : (presentNames members).Nodup := by
  -- the members are in the order of their names
  refine List.Nodup.of_map id ?_
  rw [List.map_id]
  refine (List.Pairwise.map _ (fun a b hab => ?_) (h.filter _) : (presentNames members).Pairwise _)
  exact Std.ne_of_lt hab

/-- The remarks on a member itself: it is dropped if it has no field. -/
def undeclaredRemarks (t : Template) (name : String) : Set (Position × Remark) :=
  {x | t.field? name = none ∧ x = ([], .dropped t.name)}

/-- The remarks on what is in the member of a field. -/
def memberRemarks (policy : TemplatePolicy) (members : List (String × Value)) (f : Field) :
    Set (Position × Remark) :=
  {x | ∃ v, Entries.find? f.name members = some v ∧ v.isNull = false ∧ x ∈ f.kind.Remarks policy v}

/-- The remarks on an object are those on its members and on what is in them. -/
theorem Kind.mem_remarks_object_iff (hchosen : selectTemplate policy templates members = .ok t)
    (hnames : (t.fields.map (·.name)).Nodup) (hsorted : Entries.Sorted members)
    {x : Position × Remark} : x ∈ (Kind.object templates).Remarks policy (.object members) ↔
      (∃ name ∈ presentNames members, x ∈ ahead (.member name) (undeclaredRemarks t name)) ∨
        ∃ f ∈ t.fields, x ∈ ahead (.member f.name) (memberRemarks policy members f) := by
  obtain ⟨p, r⟩ := x
  rw [mem_remarks_iff]
  -- a remark on the object itself is one on a member without a field
  refine or_congr ⟨?_, ?_⟩ ⟨?_, ?_⟩
  · intro hprompts
    cases hprompts with
    | @dropped _ _ u name v chosen found present free undeclared =>
      rw [hchosen] at chosen
      cases chosen
      exact ⟨name, (mem_presentNames_iff hsorted).mpr ⟨v, found, present, free⟩, [], rfl,
        undeclared, rfl⟩
  · rintro ⟨name, hname, q, rfl, undeclared, heq⟩
    obtain ⟨v, found, present, free⟩ := (mem_presentNames_iff hsorted).mp hname
    cases heq
    exact .dropped hchosen found present free undeclared
  · rintro ⟨step, q, k', v', rfl, hreads, hmem⟩
    obtain ⟨f, hf, rfl, rfl, found, present⟩ := hreads.exists_field hchosen
    exact ⟨f, hf, q, rfl, v', found, present, hmem⟩
  · rintro ⟨f, hf, q, rfl, v, found, present, hmem⟩
    exact ⟨.member f.name, q, f.kind, v, rfl,
      .member hchosen (find?_name_eq hnames hf) found present (.here f.kind v), hmem⟩

theorem tells_forM {l : List String} {f : String → Checked Unit}
    {S : String → Set (Position × Remark)} (hl : l.Nodup)
    (hf : ∀ n ∈ l, (f n).Notes fun _ ws => rules.Tells (locate here [.member n]) (S n) ws) :
    (l.forM f).Notes fun _ ws => rules.Tells here {x | ∃ n ∈ l, x ∈ ahead (.member n) (S n)} ws := by
  induction l with
  | nil => exact .pure (.empty (by simp))
  | cons n l ih =>
    obtain ⟨hnew, hl⟩ := List.nodup_cons.mp hl
    obtain ⟨hhead, hrest⟩ := List.forall_mem_cons.mp hf
    refine .bind hhead fun _ ws hn => (ih hl hrest).mono fun _ ws' hws' => ?_
    refine Rules.Tells.cons Step.member S ?_ hn hws'
    rintro m hm heq
    exact hnew (Step.member.inj heq ▸ hm)

/-- Members without a field are dropped, unless the rules are strict. -/
theorem tells_checkUndeclared (hsorted : Entries.Sorted members) :
    (checkUndeclared rules.strict here t.name t.fields members).Notes fun _ ws =>
      rules.Tells here
        {x | ∃ name ∈ presentNames members, x ∈ ahead (.member name) (undeclaredRemarks t name)}
        ws := by
  refine tells_forM (nodup_presentNames hsorted) fun name _ => ?_
  dsimp only
  split
  · next hnone =>
    have hfield : t.field? name = none := by
      simpa [Template.field?] using hnone
    split
    · exact .refuse
    · next hloose =>
      refine .warn ⟨.single (x := ([], .dropped t.name)) fun y => ?_, fun hstrict => ?_⟩
      · exact and_iff_right hfield
      · exact absurd hstrict hloose
  · next hsome =>
    refine .pure (.empty ?_)
    rintro x ⟨hfield, -⟩
    exact hsome (by simpa [Template.field?] using hfield)

/-- What is in the fields of an object is accepted. -/
structure Fields.Accepted (rules : Rules) (here : String) (members : List (String × Value))
    (fs : List Field) (l : List (String × FieldValue)) (ws : List Warning) : Prop where
  /-- The fields that have a value are among those given. -/
  names : (l.map (·.1)).Sublist (fs.map (·.name))
  /-- What is read in a member is stored in its field. -/
  keeps : ∀ f ∈ fs, ∀ v, Entries.find? f.name members = some v → v.isNull = false →
    ∃ x, (f.name, x) ∈ l ∧ f.kind.Keeps rules v x
  /-- What is remarked is told. -/
  tells : rules.Tells here
    {x | ∃ f ∈ fs, x ∈ ahead (.member f.name) (memberRemarks rules.policy members f)} ws

theorem Fields.Accepted.nil : Fields.Accepted rules here members [] [] [] :=
  ⟨.slnil, nofun, .empty (by simp)⟩

/-- A field of which the member is there. -/
theorem Fields.Accepted.cons {f : Field} {l : List (String × FieldValue)} {ws' : List Warning}
    (hnew : f.name ∉ fs.map (·.name)) (hfind : Entries.find? f.name members = some v)
    (hnull : v.isNull = false) (hx : f.kind.Accepts rules (locate here [.member f.name]) v x ws)
    (h : Accepted rules here members fs l ws') :
    Accepted rules here members (f :: fs) ((f.name, x) :: l) (ws ++ ws') := by
  refine ⟨h.names.cons_cons f.name, List.forall_mem_cons.mpr ⟨?_, ?_⟩, ?_⟩
  · intro w hw _
    cases hfind.symm.trans hw
    exact ⟨x, List.mem_cons_self .., hx.keeps⟩
  · intro g hg w hw hpresent
    obtain ⟨y, hy, hkeeps⟩ := h.keeps g hg w hw hpresent
    exact ⟨y, List.mem_cons_of_mem _ hy, hkeeps⟩
  · refine Rules.Tells.cons (fun f : Field => Step.member f.name)
      (memberRemarks rules.policy members) ?_ (hx.tells.congr fun y => ?_) h.tells
    · rintro g hg heq
      exact hnew (List.mem_map.mpr ⟨g, hg, (Step.member.inj heq).symm⟩)
    · constructor
      · rintro ⟨w, hw, -, hmem⟩
        cases hfind.symm.trans hw
        exact hmem
      · intro hmem
        exact ⟨v, hfind, hnull, hmem⟩

/-- A field of which the member is not there. -/
theorem Fields.Accepted.skip {f : Field} {l : List (String × FieldValue)}
    (hfind : ∀ v, Entries.find? f.name members = some v → v.isNull = true)
    (h : Accepted rules here members fs l ws) : Accepted rules here members (f :: fs) l ws := by
  have habsurd {v : Value} (hv : Entries.find? f.name members = some v) : v.isNull ≠ false := by
    rw [hfind v hv]
    nofun
  refine ⟨h.names.cons f.name, List.forall_mem_cons.mpr ⟨fun v hv hnull => ?_, h.keeps⟩,
    h.tells.congr fun x => ?_⟩
  · exact absurd hnull (habsurd hv)
  · rw [Set.mem_ofPred, List.exists_mem_cons_iff]
    refine or_iff_right ?_
    rintro ⟨p, -, v, hv, hnull, -⟩
    exact habsurd hv hnull

theorem Kind.Accepts.object {l : List (String × FieldValue)} {ws' : List Warning}
    (hchosen : selectTemplate rules.policy templates members = .ok t)
    (hnames : (t.fields.map (·.name)).Nodup) (hsorted : Entries.Sorted members)
    (hundeclared : rules.Tells here
      {x | ∃ name ∈ presentNames members, x ∈ ahead (.member name) (undeclaredRemarks t name)} ws)
    (h : Fields.Accepted rules here members t.fields l ws') :
    (Kind.object templates).Accepts rules here (.object members)
      (.object t.name (Entries.ofList l)) (ws ++ ws') := by
  constructor
  · refine .of_step (.object hchosen _) fun step k' v' hreads => ?_
    obtain ⟨f, hf, rfl, rfl, found, present⟩ := hreads.exists_field hchosen
    obtain ⟨y, hy, hkeeps⟩ := h.keeps f hf v' found present
    refine ⟨y, ?_, hkeeps⟩
    rw [FieldValue.at?, Entries.find?_ofList_of_mem (h.names.nodup hnames) hy]
    rfl
  · refine hundeclared.append h.tells ?_ fun x => mem_remarks_object_iff hchosen hnames hsorted
    rintro x ⟨name, hname, q, hq, hfree, -⟩ ⟨f, hf, q', hq', -⟩
    -- a name that is declared is not one that is not
    rw [hq] at hq'
    obtain rfl := Step.member.inj (List.cons.inj hq').1
    exact Option.some_ne_none f ((find?_name_eq hnames hf).symm.trans hfree)

end Objects

/-! ### All values -/

section Normalization

variable {names : List String}

mutual

/-- **What is read is stored, and the warnings account for the remarks.** -/
theorem Kind.accepts_normalize {here : String} {k : Kind} (hk : k.Declared names) {v : Value}
    (hv : v.IsCanonical) : (k.normalize rules here v).Notes (k.Accepts rules here v) := by
  rw [Kind.normalize.eq_def]
  cases k with
  | string =>
    cases v with
    | string s => exact .pure (.leaf (.string s) nofun nofun)
    | _ => exact .refuse
  | boolean =>
    cases v with
    | bool b => exact .pure (.leaf (.boolean b) nofun nofun)
    | _ => exact .refuse
  | richText => exact .pure (.leaf (.richText v) nofun nofun)
  | number =>
    cases v with
    | number n => exact accepts_checkNumber n
    | _ => exact .refuse
  | datetime =>
    cases v with
    | string s =>
      show Checked.Notes (match Instant.canonical? s with
        | some d => _
        | none => _) _
      split
      · next hread => exact .pure (.leaf (.datetime hread) nofun nofun)
      · exact .refuse
    | _ => exact .refuse
  | reference targets =>
    cases v with
    | string s => exact accepts_checkReference s
    | _ => exact .refuse
  | list items =>
    cases v with
    | array vs =>
      have hnumbers : (vs.zipIdx.map (·.2)).Nodup := by
        rw [List.zipIdx_map_snd]
        exact List.nodup_range'
      refine .bind (accepts_mapM rules here items hnumbers fun e he => ?_) ?_
      · show Checked.Notes (if _ then _ else _) _
        -- an item that is null is refused
        split
        · exact .refuse
        · refine Kind.accepts_normalize (k := items) hk (Value.itemsCanonical_iff.mp hv e.1 ?_)
          exact List.fst_mem_of_mem_zipIdx he
      · rintro xs ws ⟨hxs, htells⟩
        refine .pure ?_
        rw [List.append_nil]
        exact .list hxs htells
    | _ => exact .refuse
  | object templates =>
    cases v with
    | object members =>
      show Checked.Notes (match selectTemplate rules.policy templates members with
        | .error fault => _
        | .ok t => _) _
      split
      · exact .refuse
      · next t hchosen =>
        refine .bind (Template.accepts_normalizeAs hk.2 hv (find?_name_eq hk.1.names
          (mem_of_selectTemplate hchosen))) ?_
        rintro fields ws hfields
        refine .pure ?_
        rw [List.append_nil]
        exact hfields templates hchosen
    | _ => exact .refuse

/-- What is made by the first template of the name is accepted for an object that the template is
chosen for. -/
theorem Template.accepts_normalizeAs {here name : String} {members : List (String × Value)}
    {ts : List Template} {t : Template} (hts : Template.AllDeclared names ts)
    (hmembers : (Value.object members).IsCanonical) (ht : ts.find? (·.name = name) = some t) :
    (Template.normalizeAs rules here name members ts).Notes fun fields ws =>
      ∀ templates, selectTemplate rules.policy templates members = .ok t →
        (Kind.object templates).Accepts rules here (.object members) (.object t.name fields) ws := by
  match ts with
  | [] => cases ht
  | ⟨n, fs⟩ :: r =>
    rw [Template.normalizeAs]
    -- the first template of the name is the chosen one
    split
    · next heq =>
      subst heq
      rw [List.find?_cons_of_pos (by simp)] at ht
      obtain rfl := Option.some.inj ht
      refine .bind (tells_checkUndeclared (t := ⟨n, fs⟩) hmembers.1) fun _ ws htells => ?_
      refine .bind (Field.accepted_normalizeAll hts.2.1 hts.1 hmembers) fun l ws' hl => .pure ?_
      intro templates hchosen
      rw [List.append_nil]
      exact .object hchosen hts.1 hmembers.1 htells hl
    · next hne =>
      rw [List.find?_cons_of_neg (by simpa using hne)] at ht
      exact Template.accepts_normalizeAs hts.2.2 hmembers ht

/-- What is made of the members that have a field is accepted. -/
theorem Field.accepted_normalizeAll {here template : String} {members : List (String × Value)}
    {fs : List Field} (hfs : Field.AllDeclared names fs) (hnames : (fs.map (·.name)).Nodup)
    (hmembers : (Value.object members).IsCanonical) :
    (Field.normalizeAll rules here template members fs).Notes
      (Fields.Accepted rules here members fs) := by
  match fs with
  | [] => exact .pure .nil
  | ⟨name, kind, required, indexed⟩ :: r =>
    obtain ⟨hnew, hnames⟩ := List.nodup_cons.mp hnames
    have hrest : (Field.normalizeAll rules here template members r).Notes
        (Fields.Accepted rules here members r) :=
      Field.accepted_normalizeAll hfs.2.2 hnames hmembers
    rw [Field.normalizeAll]
    split
    · next v hv =>
      obtain ⟨hfind, hpresent⟩ := Option.filter_eq_some_iff.mp hv
      refine .bind (Kind.accepts_normalize hfs.2.1 (hmembers.member hfind)) fun x ws hx => ?_
      refine .bind hrest fun l ws' hl => .pure ?_
      rw [List.append_nil]
      exact .cons hnew hfind (by simpa using hpresent) hx hl
    · next hnone =>
      -- no member for the field, so it must not be a required one
      split
      · exact .refuse
      · refine hrest.mono fun l ws hl => .skip (fun v hv => ?_) hl
        simpa using Option.filter_eq_none_iff.mp hnone v hv

end

end Normalization

/-! ### Documents -/

/-- At the position of a document of the collection there is an object of the members, and the template
is chosen for it. -/
def Collection.Chooses (c : Collection) (policy : TemplatePolicy) (document : Value) (p : Position)
    (t : Template) (members : List (String × Value)) : Prop :=
  ∃ templates, c.Reads policy document p (.object templates) (.object members) ∧
    selectTemplate policy templates members = .ok t

/-- At the position of a document there is a member of an object that is not declared by the template
of the object. Members that are null do not count, nor does the one that names the template. -/
inductive Collection.Undeclared (c : Collection) (policy : TemplatePolicy) (document : Value) :
    Position → String → Prop
  | member {p : Position} {t : Template} {members : List (String × Value)} {name : String} {v : Value}
      (chosen : c.Chooses policy document p t members) (found : Entries.find? name members = some v)
      (present : v.isNull = false) (free : name ≠ systemTemplate)
      (undeclared : t.field? name = none) :
      Undeclared c policy document (p ++ [.member name]) t.name

section Documents

variable {G : Graph} {c : Collection} {path contentHash : String} {document : Value} {r : Record}

/-- The members that are not declared are those that are dropped. -/
theorem Collection.undeclared_iff {template : String} :
    c.Undeclared policy document p template ↔
      (p, .dropped template) ∈ (Kind.object c.templates).Remarks policy document := by
  constructor
  · rintro ⟨⟨templates, hreads, chosen⟩, found, present, free, undeclared⟩
    exact ⟨_, _, _, _, hreads, .dropped chosen found present free undeclared, rfl⟩
  · rintro ⟨p', k', v', q, hreads, hprompts, heq⟩
    obtain rfl : p = p' ++ q := heq
    cases hprompts with
    | dropped chosen found present free undeclared =>
      exact .member ⟨_, hreads, chosen⟩ found present free undeclared

/-- What a document is read as is accepted for it. -/
theorem Collection.accepts_of_record (hG : G.IsCompiled) (hc : c ∈ G.collections)
    (hdocument : document.IsCanonical)
    (h : c.record G policy path contentHash document = .ok (r, ws)) :
    (Kind.object c.templates).Accepts ⟨G, policy, c.strict⟩ "" document
      (.object r.template r.fields) ws := by
  have hdeclared := hG.declared.2 c hc
  unfold Collection.record at h
  cases document with
  | object members =>
    obtain ⟨t, ht, h⟩ := exists_of_bind_eq_ok h
    obtain ⟨⟨fields, warnings⟩, hfields, h⟩ := exists_of_bind_eq_ok h
    cases h
    have hchosen := eq_ok_of_mapError ht
    have hfind := find?_name_eq hdeclared.union.names (mem_of_selectTemplate hchosen)
    obtain ⟨ws', hws, haccepts⟩ := Template.accepts_normalizeAs hdeclared.templates hdocument hfind
      _ _ _ (eq_ok_of_mapError hfields)
    obtain rfl : ws = ws' := hws
    exact haccepts c.templates hchosen
  | _ => cases h

/-- The remark is that a member was dropped, for want of a field in the template. -/
def droppedFrom? (x : Position × Remark) : Option (Position × String) :=
  match x.2 with
  | .dropped template => some (x.1, template)
  | .rounded _ _ => none

theorem droppedFrom?_eq_some_iff {x : Position × Remark} {y : Position × String} :
    droppedFrom? x = some y ↔ x = (y.1, .dropped y.2) := by
  obtain ⟨p, r⟩ := x
  obtain ⟨q, template⟩ := y
  cases r <;> simp [droppedFrom?]

/-- Of warnings that account for remarks, those of dropped members account for the dropped members. -/
theorem Accounts.filter_isDropped {S : Set (Position × Remark)} (h : Accounts here S ws) :
    ∃ l : List (Position × String), l.Nodup ∧ (∀ x, x ∈ l ↔ (x.1, .dropped x.2) ∈ S) ∧
      ws.filter (·.isDropped) = l.map fun x => .dropped (locate here x.1) x.2 := by
  obtain ⟨l, hl, hmem, rfl⟩ := h
  refine ⟨l.filterMap droppedFrom?, ?_, fun x => ?_, ?_⟩
  · refine hl.filterMap fun a b y ha hb => ?_
    rw [droppedFrom?_eq_some_iff.mp ha, droppedFrom?_eq_some_iff.mp hb]
  · simp only [List.mem_filterMap, droppedFrom?_eq_some_iff, exists_eq_right, hmem]
  · clear hl hmem
    induction l with
    | nil => rfl
    | cons x l ih =>
      obtain ⟨p, r⟩ := x
      rw [List.map_cons]
      cases r with
      | dropped template =>
        have hsome : droppedFrom? (p, .dropped template) = some (p, template) := rfl
        rw [List.filter_cons_of_pos rfl, ih, List.filterMap_cons_some hsome, List.map_cons]
        rfl
      | rounded written stored =>
        have hnone : droppedFrom? (p, .rounded written stored) = none := rfl
        have hkept : ¬ (Remark.warning (locate here p) (.rounded written stored)).isDropped := nofun
        rw [List.filter_cons_of_neg hkept, ih, List.filterMap_cons_none hnone]

/-- **No member of a document is lost without a warning.** At each object that is read, a member is
stored with all that is read in it, or it has no field and the warnings tell that it was dropped. These
warnings tell of every such member once, and of nothing else. A strict collection has no record of a
document that has such a member. -/
theorem Collection.kept_or_noted (hG : G.IsCompiled) (hc : c ∈ G.collections)
    (hdocument : document.IsCanonical) :
    (∀ r ws, c.record G policy path contentHash document = .ok (r, ws) →
      (∀ p t members name v, c.Chooses policy document p t members →
        Entries.find? name members = some v → v.isNull = false → name ≠ systemTemplate →
        (∃ f x, t.field? name = some f ∧ r.at? (p ++ [.member name]) = some x ∧
          f.kind.Keeps ⟨G, policy, c.strict⟩ v x) ∨
        (t.field? name = none ∧ c.strict = false ∧
          .dropped (locate "" (p ++ [.member name])) t.name ∈ ws)) ∧
      ∃ l : List (Position × String), l.Nodup ∧
        (∀ x, x ∈ l ↔ c.Undeclared policy document x.1 x.2) ∧
        ws.filter (·.isDropped) = l.map fun x => .dropped (locate "" x.1) x.2) ∧
    (c.strict → (∃ p template, c.Undeclared policy document p template) →
      ∃ skip, c.record G policy path contentHash document = .error skip) := by
  constructor
  · intro r ws h
    have haccepts := accepts_of_record hG hc hdocument h
    constructor
    · intro p t members name v hchooses found present free
      obtain ⟨templates, hreads, chosen⟩ := hchooses
      cases hfield : t.field? name with
      | none =>
        -- what is not declared is remarked on, so the collection is not strict
        have hmem := undeclared_iff.mp (.member ⟨templates, hreads, chosen⟩ found present free hfield)
        have hwarned := haccepts.tells.accounts.mem hmem
        refine Or.inr ⟨rfl, Bool.eq_false_iff.mpr fun hstrict => ?_, hwarned⟩
        exact absurd (haccepts.tells.heeds hstrict _ hwarned) nofun
      | some f =>
        have hmember : c.Reads policy document (p ++ [.member name]) f.kind v :=
          hreads.trans (.member chosen hfield found present (.here f.kind v))
        obtain ⟨x, hx, -⟩ := haccepts.keeps _ _ _ hmember
        refine Or.inl ⟨f, x, rfl, hx, fun q k' v' hrest => ?_⟩
        obtain ⟨y, hy, hstores⟩ := haccepts.keeps _ _ _ (hmember.trans hrest)
        refine ⟨y, ?_, hstores⟩
        rwa [FieldValue.at?_append, hx] at hy
    · obtain ⟨l, hl, hmem, hws⟩ := haccepts.tells.accounts.filter_isDropped
      exact ⟨l, hl, fun x => (hmem x).trans undeclared_iff.symm, hws⟩
  · rintro hstrict ⟨p, template, hundeclared⟩
    cases h : c.record G policy path contentHash document with
    | error skip => exact ⟨skip, rfl⟩
    | ok made =>
      have htells := (accepts_of_record hG hc hdocument h).tells
      have hwarned := htells.accounts.mem (undeclared_iff.mp hundeclared)
      exact absurd (htells.heeds hstrict _ hwarned) nofun

/-- A post with a link, by somebody of whom more is told than posts have fields for. -/
def fullPost : Value :=
  .object [("by", .object [("mail", .string "me@posts"), ("name", .string "me")]),
    ("to", .string "./posts/a.json"), ("url", .string "/b")]

/-- The name is stored, and the warnings tell that the mail was dropped. -/
theorem Collection.kept_or_noted_fullPost : ∃ r ws,
    board.record (ofCollections [board]) .bestFit "posts/b.json" "" fullPost = .ok (r, ws) ∧
      (∃ x, r.at? [.member "by", .member "name"] = some x) ∧ .dropped "by.mail" "by" ∈ ws := by
  have hcheck : (board.record (ofCollections [board]) .bestFit "posts/b.json" ""
      fullPost).isOk := by
    decide +kernel
  have hchosen : selectTemplate .bestFit board.templates
      [("by", .object [("mail", .string "me@posts"), ("name", .string "me")]),
        ("to", .string "./posts/a.json"), ("url", .string "/b")] = .ok board.templates[1] := by
    decide +kernel
  have hby : board.Chooses .bestFit fullPost [.member "by"] ⟨"by", [⟨"name", .string, true, true⟩]⟩
      [("mail", .string "me@posts"), ("name", .string "me")] :=
    ⟨_, .member hchosen rfl rfl rfl (.here _ _), by decide +kernel⟩
  cases hmade : board.record (ofCollections [board]) .bestFit "posts/b.json" "" fullPost with
  | error skip =>
    rw [hmade] at hcheck
    cases hcheck
  | ok made =>
    obtain ⟨r, ws⟩ := made
    have hself : fullPost.canonical = fullPost := by decide +kernel
    have hcanonical : fullPost.IsCanonical := hself ▸ fullPost.isCanonical_canonical
    obtain ⟨hkept, -⟩ := (kept_or_noted board_compiled (List.mem_singleton_self board)
      hcanonical).1 r ws hmade
    refine ⟨r, ws, rfl, ?_, ?_⟩
    · rcases hkept _ _ _ "name" _ hby rfl rfl (by decide) with ⟨f, x, -, hx, -⟩ | ⟨hnone, -⟩
      · exact ⟨x, hx⟩
      · cases hnone
    · rcases hkept _ _ _ "mail" _ hby rfl rfl (by decide) with ⟨f, x, hsome, -⟩ | ⟨-, -, hmem⟩
      · cases hsome
      · exact hmem

end Documents

end Graph

end ContentIndex
