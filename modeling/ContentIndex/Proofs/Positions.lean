import ContentIndex.Proofs.Canonical
import ContentIndex.Proofs.Locations

/-!
# Positions in a document

A position is the sequence of names and numbers that lead into a value, and it is written as the
location that warnings and faults name. What is at a position of a document is read as a value of some
kind: the chosen templates tell the kinds of the members that they declare, and a list the kind of its
items. Different positions that are read have different locations, since declared names are proper.

## Main definitions

* `Json.Position`: positions
* `Json.Value.at?`, `FieldValue.at?`: what is at a position
* `Graph.locate`: the location of a position
* `Graph.Kind.Reads`: at a position, a value is read as one of a kind

## Main results

* `Graph.Kind.Reads.at?`: what is read at a position is there
* `Graph.Kind.Reads.unique`: at one position, one value is read as one kind
* `Graph.Kind.Reads.eq_of_locate`: **positions that are read are told apart by their locations**
-/

namespace ContentIndex

open Json (Value)

namespace Json

/-! ### Positions in values -/

/-- One step into a value. -/
inductive Step
  /-- To the member of the name. -/
  | member (name : String)
  /-- To the item of the number. -/
  | item (i : Nat)
  deriving DecidableEq

/-- The steps that lead to a part of a value, from the outside. -/
abbrev Position := List Step

/-- What is at the position. -/
def Value.at? : Position → Value → Option Value
  | [], v => some v
  | .member name :: p, .object members => (Entries.find? name members).bind (at? p)
  | .item i :: p, .array items => items[i]?.bind (at? p)
  | _ :: _, _ => none

end Json

open Json (Step Position)

/-- What is stored at the position. -/
def FieldValue.at? : Position → FieldValue → Option FieldValue
  | [], x => some x
  | .member name :: p, .object _ fields => (Entries.find? name fields).bind (at? p)
  | .item i :: p, .list items => items[i]?.bind (at? p)
  | _ :: _, _ => none

theorem FieldValue.at?_append {p q : Position} {x : FieldValue} :
    x.at? (p ++ q) = (x.at? p).bind (at? q) := by
  induction p generalizing x with
  | nil => rfl
  | cons step p ih =>
    cases step with
    | member name =>
      cases x with
      | object template fields =>
        simp only [List.cons_append, at?, Option.bind_assoc]
        exact congrArg _ (funext fun y => ih)
      | _ => rfl
    | item i =>
      cases x with
      | list items =>
        simp only [List.cons_append, at?, Option.bind_assoc]
        exact congrArg _ (funext fun y => ih)
      | _ => rfl

/-- What the record has at the position. -/
def Record.at? (r : Record) (p : Position) : Option FieldValue :=
  (FieldValue.object r.template r.fields).at? p

namespace Graph

/-- The location of a position inside another location. -/
def locate (here : String) : Position → String
  | [] => here
  | .member name :: p => locate (memberLocation here name) p
  | .item i :: p => locate (here ++ "[" ++ toString i ++ "]") p

variable {policy : TemplatePolicy} {k k' k'' : Kind} {v v' v'' : Value} {p q : Position}

/-! ### What is read at a position -/

/-- At the position of the value, which is read as one of the first kind, another value is read as one
of the second kind. Members that are null are not read. -/
inductive Kind.Reads (policy : TemplatePolicy) : Kind → Value → Position → Kind → Value → Prop
  | here (k : Kind) (v : Value) : Reads policy k v [] k v
  | item {items : Kind} {vs : List Value} {i : Nat} {v : Value} {p : Position} {k : Kind} {w : Value}
      (item : vs[i]? = some v) (rest : Reads policy items v p k w) :
      Reads policy (.list items) (.array vs) (.item i :: p) k w
  | member {templates : List Template} {members : List (String × Value)} {t : Template} {name : String}
      {f : Field} {v : Value} {p : Position} {k : Kind} {w : Value}
      (chosen : selectTemplate policy templates members = .ok t) (declared : t.field? name = some f)
      (found : Entries.find? name members = some v) (present : v.isNull = false)
      (rest : Reads policy f.kind v p k w) :
      Reads policy (.object templates) (.object members) (.member name :: p) k w

/-- At the position of a document of the collection, the value is read as one of the kind. -/
def Collection.Reads (c : Collection) (policy : TemplatePolicy) (document : Value) (p : Position)
    (k : Kind) (v : Value) : Prop :=
  (Kind.object c.templates).Reads policy document p k v

namespace Kind.Reads

theorem trans (h : k.Reads policy v p k' v') (h' : k'.Reads policy v' q k'' v'') :
    k.Reads policy v (p ++ q) k'' v'' := by
  induction h with
  | here => exact h'
  | item item _ ih => exact .item item (ih h')
  | member chosen declared found present _ ih =>
    exact .member chosen declared found present (ih h')

/-- **What is read at a position is there.** -/
theorem at? (h : k.Reads policy v p k' v') : v.at? p = some v' := by
  induction h with
  | here => rfl
  | item item _ ih => rw [Value.at?, item, Option.bind_some, ih]
  | member _ _ found _ _ ih => rw [Value.at?, found, Option.bind_some, ih]

/-- **At one position, one value is read as one kind.** -/
theorem unique (h : k.Reads policy v p k' v') (h' : k.Reads policy v p k'' v'') :
    k' = k'' ∧ v' = v'' := by
  induction h with
  | here =>
    cases h'
    exact ⟨rfl, rfl⟩
  | item item _ ih =>
    cases h' with
    | item item' rest =>
      rw [item] at item'
      cases item'
      exact ih rest
  | member chosen declared found _ _ ih =>
    cases h' with
    | member chosen' declared' found' _ rest =>
      rw [chosen] at chosen'
      cases chosen'
      rw [declared] at declared'
      cases declared'
      rw [found] at found'
      cases found'
      exact ih rest

/-- A member that is read is not null. -/
theorem isNull_eq_false {name : String} (h : k.Reads policy v (p ++ [.member name]) k' v') :
    v'.isNull = false := by
  induction p generalizing k v with
  | nil =>
    cases h with
    | member chosen declared found present rest =>
      obtain ⟨-, rfl⟩ := rest.unique (.here _ _)
      exact present
  | cons step p ih =>
    cases h with
    | item item rest => exact ih rest
    | member chosen declared found present rest => exact ih rest

/-- What is read is the value itself, or it is read in what lies one step ahead. -/
theorem eq_or_exists_step (h : k.Reads policy v p k' v') : p = [] ∧ k' = k ∧ v' = v ∨
    ∃ step q l w, p = step :: q ∧ k.Reads policy v [step] l w ∧ l.Reads policy w q k' v' := by
  cases h with
  | here => exact Or.inl ⟨rfl, rfl, rfl⟩
  | item item rest => exact Or.inr ⟨_, _, _, _, rfl, .item item (.here _ _), rest⟩
  | member chosen declared found present rest =>
    exact Or.inr ⟨_, _, _, _, rfl, .member chosen declared found present (.here _ _), rest⟩

/-- What is read one step into a list is one of its items. -/
theorem exists_item {items : Kind} {vs : List Value} {step : Step}
    (h : (Kind.list items).Reads policy (.array vs) [step] k' v') :
    k' = items ∧ ∃ i, step = .item i ∧ vs[i]? = some v' := by
  cases h with
  | @item _ _ i _ _ _ _ item rest =>
    cases rest
    exact ⟨rfl, i, rfl, item⟩

/-- What is read one step into an object is the member of a field. -/
theorem exists_field {templates : List Template} {members : List (String × Value)} {t : Template}
    {step : Step} (h : (Kind.object templates).Reads policy (.object members) [step] k' v')
    (hchosen : selectTemplate policy templates members = .ok t) :
    ∃ f ∈ t.fields, step = .member f.name ∧ k' = f.kind ∧
      Entries.find? f.name members = some v' ∧ v'.isNull = false := by
  cases h with
  | @member _ _ u name f v _ _ _ chosen declared found present rest =>
    rw [hchosen] at chosen
    cases chosen
    obtain ⟨rfl, rfl⟩ := rest.unique (.here f.kind v)
    obtain rfl := eq_of_find?_name declared
    exact ⟨f, List.mem_of_find?_eq_some declared, rfl, rfl, found, present⟩

end Kind.Reads

/-! ### Locations of positions -/

section Locations

variable {names : List String} {templates : List Template} {t : Template} {f : Field} {name : String}

/-- The fields of a chosen template have proper names and well declared kinds. -/
theorem declared_of_chosen {members : List (String × Value)}
    (h : (Kind.object templates).Declared names)
    (hchosen : selectTemplate policy templates members = .ok t) (hf : t.field? name = some f) :
    isName name ∧ f.kind.Declared names := by
  have hfields := (Template.allDeclared_iff.mp h.2 t (mem_of_selectTemplate hchosen)).2
  obtain ⟨hproper, hkind⟩ := Field.allDeclared_iff.mp hfields f (List.mem_of_find?_eq_some hf)
  exact ⟨eq_of_find?_name hf ▸ hproper.name, hkind⟩

open Location (Under)

/-- Positions lie below the location that they start from. -/
theorem Kind.Reads.under_locate (h : k.Reads policy v p k' v') (hk : k.Declared names) {here : String}
    (hhere : here ≠ "") : Under here (locate here p) := by
  induction h generalizing here with
  | here => exact Under.refl here
  | @item items vs i v p k' v' item rest ih =>
    have hstep := Location.under_item here i
    exact hstep.trans (ih hk (hstep.ne_empty hhere))
  | @member templates members t name f v p k' v' chosen declared found present rest ih =>
    have hstep := Location.under_member hhere name
    exact hstep.trans (ih (declared_of_chosen hk chosen declared).2 (hstep.ne_empty hhere))

/-- A position that goes on is longer than what it starts from. -/
theorem Kind.Reads.length_lt (h : k.Reads policy v p k' v') (hk : k.Declared names) (hp : p ≠ [])
    (here : String) : here.toList.length < (locate here p).toList.length := by
  cases h with
  | here => exact absurd rfl hp
  | @item items vs i v p k' v' item rest =>
    have hne : here ++ "[" ++ toString i ++ "]" ≠ "" := by simp
    have hbracket : "[".toList.length = 1 := rfl
    refine Nat.lt_of_lt_of_le ?_ (rest.under_locate hk hne).length_le
    simp only [String.toList_append, List.length_append]
    omega
  | @member templates members t name f v p k' v' chosen declared found present rest =>
    obtain ⟨hname, hkind⟩ := declared_of_chosen hk chosen declared
    refine Nat.lt_of_lt_of_le (Location.length_lt_memberLocation hname) ?_
    exact (rest.under_locate hkind (Location.memberLocation_ne_empty hname)).length_le

/-- **Positions that are read are told apart by their locations.** -/
theorem Kind.Reads.eq_of_locate (h : k.Reads policy v p k' v') (hk : k.Declared names)
    (h' : k.Reads policy v q k'' v'') {here : String} (heq : locate here p = locate here q) :
    p = q := by
  induction h generalizing q here with
  | here k v =>
    by_contra hne
    have hlength := h'.length_lt hk (Ne.symm hne) here
    rw [← heq] at hlength
    exact Nat.lt_irrefl _ hlength
  | @item items vs i v p k' v' item rest ih =>
    cases h' with
    | here =>
      have hlength := (Kind.Reads.item item rest).length_lt hk (by simp) here
      rw [heq] at hlength
      exact absurd hlength (Nat.lt_irrefl _)
    | @item _ _ j w q _ _ item' rest' =>
      -- different items of one list have different locations
      have hitem (n : Nat) : here ++ "[" ++ toString n ++ "]" ≠ "" := by simp
      have hij : i = j := Location.index_eq_of_under (rest.under_locate hk (hitem i))
        (heq ▸ rest'.under_locate hk (hitem j))
      subst hij
      rw [item] at item'
      cases item'
      rw [ih hk rest' heq]
  | @member templates members t name f v p k' v' chosen declared found present rest ih =>
    obtain ⟨hname, hkind⟩ := declared_of_chosen hk chosen declared
    cases h' with
    | here =>
      have hlength := (Kind.Reads.member chosen declared found present rest).length_lt hk (by simp) here
      rw [heq] at hlength
      exact absurd hlength (Nat.lt_irrefl _)
    | @member _ _ t' name' f' v' q _ _ chosen' declared' found' present' rest' =>
      obtain ⟨hname', hkind'⟩ := declared_of_chosen hk chosen' declared'
      -- so have different members, because their names are proper
      have hnames : name = name' := Location.name_eq_of_under hname hname'
        (rest.under_locate hkind (Location.memberLocation_ne_empty hname))
        (heq ▸ rest'.under_locate hkind' (Location.memberLocation_ne_empty hname'))
      subst hnames
      rw [chosen] at chosen'
      cases chosen'
      rw [declared] at declared'
      cases declared'
      rw [found] at found'
      cases found'
      rw [ih hkind rest' heq]

end Locations

end Graph

end ContentIndex
