import ContentIndex.Proofs.QueryReads

/-!
# What projections show

A projection notes references that lead nowhere, with the place where they stand, and it names the
place in its failures. The place decides nothing else: what is shown of a record is the same wherever
on a page the record stands, and whether it can be shown at all.

## Main definitions

* `Projecting.Shows`: what a step shows on a store
* `Snapshot.shown?`: what is shown of a document

## Main results

* `Selection.alike_project`: **the place of a projection does not show**
-/

namespace ContentIndex

open Json (Value)
open ContentIndex.Graph (Kind)

namespace Projecting

variable {α β : Type} {s : Store} {t t' : Projecting α} {v : Option α}

/-- On the store, the step shows the value, or it fails if there is none, whatever was noted
before. -/
def Shows (s : Store) (t : Projecting α) (v : Option α) : Prop :=
  ∀ ws, ∃ r, Failing.on s (t.run ws) = some r ∧ r.toOption.map (·.1) = v

namespace Shows

theorem pure (a : α) : Shows s (pure a) (some a) := fun ws => ⟨.ok (a, ws), rfl, rfl⟩

theorem throw (e : QueryError) : Shows s (throw e : Projecting α) none :=
  fun _ => ⟨.error e, rfl, rfl⟩

theorem modify (f : List Dangling → List Dangling) : Shows s (modify f : Projecting Unit) (some ()) :=
  fun ws => ⟨.ok ((), f ws), rfl, rfl⟩

/-- A step that notes nothing. -/
theorem lift {t : Failing QueryError α} {r : Except QueryError α} (h : t.on s = some r) :
    Shows s (liftM t : Projecting α) r.toOption := by
  intro ws
  cases r with
  | ok a => exact ⟨.ok (a, ws), (Failing.on_bind_ok h _).trans rfl, rfl⟩
  | error e => exact ⟨.error e, Failing.on_bind_error h _, rfl⟩

/-- One step after another. -/
theorem bind_some {a : α} {f : α → Projecting β} {w : Option β} (h : t.Shows s (some a))
    (hf : (f a).Shows s w) : (t >>= f).Shows s w := by
  intro ws
  obtain ⟨r, hr, hv⟩ := h ws
  cases r with
  | ok p =>
    obtain ⟨b, ws'⟩ := p
    obtain rfl : b = a := Option.some.inj hv
    obtain ⟨r', hr', hw⟩ := hf ws'
    exact ⟨r', (Failing.on_bind_ok hr _).trans hr', hw⟩
  | error e => cases hv

/-- After a step that fails there is no other. -/
theorem bind_none {f : α → Projecting β} (h : t.Shows s none) : (t >>= f).Shows s none := by
  intro ws
  obtain ⟨r, hr, hv⟩ := h ws
  cases r with
  | ok p => cases hv
  | error e => exact ⟨.error e, Failing.on_bind_error hr _, rfl⟩

/-- A step shows one thing. -/
theorem unique {w : Option α} (h : t.Shows s v) (h' : t.Shows s w) : v = w := by
  obtain ⟨r, hr, hv⟩ := h []
  obtain ⟨r', hr', hw⟩ := h' []
  rw [hr] at hr'
  rw [← hv, ← hw, Option.some.inj hr']

end Shows

/-- On the store, the steps show the same. -/
def Alike (s : Store) (t t' : Projecting α) : Prop := ∃ v, t.Shows s v ∧ t'.Shows s v

namespace Alike

theorem pure (a : α) : Alike s (pure a) (pure a) := ⟨some a, .pure a, .pure a⟩

theorem throw (e e' : QueryError) : Alike s (throw e : Projecting α) (throw e') :=
  ⟨none, .throw e, .throw e'⟩

theorem modify (f f' : List Dangling → List Dangling) :
    Alike s (modify f : Projecting Unit) (modify f') :=
  ⟨some (), .modify f, .modify f'⟩

/-- A step that notes nothing and is not cut off. -/
theorem lift {A : Access} {Q : α → Prop} {t : Failing QueryError α} (h : t.Within A Q)
    (hcuts : ¬ A.cuts) : Alike s (liftM t : Projecting α) (liftM t) := by
  obtain ⟨r, hr, -⟩ := Program.Within.exists_on h hcuts s
  exact ⟨r.toOption, .lift hr, .lift hr⟩

theorem bind {f f' : α → Projecting β} (h : Alike s t t') (hf : ∀ a, Alike s (f a) (f' a)) :
    Alike s (t >>= f) (t' >>= f') := by
  obtain ⟨v, ht, ht'⟩ := h
  cases v with
  | none => exact ⟨none, ht.bind_none, ht'.bind_none⟩
  | some a =>
    obtain ⟨w, hw, hw'⟩ := hf a
    exact ⟨w, ht.bind_some hw, ht'.bind_some hw'⟩

theorem mapM {l : List α} {f f' : α → Projecting β} (h : ∀ a ∈ l, Alike s (f a) (f' a)) :
    Alike s (l.mapM f) (l.mapM f') := by
  induction l with
  | nil => exact .pure []
  | cons a l ih =>
    rw [List.mapM_cons, List.mapM_cons]
    refine .bind (h a (List.mem_cons_self ..)) fun b => ?_
    exact .bind (ih fun a ha => h a (List.mem_cons_of_mem _ ha)) fun bs => .pure _

end Alike

end Projecting

open Projecting (Alike Shows)

variable {s : Store}

theorem Graph.Kind.alike_walk {visit visit' : Kind → FieldValue → String → Projecting Value}
    (hvisit : ∀ k v here here', Alike s (visit k v here) (visit' k v here')) (k : Kind)
    (v : FieldValue) (here here' : String) :
    Alike s (k.walk visit v here) (k.walk visit' v here') := by
  induction k, v using Kind.walk_induction generalizing here here' with
  | list items vs ih =>
    rw [Kind.walk, Kind.walk]
    exact .bind (.mapM fun x _ => ih x.1 _ _) fun _ => .pure _
  | leaf k v hleaf =>
    rw [Kind.walk, Kind.walk]
    · exact hvisit _ _ _ _
    · exact hleaf
    · exact hleaf

/-- Wherever a reference stands, it leads to the same document, or nowhere. -/
theorem Snapshot.alike_follow (x : Snapshot) (allowed : List String) (t : Target)
    (here here' : String) : Alike s (x.follow allowed t here) (x.follow allowed t here') := by
  unfold follow
  split
  · exact .throw _ _
  · next c _ =>
    have hread : (x.record? c.name t.path).Within ⟨fun _ => True, False⟩ fun _ => True :=
      within_record? trivial
    refine .bind (.lift hread.adapt id) fun r => ?_
    cases r with
    | some r => exact .pure _
    | none => exact .bind (.modify _ _) fun _ => .pure _

namespace Selection

variable (x : Snapshot)

mutual

/-- **The place of a projection does not show.** -/
theorem alike_project (d : Composite) (here here' : String) :
    ∀ sel : Selection, Alike s (sel.project x d here) (sel.project x d here')
  | .mk fields => by
    rw [project, project]
    split
    · exact .pure _
    · exact .bind (alike_projectFields d here here' fields) fun _ => .pure _

theorem alike_projectFields (d : Composite) (here here' : String) :
    ∀ fields : List (String × Selection),
      Alike s (projectFields x d here fields) (projectFields x d here' fields)
  | [] => by
    rw [projectFields, projectFields]
    exact .pure _
  | (name, inner) :: rest => by
    rw [projectFields_cons, projectFields_cons]
    refine .bind ?_ fun value => .bind (alike_projectFields d here here' rest) fun _ => .pure _
    unfold projectField
    split
    · exact .pure _
    · exact .pure _
    · refine Kind.alike_walk (fun k v here here' => ?_) _ _ _ _
      unfold visit
      split
      · exact alike_project _ _ _ inner
      · split
        · exact .pure _
        · refine .bind (x.alike_follow _ _ _ _) fun r => ?_
          cases r with
          | some document => exact alike_project _ _ _ inner
          | none => exact .pure _
      · exact .pure _

end

end Selection

/-- What is shown of a document of a collection, on a store; none if it cannot be shown. -/
def Snapshot.shown? (x : Snapshot) (s : Store) (sel : Selection) (c : Graph.Collection)
    (r : Record) : Option Value :=
  ((Failing.on s ((sel.project x (.ofRecord c r) "").run [])).bind Except.toOption).map (·.1)

/-- A projection of a document shows it. -/
theorem Selection.shows_project (x : Snapshot) (sel : Selection) (c : Graph.Collection) (r : Record)
    (here : String) : Shows s (sel.project x (.ofRecord c r) here) (x.shown? s sel c r) := by
  obtain ⟨v, hv, hv'⟩ := alike_project x (.ofRecord c r) here "" sel
  obtain ⟨p, hp, hpv⟩ := hv' []
  have hshown : x.shown? s sel c r = v := by
    rw [Snapshot.shown?, hp, ← hpv]
    rfl
  rwa [hshown]

end ContentIndex
