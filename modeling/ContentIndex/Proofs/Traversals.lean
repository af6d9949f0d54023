import ContentIndex.Proofs.Pages

/-!
# What a projection meets

A projection goes through its selection, and through the data along with it. On its way it meets the
references that are selected into. On a store that stays as it is, each of them leads to a document, or
it leads nowhere, which is noted, or it cannot be followed, and then the projection fails. So the
result of a projection is known from what it meets, in order: the first thing that cannot be passed is
the failure, and if there is none then each thing has added its note.

References may go round in circles. What a projection meets is found by recursion on the selection, so
it is finite all the same.

## Main definitions

* `Visit`, `Visit.failure?`, `Visit.warning?`: things that are met, and what comes of them
* `Graph.Kind.leaves`: the values in lists, each with its place
* `Selection.tour`: what the projection of a document or an object meets
* `Projecting.Takes`: a step whose result is known from what it meets

## Main results

* `Projecting.Takes.bind`, `Snapshot.takes_follow`: steps after each other, and single references
-/

namespace ContentIndex

open Graph (Kind)
open Json (Value)

/-! ### References on a store -/

namespace Snapshot

/-- The collection that a reference leads into. -/
def bound? (x : Snapshot) (allowed : List String) (t : Target) : Option Graph.Collection :=
  (t.collection.filter allowed.contains).bind x.graph.collection?

/-- The record that a store has of a document. -/
def stored? (x : Snapshot) (s : Store) (collection path : String) :
    Except StorageError (Option Record) :=
  Record.ofStored? (x.key collection path) (s.get? (x.key collection path))

/-- The document that a reference leads to. -/
def target? (x : Snapshot) (s : Store) (allowed : List String) (t : Target) : Option Composite :=
  (x.bound? allowed t).bind fun c =>
    ((x.stored? s c.name t.path).toOption.bind id).map (.ofRecord c)

theorem on_record?_eq (x : Snapshot) (s : Store) (collection path : String) :
    (x.record? collection path).on s = some (x.stored? s collection path) :=
  on_record? rfl

end Snapshot

/-! ### Things that are met -/

/-- What a query meets that its result depends on. -/
inductive Visit
  /-- The document that is asked for is not there. -/
  | missing (collection path : String)
  /-- A record that is asked for cannot be read. -/
  | unreadable (e : StorageError)
  /-- A reference at a place that is selected into. -/
  | reference (location : String) (allowed : List String) (target : Target)

namespace Visit

variable (x : Snapshot) (s : Store)

/-- How a query fails there, if it cannot go on. -/
def failure? : Visit → Option QueryError
  | .missing collection path => some (.notFound collection path)
  | .unreadable e => some (.storage e)
  | .reference location allowed t =>
    match x.bound? allowed t with
    | none => some (.invalidReference location t.path allowed)
    | some c =>
      match x.stored? s c.name t.path with
      | .error e => some (.storage e)
      | .ok _ => none

/-- What is noted there: a reference leads nowhere. -/
def warning? : Visit → Option Dangling
  | .missing _ _ | .unreadable _ => none
  | .reference location allowed t =>
    (x.bound? allowed t).bind fun c =>
      match x.stored? s c.name t.path with
      | .ok none => some ⟨location, c.name, t.path⟩
      | _ => none

/-- The place of a reference. -/
def location? : Visit → Option String
  | .reference location _ _ => some location
  | _ => none

/-- It is a reference without a collection, or into one that its field does not allow. -/
def IsUnbound : Visit → Prop
  | .reference _ allowed t => ∀ c ∈ t.collection, c ∉ allowed
  | _ => False

/-- What is noted of a visit has its place. -/
theorem location?_of_warning? {v : Visit} {w : Dangling} (h : v.warning? x s = some w) :
    v.location? = some w.location := by
  cases v with
  | reference location allowed t =>
    obtain ⟨c, -, h⟩ := Option.bind_eq_some_iff.mp h
    split at h
    · cases h
      rfl
    · cases h
  | _ => cases h

/-- The places of notes are among those of the references, in order. -/
theorem sublist_locations (tour : List Visit) :
    ((tour.filterMap (warning? x s)).map (·.location)).Sublist (tour.filterMap location?) := by
  induction tour with
  | nil => exact .slnil
  | cons v tour ih =>
    rw [List.filterMap_cons, List.filterMap_cons]
    cases hw : v.warning? x s with
    | none =>
      cases v.location? with
      | none => exact ih
      | some location => exact ih.cons _
    | some w =>
      rw [location?_of_warning? x s hw]
      exact ih.cons_cons _

end Visit

/-- The failure at the first thing on the way that cannot be passed. -/
def Snapshot.failure? (x : Snapshot) (s : Store) (tour : List Visit) : Option QueryError :=
  tour.findSome? (·.failure? x s)

/-- The notes of all things on the way, in order. -/
def Snapshot.warnings (x : Snapshot) (s : Store) (tour : List Visit) : List Dangling :=
  tour.filterMap (·.warning? x s)

/-- The way leads to the visit: nothing before it stops the query. -/
def Snapshot.Meets (x : Snapshot) (s : Store) (tour : List Visit) (v : Visit) : Prop :=
  ∃ before after, tour = before ++ v :: after ∧ ∀ u ∈ before, u.failure? x s = none

namespace Snapshot

variable {x : Snapshot} {s : Store} {tour : List Visit}

theorem failure?_append (tour' : List Visit) :
    x.failure? s (tour ++ tour') = (x.failure? s tour).or (x.failure? s tour') :=
  List.findSome?_append

theorem warnings_append (tour' : List Visit) :
    x.warnings s (tour ++ tour') = x.warnings s tour ++ x.warnings s tour' :=
  List.filterMap_append

/-- What is met is on the way. -/
theorem Meets.mem {v : Visit} (h : x.Meets s tour v) : v ∈ tour := by
  obtain ⟨before, after, rfl, -⟩ := h
  exact List.mem_append_right _ (List.mem_cons_self ..)

/-- The failure of a query is that of something it meets. -/
theorem failure?_eq_some_iff {e : QueryError} :
    x.failure? s tour = some e ↔ ∃ v, x.Meets s tour v ∧ v.failure? x s = some e := by
  rw [failure?, List.findSome?_eq_some_iff]
  constructor
  · rintro ⟨before, v, after, htour, hv, hbefore⟩
    exact ⟨v, ⟨before, after, htour, hbefore⟩, hv⟩
  · rintro ⟨v, ⟨before, after, htour, hbefore⟩, hv⟩
    exact ⟨before, v, after, htour, hv, hbefore⟩

end Snapshot

/-! ### Ways through selections -/

/-- The values in lists, however deep, each with its kind and its place. -/
def Graph.Kind.leaves : Kind → FieldValue → String → List (Kind × FieldValue × String)
  | .list items, .list vs, here =>
    vs.zipIdx.flatMap fun (v, i) => items.leaves v (here ++ "[" ++ toString i ++ "]")
  | k, v, here => [(k, v, here)]

/-- The values in a field of a document or an object. -/
def Composite.leaves (d : Composite) (here name : String) : List (Kind × FieldValue × String) :=
  match Entries.find? name d.system, d.field? name with
  | none, some (kind, v) => kind.leaves v (Graph.memberLocation here name)
  | _, _ => []

namespace Selection

mutual

/-- What the projection of a document or an object meets: by its selected fields in order, and by the
values in them in order. A document that a reference leads to comes right after the reference. -/
def tour (x : Snapshot) (s : Store) (d : Composite) (here : String) : Selection → List Visit
  | .mk fields => Selection.tourFields x s d here fields

/-- What is met in selected fields. -/
def tourFields (x : Snapshot) (s : Store) (d : Composite) (here : String) :
    List (String × Selection) → List Visit
  | [] => []
  | (name, inner) :: rest =>
    (d.leaves here name).flatMap (fun
      | (.object templates, .object template fields, here) =>
        inner.tour x s (.ofObject templates template fields) here
      | (.reference allowed, .reference t, here) =>
        if inner.isEmpty then []
        else .reference here allowed t ::
          ((x.target? s allowed t).elim [] fun d => inner.tour x s d here)
      | _ => []) ++ Selection.tourFields x s d here rest

end

variable (x : Snapshot) (s : Store)

/-- What is met in a value that is in no list. -/
def tourLeaf (inner : Selection) : Kind × FieldValue × String → List Visit
  | (.object templates, .object template fields, here) =>
    inner.tour x s (.ofObject templates template fields) here
  | (.reference allowed, .reference t, here) =>
    if inner.isEmpty then []
    else .reference here allowed t ::
      ((x.target? s allowed t).elim [] fun d => inner.tour x s d here)
  | _ => []

theorem tourFields_cons (d : Composite) (here name : String) (inner : Selection)
    (rest : List (String × Selection)) : tourFields x s d here ((name, inner) :: rest) =
      (d.leaves here name).flatMap (inner.tourLeaf x s) ++ tourFields x s d here rest := by
  rw [tourFields]
  rfl

end Selection

/-! ### Steps whose results are known -/

namespace Projecting

variable {α β : Type} {x : Snapshot} {s : Store} {tour tour' : List Visit}

/-- The step meets what is on the way, in order. If it cannot pass something then it fails with the
first such failure. Otherwise it shows something of which `P` holds, together with the notes of all
that it has met; they come after those that there were. -/
structure Takes (x : Snapshot) (s : Store) (t : Projecting α) (tour : List Visit)
    (P : α → List Dangling → Prop) : Prop where
  /-- The first failure is that of the step. -/
  fails : ∀ e, x.failure? s tour = some e → ∀ ws, Failing.on s (t.run ws) = some (.error e)
  /-- If there is none, then the step adds the notes of what it has met. -/
  shows : x.failure? s tour = none → ∃ a, P a (x.warnings s tour) ∧
    ∀ ws, Failing.on s (t.run ws) = some (.ok (a, ws ++ x.warnings s tour))

namespace Takes

variable {P : α → List Dangling → Prop} {t : Projecting α}

theorem mono {P' : α → List Dangling → Prop} (h : Takes x s t tour P)
    (hP : ∀ a ws, P a ws → P' a ws) : Takes x s t tour P' where
  fails := h.fails
  shows hnone := by
    obtain ⟨a, ha, hrun⟩ := h.shows hnone
    exact ⟨a, hP a _ ha, hrun⟩

theorem pure {a : α} (h : P a []) : Takes x s (pure a) [] P where
  fails _ he := by cases he
  shows _ := by
    refine ⟨a, h, fun ws => ?_⟩
    rw [show x.warnings s [] = [] from rfl, List.append_nil]
    rfl

/-- One step after another. -/
theorem bind {Q : β → List Dangling → Prop} {f : α → Projecting β} (h : Takes x s t tour P)
    (hf : ∀ a, P a (x.warnings s tour) →
      Takes x s (f a) tour' fun b ws => Q b (x.warnings s tour ++ ws)) :
    Takes x s (t >>= f) (tour ++ tour') Q where
  fails e he ws := by
    rw [Snapshot.failure?_append] at he
    cases hfirst : x.failure? s tour with
    | some e' =>
      -- the first step fails, and the second is not taken
      rw [hfirst] at he
      cases he
      exact Failing.on_bind_error (h.fails e hfirst ws) _
    | none =>
      rw [hfirst] at he
      obtain ⟨a, ha, hrun⟩ := h.shows hfirst
      exact (Failing.on_bind_ok (hrun ws) _).trans ((hf a ha).fails e he _)
  shows hnone := by
    rw [Snapshot.failure?_append, Option.or_eq_none_iff] at hnone
    obtain ⟨a, ha, hrun⟩ := h.shows hnone.1
    obtain ⟨b, hb, hrun'⟩ := (hf a ha).shows hnone.2
    rw [Snapshot.warnings_append]
    refine ⟨b, hb, fun ws => ?_⟩
    rw [← List.append_assoc]
    exact (Failing.on_bind_ok (hrun ws) _).trans (hrun' _)

/-- A last step that only puts together what is shown. -/
theorem map {Q : β → List Dangling → Prop} {f : α → β} (h : Takes x s t tour P)
    (hf : ∀ a ws, P a ws → Q (f a) ws) : Takes x s (t >>= fun a => Pure.pure (f a)) tour Q := by
  have hbind : Takes x s (t >>= fun a => Pure.pure (f a)) (tour ++ []) Q := by
    refine bind h fun a ha => pure ?_
    rw [List.append_nil]
    exact hf a _ ha
  rwa [List.append_nil] at hbind

/-- A question comes first. -/
theorem lift_bind {u : Failing QueryError β} {b : β} {f : β → Projecting α}
    (hu : u.on s = some (.ok b)) (hf : Takes x s (f b) tour P) :
    Takes x s (liftM u >>= f) tour P where
  fails e he ws := (on_lift_bind_ok hu f).trans (hf.fails e he ws)
  shows hnone := by
    obtain ⟨a, ha, hrun⟩ := hf.shows hnone
    exact ⟨a, ha, fun ws => (on_lift_bind_ok hu f).trans (hrun ws)⟩

/-- A question comes first that has no answer. -/
theorem lift_bind_error {u : Failing QueryError β} {e : QueryError} {f : β → Projecting α}
    (hu : u.on s = some (.error e)) (he : x.failure? s tour = some e) :
    Takes x s (liftM u >>= f) tour P where
  fails e' he' ws := by
    rw [he] at he'
    cases he'
    rw [on_lift_bind, hu, Option.bind_some]
  shows hnone := by
    rw [he] at hnone
    cases hnone

end Takes

end Projecting

open Projecting (Takes)

/-- Following a reference meets the reference. If that does not fail then it shows the document that is
there, or it notes that there is none. -/
theorem Snapshot.takes_follow (x : Snapshot) (s : Store) (allowed : List String) (t : Target)
    (here : String) : Takes x s (x.follow allowed t here) [.reference here allowed t]
      fun d ws => ∃ c found, x.bound? allowed t = some c ∧
        x.stored? s c.name t.path = .ok found ∧ d = found.map (.ofRecord c) ∧
          ws = if found.isSome then [] else [⟨here, c.name, t.path⟩] := by
  have hfailure : x.failure? s [.reference here allowed t] =
      (Visit.reference here allowed t).failure? x s := by
    simp [failure?]
  cases hbound : x.bound? allowed t with
  | none =>
    -- nothing is read for a reference that may not lead anywhere
    have hrun : x.follow allowed t here = throw (.invalidReference here t.path allowed) := by
      rw [bound?] at hbound
      rw [follow, hbound]
    rw [Visit.failure?, hbound] at hfailure
    refine ⟨fun e he ws => ?_, fun hnone => ?_⟩
    · rw [hfailure] at he
      cases he
      rw [hrun]
      rfl
    · rw [hfailure] at hnone
      cases hnone
  | some c =>
    have hfound := hbound
    rw [bound?] at hfound
    rw [follow, hfound]
    have hread := x.on_record?_eq s c.name t.path
    cases hstored : x.stored? s c.name t.path with
    | error e =>
      rw [hstored] at hread
      refine Takes.lift_bind_error (Failing.on_storage_error hread) ?_
      rw [hfailure, Visit.failure?, hbound]
      simp only [hstored]
    | ok found =>
      rw [hstored] at hread
      -- a document that is missing is noted, and no failure
      have hpass : x.failure? s [.reference here allowed t] = none := by
        rw [hfailure, Visit.failure?, hbound]
        simp only [hstored]
      have hnoted : x.warnings s [.reference here allowed t] =
          if found.isSome then [] else [⟨here, c.name, t.path⟩] := by
        rw [warnings, List.filterMap_cons, Visit.warning?, hbound, Option.bind_some, hstored]
        cases found <;> rfl
      refine Takes.lift_bind (Failing.on_storage_ok hread) ⟨fun e he => ?_, fun _ => ?_⟩
      · rw [hpass] at he
        cases he
      · rw [hnoted]
        refine ⟨found.map (.ofRecord c), ⟨c, found, rfl, hstored, rfl, rfl⟩, fun ws => ?_⟩
        cases found with
        | none => rfl
        | some r =>
          rw [Option.isSome_some, if_pos rfl, List.append_nil]
          rfl

/-- A reference that can be followed leads to what is stored. -/
theorem Snapshot.target?_eq {x : Snapshot} {s : Store} {allowed : List String} {t : Target}
    {c : Graph.Collection} {found : Option Record} (hbound : x.bound? allowed t = some c)
    (hstored : x.stored? s c.name t.path = .ok found) :
    x.target? s allowed t = found.map (.ofRecord c) := by
  rw [target?, hbound, Option.bind_some, hstored]
  rfl

end ContentIndex
