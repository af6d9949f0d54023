import ContentIndex.Proofs.Pages

/-!
# Complaints about what is stored

A query complains about a record that is stored but cannot be read. If it follows no references, then
it reads the record of the document that it asks for, or the records of the documents that are before
it in an order, and it complains of nothing else.

## Main definitions

* `StorageError.IsCorrupt`: complaints about what is stored
* `Store.Spoiled`: the record of a document cannot be read
* `Selection.IsFlat`: selections that follow no references
* `PageQuery.Settles`: what becomes of a program that reads a page

## Main results

* `Database.isCorrupt_lookup_iff`: **a lookup complains if and only if the record cannot be read**
* `Database.settles_resolve`: **a page is shown unless a record cannot be read**
-/

namespace ContentIndex

open Json (Value)

/-! ### Complaints -/

/-- The failure is a complaint about what is stored. -/
def StorageError.IsCorrupt : StorageError → Prop
  | .corrupt _ _ => True
  | _ => False

/-- The failure is a complaint about what is stored. -/
def IndexError.IsCorrupt : IndexError → Prop
  | .storage e => e.IsCorrupt
  | _ => False

/-- The failure is a complaint about what is stored. -/
def QueryError.IsCorrupt : QueryError → Prop
  | .storage e => e.IsCorrupt
  | _ => False

/-! ### Records that cannot be read -/

/-- Something is stored under the key of a document that cannot be read as a record. -/
def Store.Spoiled (s : Store) (g : Generation) (name p : String) : Prop :=
  ∃ b, s.get? (Key.document g name p).encode = some b ∧ Record.ofBytes? b = none

namespace Store

variable {s : Store} {g : Generation} {name p : String}

/-- What is spoiled is complained of. -/
theorem Spoiled.exists_ofStored? (h : s.Spoiled g name p) (key : Bytes) :
    ∃ e, Record.ofStored? key (s.get? (Key.document g name p).encode) = .error e ∧ e.IsCorrupt := by
  obtain ⟨b, hb, hread⟩ := h
  refine ⟨.corrupt key.textLossy .unreadable, ?_, trivial⟩
  rw [hb, Record.ofStored?, hread]

/-- What is not spoiled is read. -/
theorem exists_ofStored? (h : ¬ s.Spoiled g name p) (key : Bytes) :
    ∃ r, Record.ofStored? key (s.get? (Key.document g name p).encode) = .ok r := by
  cases hb : s.get? (Key.document g name p).encode with
  | none => exact ⟨none, rfl⟩
  | some b =>
    cases hr : Record.ofBytes? b with
    | none => exact absurd ⟨b, hb, hr⟩ h
    | some r => exact ⟨some r, by rw [Record.ofStored?, hr]⟩

end Store

/-! ### Flat selections -/

/-- No field of a selected field is selected, so no reference is followed. -/
def Selection.IsFlat (sel : Selection) : Prop := ∀ f ∈ sel.fields, f.2.isEmpty

namespace Projecting

variable {α β : Type}

/-- The step asks nothing, notes nothing and does not fail. -/
def IsPure (t : Projecting α) : Prop := ∃ a, t = pure a

theorem IsPure.bind {t : Projecting α} {f : α → Projecting β} (h : t.IsPure)
    (hf : ∀ a, (f a).IsPure) : (t >>= f).IsPure := by
  obtain ⟨a, rfl⟩ := h
  rw [pure_bind]
  exact hf a

theorem IsPure.mapM {l : List α} {f : α → Projecting β} (h : ∀ a, (f a).IsPure) :
    (l.mapM f).IsPure := by
  induction l with
  | nil => exact ⟨[], rfl⟩
  | cons a l ih =>
    rw [List.mapM_cons]
    exact (h a).bind fun b => ih.bind fun bs => ⟨_, rfl⟩

end Projecting

open Projecting (IsPure)

theorem Graph.Kind.isPure_walk {visit : Kind → FieldValue → String → Projecting Value}
    (hvisit : ∀ k v here, (visit k v here).IsPure) (k : Kind) (v : FieldValue) (here : String) :
    IsPure (k.walk visit v here) := by
  induction k, v using Kind.walk_induction generalizing here with
  | list items vs ih =>
    rw [Kind.walk]
    exact .bind (.mapM fun x => ih x.1 _) fun _ => ⟨_, rfl⟩
  | leaf k v hleaf =>
    rw [Kind.walk]
    · exact hvisit _ _ _
    · exact hleaf

namespace Selection

variable {x : Snapshot} {d : Composite} {location : String}

theorem isPure_project_of_isEmpty {sel : Selection} (h : sel.isEmpty) :
    IsPure (sel.project x d location) := by
  cases sel with
  | mk fields =>
    rw [project, if_pos (show fields.isEmpty from h)]
    exact ⟨_, rfl⟩

/-- A flat selection is shown without a look at the index. -/
theorem isPure_project {sel : Selection} (h : sel.IsFlat) : IsPure (sel.project x d location) := by
  have hvisit {inner : Selection} (hinner : inner.isEmpty) (k : Graph.Kind) (v : FieldValue)
      (here : String) : IsPure (inner.visit x k v here) := by
    unfold visit
    split
    · exact isPure_project_of_isEmpty hinner
    · rw [if_pos hinner]
      exact ⟨_, rfl⟩
    · exact ⟨_, rfl⟩
  have hfields {fields : List (String × Selection)} (hfields : ∀ f ∈ fields, f.2.isEmpty) :
      IsPure (projectFields x d location fields) := by
    induction fields with
    | nil => exact ⟨[], rfl⟩
    | cons f fields ih =>
      obtain ⟨name, inner⟩ := f
      rw [projectFields_cons]
      refine .bind ?_ fun value => .bind (ih fun f hf => hfields f (List.mem_cons_of_mem _ hf)) fun _ =>
        ⟨_, rfl⟩
      unfold projectField
      split
      · exact ⟨_, rfl⟩
      · exact ⟨_, rfl⟩
      · exact Graph.Kind.isPure_walk (hvisit (hfields _ (List.mem_cons_self ..))) _ _ _
  cases sel with
  | mk fields =>
    rw [project]
    split
    · exact ⟨_, rfl⟩
    · exact .bind (hfields h) fun _ => ⟨_, rfl⟩

end Selection

/-! ### Lookups -/

namespace Database

variable {db : Database} {s : Store} {sel : Selection} {c : Graph.Collection} {p : String}
  {g : Generation}

/-- **A lookup complains if and only if the record cannot be read.** Otherwise the document is shown,
or it is not there. -/
theorem isCorrupt_lookup_iff (hs : s.Presents g db.graph) (hsel : sel.IsFlat) :
    ∃ a, (db.lookup c p sel).on s = some a ∧
      ((∃ e, a = .error e ∧ e.IsCorrupt) ↔ s.Spoiled g c.name p) := by
  have hrecord {r : Except StorageError (Option Record)}
      (hr : Record.ofStored? (Key.document g c.name p).encode
        (s.get? (Key.document g c.name p).encode) = r) :
      Failing.on s (liftM (Snapshot.record? ⟨db.graph, g⟩ c.name p) :
        Failing QueryError (Option Record)) = some (r.mapError .storage) := by
    rw [Failing.on_storage, Snapshot.on_record? rfl, ← hr]
    rfl
  rw [lookup, on_snapshot?_bind hs]
  by_cases hspoiled : s.Spoiled g c.name p
  · obtain ⟨e, he, hcorrupt⟩ := hspoiled.exists_ofStored? (Key.document g c.name p).encode
    exact ⟨_, Failing.on_bind_error (hrecord he) _, iff_of_true ⟨_, rfl, hcorrupt⟩ hspoiled⟩
  · obtain ⟨r, hr⟩ := Store.exists_ofStored? hspoiled (Key.document g c.name p).encode
    cases r with
    | none =>
      refine ⟨_, Failing.on_bind_ok (hrecord hr) _, iff_of_false ?_ hspoiled⟩
      rintro ⟨e, he, hcorrupt⟩
      cases he
      exact hcorrupt
    | some r =>
      obtain ⟨v, hv⟩ : IsPure (sel.project ⟨db.graph, g⟩ (.ofRecord c r) "") :=
        Selection.isPure_project hsel
      refine ⟨.ok ⟨v, none, []⟩, (Failing.on_bind_ok (hrecord hr) _).trans ?_,
        iff_of_false ?_ hspoiled⟩
      · show Failing.on s ((sel.project _ (.ofRecord c r) "").run [] >>= _) = _
        rw [hv]
        rfl
      · rintro ⟨e, he, -⟩
        cases he

end Database

/-! ### Pages -/

namespace PageQuery

variable {α : Type} {q : PageQuery} {x : Snapshot} {s : Store} {L : List Entry} {y : Entry}
  {room room' : Prop} {t : Failing QueryError α}

/-- The record of an entry of the order cannot be read. -/
def Unreadable (q : PageQuery) (x : Snapshot) (s : Store) (y : Entry) : Prop :=
  ∃ e, (q.recordOf? x y).on s = some (.error e) ∧ e.IsCorrupt

/-- The program comes to an end that the entries explain: it fails only with a complaint, and only if
one of them cannot be read. It does fail then if there is room for all of them. -/
def Settles (q : PageQuery) (x : Snapshot) (s : Store) (L : List Entry) (room : Prop)
    (t : Failing QueryError α) : Prop :=
  ∃ a, t.on s = some a ∧ (∀ e, a = .error e → e.IsCorrupt ∧ ∃ y ∈ L, q.Unreadable x s y) ∧
    (room → (∃ y ∈ L, q.Unreadable x s y) → ∃ e, a = .error e)

/-- The program goes on after an entry that can be read. -/
theorem Settles.cons {r : Option Record} (hr : (q.recordOf? x y).on s = some (.ok r))
    (hroom : room → room') (h : q.Settles x s L room' t) : q.Settles x s (y :: L) room t := by
  obtain ⟨a, ha, honly, hif⟩ := h
  refine ⟨a, ha, fun e he => ?_, fun hfits hbad => hif (hroom hfits) ?_⟩
  · obtain ⟨hcorrupt, z, hz, hbad⟩ := honly e he
    exact ⟨hcorrupt, z, List.mem_cons_of_mem _ hz, hbad⟩
  · obtain ⟨z, hz, e, he, hcorrupt⟩ := hbad
    rcases List.mem_cons.mp hz with rfl | hz
    · cases hr.symm.trans he
    · exact ⟨z, hz, e, he, hcorrupt⟩

variable {items : Items} {ws : List Dangling}

/-- **A page is read unless a record cannot be.** It fails only with a complaint about one of the
entries that it has before it, and it does complain if it is to show all of them. -/
theorem settles_fill (hsel : q.selection.IsFlat) {rounds : Nat} {scan : Scan}
    (hrest : scan.rest s = L)
    (hread : ∀ y ∈ L, (∃ r, (q.recordOf? x y).on s = some (.ok r)) ∨ q.Unreadable x s y)
    (hrounds : L.length < rounds) :
    q.Settles x s L (items.data.length + L.length ≤ q.size)
      ((q.fill x rounds scan items).run ws) := by
  induction L generalizing rounds scan items ws with
  | nil =>
    obtain ⟨rounds, rfl⟩ := Nat.exists_eq_add_one.mpr hrounds
    rw [fill]
    refine ⟨_, Projecting.on_lift_bind_ok (Failing.on_storage_ok (Scan.on_next_nil hrest)) _, ?_, ?_⟩
    · rintro e ⟨⟩
    · rintro - ⟨_, hy, -⟩
      exact absurd hy List.not_mem_nil
  | cons y L ih =>
    obtain ⟨rounds, rfl⟩ := Nat.exists_eq_add_one.mpr (Nat.zero_lt_of_lt hrounds)
    have hlt : L.length < rounds := Nat.lt_of_succ_lt_succ hrounds
    have hread' := fun z hz => hread z (List.mem_cons_of_mem _ hz)
    obtain ⟨scan', hnext, hrest'⟩ := Scan.on_next_cons hrest
    rw [fill, Settles, Projecting.on_lift_bind_ok (Failing.on_storage_ok hnext)]
    rcases hread y (List.mem_cons_self ..) with ⟨r, hr⟩ | ⟨e, he, hcorrupt⟩
    · rw [Projecting.on_lift_bind_ok (Failing.on_storage_ok hr)]
      split
      · refine Settles.cons hr (fun hroom => ?_) (ih hrest' hread' hlt)
        rw [List.length_cons] at hroom
        omega
      · next r' _ =>
        split
        · next hfull =>
          -- the page is full, so there is no room for `y`
          refine ⟨_, rfl, ?_, fun hroom => ?_⟩
          · rintro e ⟨⟩
          · rw [List.length_cons] at hroom
            omega
        · obtain ⟨v, hv⟩ : IsPure (q.selection.project x (.ofRecord q.collection r')
              ("[" ++ toString items.data.length ++ "]")) := Selection.isPure_project hsel
          dsimp only
          rw [hv, pure_bind]
          refine Settles.cons hr (fun hroom => ?_) (ih hrest' hread' hlt)
          simp only [List.length_append, List.length_cons, List.length_nil] at hroom ⊢
          omega
    · rw [Projecting.on_lift_bind, Failing.on_storage_error he]
      refine ⟨_, rfl, ?_, fun _ _ => ⟨_, rfl⟩⟩
      rintro _ ⟨⟩
      exact ⟨hcorrupt, y, List.mem_cons_self .., e, he, hcorrupt⟩

end PageQuery

/-- **A request for a page is answered unless a record cannot be read.** -/
theorem Database.settles_resolve {db : Database} {g : Generation} {s : Store} {request : Request}
    {q : PageQuery} {rounds : Nat} {L : List Entry} (hs : s.Presents g db.graph)
    (hq : q.AskedBy db request) (hsel : q.selection.IsFlat)
    (hL : s.within (q.listing.range (q.listing.start g q.collection.name) q.after)
      q.listing.direction = L)
    (hread : ∀ y ∈ L, (∃ r, (q.recordOf? ⟨db.graph, g⟩ y).on s = some (.ok r)) ∨
      q.Unreadable ⟨db.graph, g⟩ s y) (hrounds : L.length < rounds) :
    q.Settles ⟨db.graph, g⟩ s L (L.length ≤ q.size) (db.resolve rounds request) := by
  have hrest := (Scan.rest_ofRange (q.listing.range (q.listing.start g q.collection.name) q.after)
    q.listing.direction Scan.defaultChunk s).trans hL
  have hfill : q.Settles ⟨db.graph, g⟩ s L (PageQuery.noItems.data.length + L.length ≤ q.size)
      ((q.fill ⟨db.graph, g⟩ rounds (.ofRange (q.listing.range
        (q.listing.start g q.collection.name) q.after) q.listing.direction Scan.defaultChunk)
          PageQuery.noItems).run []) := PageQuery.settles_fill hsel hrest hread hrounds
  obtain ⟨a, ha, honly, hif⟩ := hfill
  have hresolve : (db.resolve rounds request).on s =
      some (a.map fun x => q.answer x.1 x.2) := by
    rw [resolve, query_eq_page_iff.mpr hq]
    show Failing.on s (db.snapshot? >>= _) = _
    rw [on_snapshot?_bind hs]
    show Failing.on s (_ >>= _) = _
    cases a with
    | ok x => exact Failing.on_bind_ok ha _
    | error e => exact Failing.on_bind_error ha _
  refine ⟨_, hresolve, fun e he => ?_, fun hroom hbad => ?_⟩
  · cases a with
    | ok x => cases he
    | error e' =>
      cases he
      exact honly _ rfl
  · obtain ⟨e, rfl⟩ := hif (by simpa [PageQuery.noItems] using hroom) hbad
    exact ⟨e, rfl⟩

end ContentIndex
