import ContentIndex.Proofs.Contents
import ContentIndex.Proofs.Documents
import ContentIndex.Proofs.Rereading
import ContentIndex.Proofs.Runs
import ContentIndex.Proofs.UpdateHistory

/-!
# What is stored of a document

One of the entries of a record is the record itself, under the key of its document. What should be
there is told by the content of the document. If what is there was made of an earlier content, then
an update that visits the document puts the record of the new content in its place, or it finds that
the content is still the same.

## Main definitions

* `Database.shown`: what should be stored of a document whose content was read
* `Database.Genuine`: what is stored was made of one of the contents

## Main results

* `Update.Visit.get?_visit`: **a visit puts the record of the content that was read in its place**
* `Update.Visit.eq_shown_of_agrees`: where nothing is done, the record of the content is stored
-/

namespace ContentIndex

open Text (ZeroFree)

/-! ### Keys of documents -/

namespace Record

variable {r : Record} {g : Generation} {c : Graph.Collection} {name p : String}

/-- Of all keys of documents, a record has an entry under the key of its own. -/
theorem mem_document_iff (hr : ZeroFree r.collection) (hname : ZeroFree name) :
    (Key.document g name p).encode ∈ (r.entries g c).map (·.1) ↔
      r.collection = name ∧ r.path = p := by
  constructor
  · intro hmem
    obtain ⟨x, hx, hkey⟩ := List.mem_map.mp hmem
    rcases mem_entries hx with rfl | hx
    · exact Key.document_inj hr hname hkey
    · exact absurd hkey (ne_document_of_mem hx name p)
  · rintro ⟨rfl, rfl⟩
    exact List.mem_map_of_mem
      ((Entries.find?_eq_some_iff (sorted_entries r g c)).mp (find?_document r g c))

end Record

/-! ### Records of contents -/

/-- The source has told of the document: its content, or that there is none. -/
def SourceError.IsAbsence : SourceError → Prop
  | notFound _ => True
  | _ => False

namespace Database

variable {db : Database} {U : Set Bytes} {g : Generation} {c : Graph.Collection} {p : String}
  {stored : Option Bytes} {old : Option Record}

/-- What should be stored of a document whose content was read: the record of the content, or
nothing. -/
def shown (db : Database) (c : Graph.Collection) (p : String) :
    Except SourceError Bytes → Option Bytes
  | .ok content => (db.record c p content).toOption.map (·.1.toBytes)
  | .error _ => none

theorem shown_of_record {content : Bytes} {r : Record} {ws : List Warning}
    (h : db.record c p content = .ok (r, ws)) : db.shown c p (.ok content) = some r.toBytes := by
  rw [shown, h]
  rfl

theorem exists_of_shown {content b : Bytes} (h : db.shown c p (.ok content) = some b) :
    ∃ r ws, db.record c p content = .ok (r, ws) ∧ b = r.toBytes := by
  obtain ⟨⟨r, ws⟩, hx, rfl⟩ := Option.map_eq_some_iff.mp h
  cases hrecord : db.record c p content with
  | error reason =>
    rw [hrecord] at hx
    cases hx
  | ok y =>
    rw [hrecord] at hx
    cases hx
    exact ⟨r, ws, rfl, rfl⟩

/-- What is stored of the document is the record of one of the contents, if it is anything. -/
def Genuine (db : Database) (U : Set Bytes) (c : Graph.Collection) (p : String)
    (stored : Option Bytes) : Prop :=
  ∀ b ∈ stored, ∃ content ∈ U, db.shown c p (.ok content) = some b

/-- What is read of a genuine record tells its document and the hash of its content. -/
theorem Genuine.read (hG : db.graph.IsCompiled) (hc : c ∈ db.graph.collections)
    (h : db.Genuine U c p stored)
    (hread : Record.ofStored? (Key.document g c.name p).encode stored = .ok old) :
    (stored = none ∧ old = none) ∨ ∃ content ∈ U, ∃ r, stored = db.shown c p (.ok content) ∧
      old = some r ∧ r.collection = c.name ∧ r.path = p ∧ r.contentHash = Sha256.hex content := by
  cases stored with
  | none =>
    cases hread
    exact Or.inl ⟨rfl, rfl⟩
  | some b =>
    obtain ⟨content, hcontent, hshown⟩ := h b rfl
    obtain ⟨r, ws, hrecord, rfl⟩ := exists_of_shown hshown
    rw [Record.ofStored?] at hread
    split at hread
    · next r' hr' =>
      cases hread
      obtain ⟨hname, hpath, hhash⟩ := eq_of_record hrecord
      have hresembles := Record.resembles_of_ofBytes? hr'
        (ordered_of_record hG hc hrecord)
      exact Or.inr ⟨content, hcontent, r', hshown.symm, rfl, hresembles.collection.trans hname,
        hresembles.path.trans hpath, hresembles.contentHash.trans hhash⟩
    · cases hread

end Database

/-! ### Visits -/

namespace Update

theorem sorted_entriesOf (g : Generation) (c : Graph.Collection) (r : Option Record) :
    Entries.Sorted (entriesOf g c r) := by
  cases r with
  | none => exact .nil
  | some r => exact r.sorted_entries g c

namespace Visit

variable {db : Database} {U : Set Bytes} {s : Store} {g : Generation} {v : Visit}
  {new : Option Record}

/-- The record that is put in place of the stored one is that of the content. -/
theorem shown_of_result? (hresult : v.result? db = some new) :
    new.map (·.toBytes) = db.shown v.collection v.path v.content := by
  unfold result? Database.change at hresult
  split at hresult
  · next hcontent =>
    rw [hcontent]
    split at hresult <;> cases hresult
    rfl
  · cases hresult
  · next content hcontent =>
    rw [hcontent, Database.shown]
    split at hresult
    · cases hresult
    · cases hrecord : db.record v.collection v.path content with
      | ok x =>
        rw [hrecord] at hresult
        cases hresult
        rfl
      | error reason =>
        rw [hrecord] at hresult
        cases hresult
        rfl

/-- It is one of the document. -/
theorem names_of_result? (hv : v.Proper db g) (hresult : v.result? db = some new) :
    ∀ r ∈ new, r.collection = v.collection.name ∧ r.path = v.path := by
  have hallow : Rebuild.Conditions.none.Allow db v.reading := by
    cases hcontent : v.content with
    | ok content =>
      rw [reading, hcontent]
      exact fun _ _ _ _ _ _ => trivial
    | error e =>
      rw [reading, hcontent]
      trivial
  intro r hr
  obtain ⟨hname, hpath, -⟩ :=
    good_of_change hv.owner hallow hresult r hr
  exact ⟨hname, hpath⟩

/-- What the batch writes lies in the generation. -/
theorem starts_of_effect? {k : Bytes} {x : Option Bytes}
    (heffect : (v.batch g new).effect? k = some x) : Key.generationPrefix g <+: k := by
  obtain ⟨op, hop, rfl, -⟩ := Batch.exists_of_effect? heffect
  obtain ⟨y, hy, hkey⟩ := exists_mem_of_mem_replacement hop
  rw [← hkey]
  rcases hy with hy | hy
  · exact starts_of_mem_entriesOf hy
  · exact starts_of_mem_entriesOf hy

section Stored

variable (hG : db.graph.IsCompiled) (hv : v.Proper db g)
  (hgenuine : db.Genuine U v.collection v.path v.stored)
include hG hv hgenuine

/-- **A visit puts the record of the content that was read in its place.** -/
theorem get?_visit (hstored : s.get? (v.key g) = v.stored) (hresult : v.result? db = some new) :
    ((v.ops g new).foldl Store.apply s).get? (v.key g) =
      db.shown v.collection v.path v.content := by
  rw [← shown_of_result? hresult, ops, Store.get?_replacement s _ (sorted_entriesOf ..)]
  cases new with
  | some r =>
    obtain ⟨hname, hpath⟩ := names_of_result? hv hresult r rfl
    have hfind : Entries.find? (v.key g) (entriesOf g v.collection (some r)) = some r.toBytes := by
      rw [key, ← hname, ← hpath]
      exact r.find?_document g v.collection
    rw [hfind]
    rfl
  | none =>
    -- nothing is put, and what was stored is deleted
    have hc := Graph.mem_of_owner? hv.owner
    rcases hgenuine.read hG hc hv.read with ⟨hnone, hold⟩ | ⟨_, -, r, -, hold, hname, hpath, -⟩
    · rw [hold, hstored, hnone, ite_self]
      rfl
    · have hmem : v.key g ∈ (entriesOf g v.collection v.old).map (·.1) := by
        have hzero := (hG.names.1 _ hc).1
        rw [hold]
        exact (Record.mem_document_iff (hname ▸ hzero) hzero).mpr ⟨hname, hpath⟩
      rw [if_pos hmem]
      rfl

/-- The records of other documents are left alone. -/
theorem effect?_batch_of_ne (hresult : v.result? db = some new) {c : Graph.Collection} {p : String}
    (hc : c ∈ db.graph.collections) (hne : ¬ (c.name = v.collection.name ∧ p = v.path)) :
    (v.batch g new).effect? (Key.document g c.name p).encode = none := by
  have hcol := Graph.mem_of_owner? hv.owner
  have hother {r : Record} (hname : r.collection = v.collection.name) (hpath : r.path = v.path) :
      (Key.document g c.name p).encode ∉ (r.entries g v.collection).map (·.1) := by
    have hzero := (hG.names.1 _ hcol).1
    intro hmem
    obtain ⟨hname', hpath'⟩ :=
      (Record.mem_document_iff (hname ▸ hzero) (hG.names.1 c hc).1).mp hmem
    exact hne ⟨hname'.symm.trans hname, hpath'.symm.trans hpath⟩
  refine Batch.effect?_eq_none fun op hop hkey => ?_
  obtain ⟨x, hx, hxkey⟩ := exists_mem_of_mem_replacement hop
  rw [hkey] at hxkey
  rcases hx with hx | hx
  · rcases hgenuine.read hG hcol hv.read with ⟨-, hold⟩ | ⟨_, -, r, -, hold, hname, hpath, -⟩
    · rw [hold] at hx
      cases hx
    · rw [hold] at hx
      exact hother hname hpath (List.mem_map.mpr ⟨x, hx, hxkey⟩)
  · cases new with
    | none => cases hx
    | some r =>
      obtain ⟨hname, hpath⟩ := names_of_result? hv hresult r rfl
      exact hother hname hpath (List.mem_map.mpr ⟨x, hx, hxkey⟩)

/-- **Where nothing is done, the record of the content is stored.** Equal hashes are those of equal
contents. -/
theorem eq_shown_of_agrees (hsha : Set.InjOn Sha256.hex U)
    (hsource : ∀ b, v.content = .ok b → b ∈ U)
    (hread : ∀ e, v.content = .error e → e.IsAbsence) (hresult : v.result? db = none) :
    v.stored = db.shown v.collection v.path v.content := by
  have hold := hgenuine.read hG (Graph.mem_of_owner? hv.owner) hv.read
  cases hcontent : v.content with
  | error e =>
    obtain ⟨m, rfl⟩ : ∃ m, e = .notFound m := by
      cases e with
      | notFound m => exact ⟨m, rfl⟩
      | _ => exact (hread _ hcontent).elim
    rw [result?, hcontent, Database.change] at hresult
    split at hresult
    · cases hresult
    · next hmissing =>
      rcases hold with ⟨hnone, -⟩ | ⟨_, -, r, -, hsome, -⟩
      · exact hnone
      · exact absurd (hsome ▸ rfl) hmissing
  | ok content =>
    rw [result?, hcontent, Database.change] at hresult
    split at hresult
    · next hsame =>
      rcases hold with ⟨-, hnone⟩ | ⟨content', hused, r, hstored, hsome, -, -, hhash⟩
      · rw [hnone] at hsame
        cases hsame
      · rw [hsome] at hsame
        have hhex : Sha256.hex content' = Sha256.hex content :=
          hhash.symm.trans (of_decide_eq_true hsame)
        obtain rfl := hsha hused (hsource content hcontent) hhex
        exact hstored
    · split at hresult <;> cases hresult

end Stored

end Visit

end Update

/-! ### Visits in runs -/

section Turns

variable {ι α : Type} [DecidableEq ι] {db : Database} {U : Set Bytes} {s : Store} {g : Generation}
  {trace before after : Trace ι} {programs : ι → Program α} {w : World ι α} {i : ι}
  {c : Graph.Collection} {p : String} {content : Except SourceError Bytes}

/-- At each moment of a run, what is stored of a document was made of one of the contents. -/
def Database.StaysGenuine (db : Database) (U : Set Bytes) (g : Generation) (s : Store)
    (trace : Trace ι) : Prop :=
  ∀ u u', trace = u ++ u' → ∀ c ∈ db.graph.collections, ∀ p,
    db.Genuine U c p (s.valueAfter u (Key.document g c.name p).encode)

namespace Update

/-- **What an update leaves of a document is the record of the content that it has read right
before.** The batch belongs to a visit of the document. -/
theorem exists_visit_of_effect? (hG : db.graph.IsCompiled) (run : Interleaving programs s trace w)
    (hgenuine : db.StaysGenuine U g s trace) (haccount : Account db g ∅ (history i trace))
    (howner : db.graph.owner? p = some c) {e : Exchange} {x : Option Bytes}
    (htrace : trace = before ++ (i, e) :: after)
    (heffect : e.effect? (Key.document g c.name p).encode = some x) :
    ∃ v pre new, v.collection = c ∧ v.path = p ∧ e = Visit.commit g v new ∧
      history i before = pre ++ [v.lookup g, v.reading] ∧ s.valueAfter before (v.key g) = v.stored ∧
      x = db.shown c p v.content := by
  obtain ⟨b, happlied, hb⟩ := Option.bind_eq_some_iff.mp heffect
  obtain rfl := Exchange.applied?_eq_some_iff.mp happlied
  have hhistory : history i trace =
      history i before ++ ⟨.write b, .ok ()⟩ :: history i after := by
    simp [htrace]
  obtain ⟨v, new, pre, hv, hpre, hresult, rfl⟩ := haccount.batches hhistory
  obtain ⟨w', w'', run', -, hanswer⟩ := (htrace ▸ run).exists_at
  have hstored : w'.store.get? (v.key g) = v.stored := hanswer.guard_eq (List.mem_cons_self ..)
  have hat : s.valueAfter before (v.key g) = v.stored := by
    rw [← hstored, run'.get?_eq_valueAfter]
  have hgenuine' : db.Genuine U v.collection v.path v.stored :=
    hat ▸ hgenuine before _ htrace _ (Graph.mem_of_owner? hv.owner) v.path
  by_cases hdoc : c.name = v.collection.name ∧ p = v.path
  · obtain ⟨-, rfl⟩ := hdoc
    obtain rfl := Option.some.inj (howner.symm.trans hv.owner)
    have hx : w''.store.get? (v.key g) = x := by
      rw [hanswer.get?_eq, Visit.key, heffect, Option.getD_some]
    rw [hanswer.eq_of_write] at hx
    exact ⟨v, pre, new, rfl, rfl, rfl, hpre, hat,
      hx.symm.trans (Visit.get?_visit hG hv hgenuine' hstored hresult)⟩
  · rw [Visit.effect?_batch_of_ne hG hv hgenuine' hresult (Graph.mem_of_owner? howner) hdoc] at hb
    cases hb

/-- Once a visit is over, the update leaves nothing of a document but the record of the content that
it reads later. -/
theorem eq_shown_of_effect? (hG : db.graph.IsCompiled) (run : Interleaving programs s trace w)
    (hgenuine : db.StaysGenuine U g s trace) (haccount : Account db g ∅ (history i trace))
    (howner : db.graph.owner? p = some c) {u u' : Trace ι} (htrace : trace = u ++ u')
    {h : List Exchange} {e₀ : Exchange} (hover : history i u = h ++ [e₀])
    (he₀ : ∀ x, e₀ ≠ ⟨.content p, x⟩) (hlater : ∀ x, (i, ⟨.content p, x⟩) ∈ u' → x = content)
    {t t' : Trace ι} {e : Exchange} {x : Option Bytes} (ht : u' = t ++ (i, e) :: t')
    (heffect : e.effect? (Key.document g c.name p).encode = some x) : x = db.shown c p content := by
  have hsplit : trace = (u ++ t) ++ (i, e) :: t' := by rw [htrace, ht, List.append_assoc]
  obtain ⟨v, pre, new, -, rfl, -, hhistory, -, rfl⟩ :=
    exists_visit_of_effect? hG run hgenuine haccount howner hsplit heffect
  replace hhistory : (h ++ [e₀]) ++ history i t = (pre ++ [v.lookup g]) ++ [v.reading] := by
    simpa [hover] using hhistory
  rcases List.eq_nil_or_concat (history i t) with hnil | ⟨h', y, hconcat⟩
  · -- the reading would be the end of the visit that is over
    rw [hnil, List.append_nil] at hhistory
    obtain ⟨-, heq⟩ := List.append_inj' hhistory rfl
    exact absurd (List.singleton_inj.mp heq) (he₀ v.content)
  · rw [hconcat, List.concat_eq_append, ← List.append_assoc] at hhistory
    obtain ⟨-, heq⟩ := List.append_inj' hhistory rfl
    have hmem : (i, v.reading) ∈ t := by
      rw [← mem_history_iff, hconcat, ← List.singleton_inj.mp heq]
      simp
    rw [hlater v.content (ht ▸ List.mem_append_left _ hmem)]

/-- **The last who reads the content finds its record or writes it**, and after that it leaves it
where it is. -/
theorem exists_shown (hG : db.graph.IsCompiled) (hsha : Set.InjOn Sha256.hex U)
    (run : Interleaving programs s trace w) (hgenuine : db.StaysGenuine U g s trace)
    (haccount : Account db g ∅ (history i trace)) (howner : db.graph.owner? p = some c)
    (htrace : trace = before ++ (i, ⟨.content p, content⟩) :: after)
    (hlast : ∀ x, (i, ⟨.content p, x⟩) ∉ after) (hused : ∀ b, content = .ok b → b ∈ U)
    (hread : ∀ e, content = .error e → e.IsAbsence) :
    ∃ u u', trace = u ++ u' ∧
      s.valueAfter u (Key.document g c.name p).encode = db.shown c p content ∧
      history i before <+: history i u ∧
      ∀ t e t' x, u' = t ++ (i, e) :: t' →
        e.effect? (Key.document g c.name p).encode = some x → x = db.shown c p content := by
  have hhistory : history i trace =
      history i before ++ ⟨.content p, content⟩ :: history i after := by
    simp [htrace]
  rcases haccount.contents hhistory (Set.notMem_empty _) with
    ⟨x, hx⟩ | ⟨v, pre, hv, rfl, rfl, hpre, hcloses⟩
  · exact absurd (mem_history_iff.mp hx) (hlast x)
  obtain rfl := Option.some.inj (howner.symm.trans hv.owner)
  have hcol := Graph.mem_of_owner? howner
  obtain ⟨t, t', rfl, hbefore, hbetween⟩ := exists_of_history_concat hpre
  have hsplit : trace = (t ++ [(i, v.lookup g)]) ++ (t' ++ (i, v.reading) :: after) := by
    simp [htrace, Visit.reading]
  have hsplit' : trace = t ++ (i, v.lookup g) :: (t' ++ (i, v.reading) :: after) := by
    simp [hsplit]
  obtain ⟨w₁, _, run₁, _, hlookup⟩ := (hsplit' ▸ run).exists_at
  have hstored : w₁.store.get? (v.key g) = v.stored := hlookup.reply_eq_get?.symm
  have hgenuine₁ : db.Genuine U v.collection v.path v.stored := by
    rw [← hstored, run₁.get?_eq_valueAfter]
    exact hgenuine t _ hsplit' _ hcol v.path
  -- where nothing is done, the visit is over when it has read the stored record
  have hidle : v.stored = db.shown v.collection v.path v.content → ∃ u u', trace = u ++ u' ∧
      s.valueAfter u (v.key g) = db.shown v.collection v.path v.content ∧
      history i (t ++ (i, v.lookup g) :: t') <+: history i u ∧
      ∀ t e t' x, u' = t ++ (i, e) :: t' → e.effect? (v.key g) = some x →
        x = db.shown v.collection v.path v.content := by
    intro heq
    refine ⟨_, _, hsplit, ?_, by simp [hbetween], fun t₁ e t₂ x ht heffect => ?_⟩
    · rw [Store.valueAfter_concat_of_effect? rfl, ← run₁.get?_eq_valueAfter, hstored, heq]
    · have hover : history i (t ++ [(i, v.lookup g)]) = history i t ++ [v.lookup g] := by simp
      refine eq_shown_of_effect? hG run hgenuine haccount howner hsplit hover
        (fun e he => by cases he) (fun x hx => ?_) ht heffect
      rcases List.mem_append.mp hx with hx | hx
      · rw [← mem_history_iff, hbetween] at hx
        cases hx
      · rcases List.mem_cons.mp hx with hx | hx
        · cases hx
          rfl
        · exact absurd hx (hlast x)
  generalize hafter : history i after = rest at hcloses
  cases hcloses with
  | agrees hresult =>
    exact hidle (Visit.eq_shown_of_agrees hG hv hgenuine₁ hsha hused hread hresult)
  | absent hresult hops =>
    have hshown := Visit.get?_visit hG hv hgenuine₁ hstored hresult
    rw [hops, List.foldl_nil, hstored] at hshown
    exact hidle hshown
  | @replaces rest new hresult =>
    obtain ⟨t₂, t₃, rfl, hnone, -⟩ := exists_of_history_cons hafter
    have hcommits : trace = (t ++ (i, v.lookup g) :: t' ++ (i, v.reading) :: t₂) ++
        (i, v.commit g new) :: t₃ := by
      simp [htrace, Visit.reading]
    obtain ⟨w₂, w₃, run₂, run₃, hcommit⟩ := (hcommits ▸ run).exists_at
    have hguard : w₂.store.get? (v.key g) = v.stored := hcommit.guard_eq (List.mem_cons_self ..)
    refine ⟨_, t₃, by rw [hcommits, List.append_cons], ?_, ?_, fun t₁ e t₂ x ht heffect => ?_⟩
    · have hshown := Visit.get?_visit hG hv hgenuine₁ hguard hresult
      rw [← run₃.get?_eq_valueAfter, hcommit.eq_of_write]
      exact hshown
    · simp [hbetween]
    · have hover (t : Trace ι) : history i (t ++ [(i, v.commit g new)]) =
          history i t ++ [v.commit g new] := by simp
      refine eq_shown_of_effect? hG run hgenuine haccount howner (hcommits.trans (List.append_cons ..))
        (hover _) (fun e he => by cases he) (fun x hx => ?_) ht heffect
      exact absurd (by simp [hx]) (hlast x)

end Update

end Turns

end ContentIndex
