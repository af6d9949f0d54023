import ContentIndex.Proofs.Contents
import ContentIndex.Proofs.Interleaving

/-!
# Documents that are written twice

Which records a process has written into a generation can be read off its exchanges, so it can be
seen in the trace of a run whether a process has written a document twice and has left an entry of
the first record behind.

## Main definitions

* `Exchange.Puts`: an exchange leaves something under a key
* `LeavesBehind`: a process has written a document twice and has left an entry behind
* `Wrote`: a process has written records one after another

## Main results

* `Wrote.leavesBehind_iff`: **what is left behind is seen in the trace**
-/

namespace ContentIndex

/-- The exchange leaves something under the key. -/
def Exchange.Puts (e : Exchange) (k : Bytes) : Prop := ∃ v, e.effect? k = some (some v)

theorem Exchange.not_puts_of_effect? {e : Exchange} {k : Bytes} (h : e.effect? k = none) :
    ¬ e.Puts k := by
  rintro ⟨v, hv⟩
  rw [h] at hv
  cases hv

variable {ι : Type} {G : Graph} {i : ι} {n : Generation} {trace trace' : Trace ι}
  {rs rs' : List Record} {k : Bytes}

/-- The process puts something under the key. -/
def PutBy (trace : Trace ι) (i : ι) (k : Bytes) : Prop := ∃ x ∈ trace, x.1 = i ∧ x.2.Puts k

/-- The process has written a document of the generation together with another key, and later it has
written the document again, but never that key. -/
def LeavesBehind (trace : Trace ι) (i : ι) (n : Generation) : Prop :=
  ∃ before e after c p k, trace = before ++ (i, e) :: after ∧ Key.generationPrefix n <+: k ∧
    e.Puts (Key.document n c p).encode ∧ e.Puts k ∧
    PutBy after i (Key.document n c p).encode ∧ ¬ PutBy after i k

/-- The process has written the entries of the records into the generation, one record after
another, and nothing else but the information on the generation. -/
inductive Wrote (G : Graph) (i : ι) (n : Generation) : Trace ι → List Record → Prop
  /-- It has written nothing. -/
  | nil : Wrote G i n [] []
  /-- Something else has happened. -/
  | other {x : ι × Exchange} {trace : Trace ι} {rs : List Record}
    (hx : x.1 = i → ∀ k, Key.generationPrefix n <+: k → k ≠ (Key.info n).encode → ¬ x.2.Puts k)
    (h : Wrote G i n trace rs) : Wrote G i n (x :: trace) rs
  /-- It has written a record. -/
  | record {e : Exchange} {r : Record} {trace : Trace ι} {rs : List Record}
    (he : ∀ k, e.effect? k = (Entries.find? k (G.entries n r)).map some)
    (h : Wrote G i n trace rs) : Wrote G i n ((i, e) :: trace) (r :: rs)

namespace Wrote

theorem append (h : Wrote G i n trace rs) (h' : Wrote G i n trace' rs') :
    Wrote G i n (trace ++ trace') (rs ++ rs') := by
  induction h with
  | nil => exact h'
  | other hx _ ih => exact .other hx ih
  | record he _ ih => exact .record he ih

/-- A process that has put nothing into the generation has written no record. -/
theorem of_not_puts (h : ∀ x ∈ trace, ∀ k, Key.generationPrefix n <+: k → ¬ x.2.Puts k) :
    Wrote G i n trace [] := by
  induction trace with
  | nil => exact .nil
  | cons x trace ih =>
    exact .other (fun _ k hk _ => h x (List.mem_cons_self ..) k hk)
      (ih fun y hy => h y (List.mem_cons_of_mem _ hy))

/-- Something that is no record has happened. -/
theorem concat_other (h : Wrote G i n trace rs) {j : ι} {e : Exchange}
    (he : j = i → ∀ k, Key.generationPrefix n <+: k → k ≠ (Key.info n).encode → ¬ e.Puts k) :
    Wrote G i n (trace ++ [(j, e)]) rs := by
  have := h.append (.other (x := (j, e)) he .nil)
  rwa [List.append_nil] at this

/-- One more record has been written. -/
theorem concat_record (h : Wrote G i n trace rs) {e : Exchange} {r : Record}
    (he : ∀ k, e.effect? k = (Entries.find? k (G.entries n r)).map some) :
    Wrote G i n (trace ++ [(i, e)]) (rs ++ [r]) :=
  h.append (.record he .nil)

theorem puts_iff {e : Exchange} {r : Record}
    (he : ∀ k, e.effect? k = (Entries.find? k (G.entries n r)).map some) :
    e.Puts k ↔ ∃ v, (k, v) ∈ G.entries n r := by
  simp [Exchange.Puts, he, Graph.find?_entries_eq_some_iff]

/-- What a process has put into a generation, one of its records has an entry for. -/
theorem putBy_iff (h : Wrote G i n trace rs) (hk : Key.generationPrefix n <+: k)
    (hinfo : k ≠ (Key.info n).encode) : PutBy trace i k ↔ G.latest? n rs k ≠ none := by
  have hmem : PutBy trace i k ↔ ∃ r ∈ rs, ∃ v, (k, v) ∈ G.entries n r := by
    induction h with
    | nil => simp [PutBy]
    | @other x trace rs hx h ih =>
      rw [← ih]
      simp only [PutBy, List.exists_mem_cons_iff]
      constructor
      · rintro (⟨hxi, hputs⟩ | hputs)
        · exact absurd hputs (hx hxi k hk hinfo)
        · exact hputs
      · exact Or.inr
    | record he h ih =>
      simp only [PutBy, List.exists_mem_cons_iff, true_and] at ih ⊢
      rw [puts_iff he, ih]
  rw [hmem, Ne, Graph.latest?_eq_none_iff]
  simp

/-- An exchange of the process that has put a document there has written a record. -/
theorem exists_of_append {before after : Trace ι} {e : Exchange}
    (h : Wrote G i n (before ++ (i, e) :: after) rs) (hk : Key.generationPrefix n <+: k)
    (hinfo : k ≠ (Key.info n).encode) (hputs : e.Puts k) :
    ∃ earlier r later, rs = earlier ++ r :: later ∧
      (∀ k, e.effect? k = (Entries.find? k (G.entries n r)).map some) ∧
      Wrote G i n after later := by
  induction before generalizing rs with
  | nil =>
    cases h with
    | other hx _ => exact absurd hputs (hx rfl k hk hinfo)
    | record he h => exact ⟨[], _, _, rfl, he, h⟩
  | cons x before ih =>
    cases h with
    | other _ h => exact ih h
    | record _ h =>
      obtain ⟨earlier, r, later, rfl, hr⟩ := ih h
      exact ⟨_ :: earlier, r, later, rfl, hr⟩

/-- A record has been written by an exchange. -/
theorem exists_of_records {earlier later : List Record} {r : Record}
    (h : Wrote G i n trace (earlier ++ r :: later)) :
    ∃ before e after, trace = before ++ (i, e) :: after ∧
      (∀ k, e.effect? k = (Entries.find? k (G.entries n r)).map some) ∧
      Wrote G i n after later := by
  generalize hrs : earlier ++ r :: later = rs at h
  induction h generalizing earlier with
  | nil => simp at hrs
  | @other x _ _ _ _ ih =>
    obtain ⟨before, e, after, rfl, he⟩ := ih hrs
    exact ⟨x :: before, e, after, rfl, he⟩
  | @record e r' trace rs he h ih =>
    cases earlier with
    | nil =>
      obtain ⟨rfl, rfl⟩ := List.cons.inj hrs
      exact ⟨[], e, trace, rfl, he, h⟩
    | cons _ earlier =>
      obtain ⟨before, e', after, rfl, he'⟩ := ih (List.cons.inj hrs).2
      exact ⟨(i, e) :: before, e', after, rfl, he'⟩

/-- **What is left behind is seen in the trace**: a process that has written records one after
another has left an entry behind if and only if some record has. -/
theorem leavesBehind_iff (hG : G.IsCompiled) (h : Wrote G i n trace rs)
    (hrs : ∀ r ∈ rs, G.Admits r) : LeavesBehind trace i n ↔ ∃ k, G.LeavesEntry n rs k := by
  constructor
  · rintro ⟨before, e, after, c, p, k, rfl, hk, hdoc, hputs, hagain, hnever⟩
    obtain ⟨earlier, r, later, rfl, he, hafter⟩ := h.exists_of_append (Store.document_starts c p)
      (Store.document_ne_info c p) hdoc
    have hr := hrs r (by simp)
    obtain ⟨w, hw⟩ := (puts_iff he).mp hdoc
    obtain ⟨hc, hp, -⟩ := Store.eq_of_document hG hr.locates hw
    obtain ⟨v, hv⟩ := (puts_iff he).mp hputs
    have hinfo : k ≠ (Key.info n).encode := (Graph.owned_of_mem_entries hG hr.locates hv).ne_info
    refine ⟨k, earlier, r, later, rfl, ⟨v, hv⟩, ?_, ?_⟩
    · rw [Record.key, hc, hp]
      exact (hafter.putBy_iff (Store.document_starts c p) (Store.document_ne_info c p)).mp hagain
    · by_contra hne
      exact hnever ((hafter.putBy_iff hk hinfo).mpr hne)
  · rintro ⟨k, earlier, r, later, rfl, ⟨v, hv⟩, hagain, hnone⟩
    have hr := hrs r (by simp)
    obtain ⟨before, e, after, rfl, he, hafter⟩ := h.exists_of_records
    have howned : Key.Owned n r.collection r.path k := Graph.owned_of_mem_entries hG hr.locates hv
    refine ⟨before, e, after, r.collection, r.path, k, rfl, howned.starts,
      (puts_iff he).mpr ⟨_, Graph.mem_entries_key hG hr.locates⟩, (puts_iff he).mpr ⟨v, hv⟩, ?_, ?_⟩
    · exact (hafter.putBy_iff (Store.document_starts _ _) (Store.document_ne_info _ _)).mpr hagain
    · intro hputs
      exact (hafter.putBy_iff howned.starts howned.ne_info).mp hputs hnone

end Wrote

end ContentIndex
