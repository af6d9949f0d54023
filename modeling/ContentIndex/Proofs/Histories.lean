import ContentIndex.Proofs.Interleaving

/-!
# Histories

The history of a process is what it has asked and what it was replied, in order. A protocol of
programs that write tells which batches are applied, and lets reads go by. Where it matters what a
program has read, and when, the stage is computed from the history, or it is the whole history: then
what a program does is a property of its history at its end, and the history of a process is a part
of the trace of the run that it takes part in.

## Main definitions

* `Protocol.folding`: the protocol whose stages are computed from the exchanges
* `History.protocol`: the protocol whose stages are histories
* `history`: the exchanges of a process in a trace
* `ledger`: those of them that apply a batch or read a content
* `Store.valueAfter`: what a key has after a trace

## Main results

* `Interleaving.follows_folding`: in a run, the stage of a process is computed from its history
* `History.of_interleaving`: **what holds of the histories of a program holds of its exchanges in a
  run**
* `exists_of_history_append`: a part of a history is one of the trace
* `exists_last_departure`: a key that has had a value and has another one was taken from it at last
-/

namespace ContentIndex

variable {ι α σ : Type}

/-- The protocol whose stages are computed from the exchanges. -/
def Protocol.folding (f : σ → Exchange → σ) : Protocol σ where
  may _ e := ∃ s s', Store.Answers s e s'
  step a e b := b = f a e
  may_scan := by
    rintro a range d limit es ⟨s, s', ha⟩ e he
    exact ha.mem_range he
  cuts := True

namespace History

/-- The protocol whose stages are histories. Every exchange is noted. -/
def protocol : Protocol (List Exchange) := .folding fun h e => h ++ [e]

variable {h : List Exchange}

/-- A history that is noted is the history. -/
theorem foldl_note (h h' : List Exchange) : h'.foldl (fun h e => h ++ [e]) h = h ++ h' := by
  induction h' generalizing h with
  | nil => simp
  | cons e h' ih => rw [List.foldl_cons, ih, List.append_assoc, List.singleton_append]

/-- Nothing is said of a program at all. -/
theorem follows_any (t : Program α) : t.Follows protocol (fun _ _ => True) h :=
  t.follows_any (fun _ _ _ => ⟨_, rfl⟩) trivial h

theorem follows_question {q : Question} {post : q.Reply → List Exchange → Prop}
    (hpost : ∀ r, post r (h ++ [⟨q, r⟩])) : (Program.question q).Follows protocol post h :=
  Program.Follows.question fun r _ => ⟨_, rfl, hpost r⟩

theorem follows_get {key : Bytes} {Q : Option Bytes → List Exchange → Prop}
    {E : StorageError → List Exchange → Prop} (hok : ∀ v, Q v (h ++ [⟨.get key, .ok v⟩]))
    (hfailed : ∀ e, E e (h ++ [⟨.get key, .error e⟩])) :
    (Storage.get key).Follows protocol Q E h := by
  refine follows_question fun r => ?_
  cases r with
  | ok v => exact hok v
  | error e => exact hfailed e

theorem follows_write {b : Batch} {Q : Unit → List Exchange → Prop}
    {E : StorageError → List Exchange → Prop} (hok : Q () (h ++ [⟨.write b, .ok ()⟩]))
    (hfailed : ∀ e, E e (h ++ [⟨.write b, .error e⟩])) :
    (Storage.write b).Follows protocol Q E h := by
  refine follows_question fun r => ?_
  cases r with
  | ok _ => exact hok
  | error e => exact hfailed e

/-! ### Histories that grow -/

/-- What a program has noted stays noted. -/
theorem prefix_of_follows {t : Program α} {post : α → List Exchange → Prop}
    (hfollows : t.Follows protocol post h) :
    t.Follows protocol (fun a h' => post a h' ∧ h <+: h') h := by
  induction t generalizing h with
  | done a => exact ⟨hfollows, List.prefix_rfl⟩
  | ask q next ih =>
    intro r hr
    obtain ⟨_, rfl, hnext⟩ := hfollows r hr
    refine ⟨_, rfl, (ih r hnext).mono fun a h' hh' => ⟨hh'.1, ?_⟩⟩
    exact (List.prefix_append ..).trans hh'.2
  | cut => trivial

/-- Where an exchange stands in a history that has grown by one: it is the new one, or it was there
before. -/
theorem cases_concat {h pre post : List Exchange} {e e' : Exchange}
    (heq : h ++ [e] = pre ++ e' :: post) :
    (e' = e ∧ pre = h ∧ post = []) ∨ ∃ post', post = post' ++ [e] ∧ h = pre ++ e' :: post' := by
  rcases List.eq_nil_or_concat post with rfl | ⟨post', x, rfl⟩
  · obtain ⟨rfl, hx⟩ := List.append_inj' heq rfl
    exact Or.inl ⟨(List.cons.inj hx).1.symm, rfl, rfl⟩
  · rw [List.concat_eq_append, ← List.cons_append, ← List.append_assoc] at heq
    obtain ⟨rfl, hx⟩ := List.append_inj' heq rfl
    obtain rfl := (List.cons.inj hx).1
    exact Or.inr ⟨post', List.concat_eq_append, rfl⟩

end History

/-! ### Processes in a run -/

section Processes

variable [DecidableEq ι] {i : ι} {trace trace' : Trace ι} {h h' : List Exchange} {e : Exchange}

/-- The exchanges of a process. -/
def history (i : ι) (trace : Trace ι) : List Exchange :=
  trace.filterMap fun x => if x.1 = i then some x.2 else none

@[simp] theorem history_nil : history i [] = [] := rfl

@[simp] theorem history_append :
    history i (trace ++ trace') = history i trace ++ history i trace' :=
  List.filterMap_append

@[simp] theorem history_cons_self : history i ((i, e) :: trace) = e :: history i trace := by
  simp [history]

theorem history_cons_of_ne {j : ι} (hne : j ≠ i) :
    history i ((j, e) :: trace) = history i trace := by
  simp [history, hne]

theorem mem_history_iff : e ∈ history i trace ↔ (i, e) ∈ trace := by
  simp only [history, List.mem_filterMap]
  constructor
  · rintro ⟨⟨j, e'⟩, hmem, heq⟩
    split at heq
    · next hj =>
      cases heq
      exact hj ▸ hmem
    · cases heq
  · exact fun hmem => ⟨(i, e), hmem, by simp⟩

/-- A part of the history of a process is that of a part of the trace. -/
theorem exists_of_history_append (heq : history i trace = h ++ h') :
    ∃ t t', trace = t ++ t' ∧ history i t = h ∧ history i t' = h' :=
  List.filterMap_eq_append_iff.mp heq

/-- The first exchange of a process, in the trace. -/
theorem exists_of_history_cons (heq : history i trace = e :: h) :
    ∃ t t', trace = t ++ (i, e) :: t' ∧ history i t = [] ∧ history i t' = h := by
  obtain ⟨t, ⟨j, e'⟩, t', rfl, hnone, hsome, hrest⟩ := List.filterMap_eq_cons_iff.mp heq
  split at hsome
  · next hj =>
    cases hsome
    obtain rfl : j = i := hj
    exact ⟨t, t', rfl, List.filterMap_eq_nil_iff.mpr hnone, hrest⟩
  · cases hsome

/-- The last exchange of a process, in the trace. -/
theorem exists_of_history_concat (heq : history i trace = h ++ [e]) :
    ∃ t t', trace = t ++ (i, e) :: t' ∧ history i t = h ∧ history i t' = [] := by
  obtain ⟨t, rest, rfl, hbefore, hrest⟩ := exists_of_history_append heq
  obtain ⟨t₁, t₂, rfl, hnone, hlast⟩ := exists_of_history_cons hrest
  exact ⟨t ++ t₁, t₂, by simp, by simp [hbefore, hnone], hlast⟩

section Runs

variable {programs : ι → Program α} {store : Store} {w : World ι α} {a : α}

/-- In a run, the stage of a process is computed from its history. -/
theorem Interleaving.follows_folding {f : σ → Exchange → σ} {post : α → σ → Prop} {first : σ}
    (run : Interleaving programs store trace w)
    (hfollows : (programs i).Follows (.folding f) post first) :
    (w.left i).Follows (.folding f) post ((history i trace).foldl f first) := by
  induction run with
  | start => exact hfollows
  | @step trace w j q next r store' run hj ha ih =>
    by_cases hij : j = i
    · subst hij
      rw [hj] at ih
      obtain ⟨_, rfl, hnext⟩ := ih r ⟨_, _, ha⟩
      simpa using hnext
    · simpa [history_cons_of_ne hij, Function.update_of_ne (Ne.symm hij)] using ih

/-- At the end of a process its stage is computed from its whole history. -/
theorem Interleaving.post_folding {f : σ → Exchange → σ} {post : α → σ → Prop} {first : σ}
    (run : Interleaving programs store trace w)
    (hfollows : (programs i).Follows (.folding f) post first) (hdone : w.left i = .done a) :
    post a ((history i trace).foldl f first) := by
  have hleft := run.follows_folding hfollows
  rw [hdone] at hleft
  exact hleft

/-- **What holds of the histories of a program holds of its exchanges in a run.** -/
theorem History.of_interleaving {post : α → List Exchange → Prop}
    (run : Interleaving programs store trace w)
    (hfollows : (programs i).Follows protocol post []) :
    (w.left i).Follows protocol post (history i trace) := by
  have hleft := run.follows_folding hfollows
  rwa [foldl_note, List.nil_append] at hleft

/-- At the end of a process its whole history is in the trace. -/
theorem History.of_done {post : α → List Exchange → Prop}
    (run : Interleaving programs store trace w) (hfollows : (programs i).Follows protocol post [])
    (hdone : w.left i = .done a) : post a (history i trace) := by
  have hpost := run.post_folding hfollows hdone
  rwa [foldl_note, List.nil_append] at hpost

end Runs

end Processes

/-! ### Ledgers -/

/-- A batch is applied, or a content is read. -/
def Exchange.counts : Exchange → Bool
  | ⟨.write _, .ok _⟩ | ⟨.content _, _⟩ => true
  | _ => false

theorem Exchange.counts_eq_false {e : Exchange} (h : e.Idle) : e.counts = false := by
  obtain ⟨happlied, hcontent⟩ := h
  obtain ⟨q, r⟩ := e
  cases q with
  | write b =>
    cases r with
    | ok _ => cases happlied
    | error _ => rfl
  | content path => exact absurd rfl (hcontent path r)
  | _ => rfl

theorem Exchange.counts_of_applied? {e : Exchange} (h : e.applied? ≠ none) : e.counts := by
  obtain ⟨b, hb⟩ := Option.ne_none_iff_exists'.mp h
  rw [applied?_eq_some_iff.mp hb]
  rfl

namespace Ledger

/-- A ledger with one exchange more. Only what counts is noted. -/
def note (h : List Exchange) (e : Exchange) : List Exchange := if e.counts then h ++ [e] else h

/-- The protocol whose stages are ledgers. -/
def protocol : Protocol (List Exchange) := .folding note

instance : protocol.Lenient :=
  ⟨fun {h e} he => by simp [protocol, Protocol.folding, note, e.counts_eq_false he]⟩

theorem foldl_note (h h' : List Exchange) : h'.foldl note h = h ++ h'.filter (·.counts) := by
  induction h' generalizing h with
  | nil => simp
  | cons e h' ih =>
    rw [List.foldl_cons, ih, note]
    cases he : e.counts <;> simp [he]

/-- Nothing is said of a program at all. -/
theorem follows_any {ε : Type} {h : List Exchange} (t : Failing ε α) :
    t.Follows protocol (fun _ _ => True) (fun _ _ => True) h := by
  refine Program.Follows.mono (t.run.follows_any (fun _ _ _ => ⟨_, rfl⟩) trivial h) ?_
  intro r _ _
  cases r <;> trivial

end Ledger

section Ledgers

variable [DecidableEq ι] {i : ι} {trace trace' : Trace ι} {h h' : List Exchange} {e : Exchange}

/-- What a process has applied and what contents it has read, in order. -/
def ledger (i : ι) (trace : Trace ι) : List Exchange := (history i trace).filter (·.counts)

@[simp] theorem ledger_append : ledger i (trace ++ trace') = ledger i trace ++ ledger i trace' := by
  simp [ledger]

theorem mem_ledger_iff : e ∈ ledger i trace ↔ (i, e) ∈ trace ∧ e.counts := by
  rw [ledger, List.mem_filter, mem_history_iff]

/-- An exchange in the ledger of a process, in the trace. -/
theorem exists_of_ledger_cons (heq : ledger i trace = h ++ e :: h') :
    ∃ t t', trace = t ++ (i, e) :: t' ∧ ledger i t = h ∧ ledger i t' = h' := by
  obtain ⟨first, rest, hhistory, rfl, hrest⟩ := List.filter_eq_append_iff.mp heq
  obtain ⟨t, t₁, rfl, rfl, rfl⟩ := exists_of_history_append hhistory
  obtain ⟨before, after, hsplit, hbefore, -, hafter⟩ := List.filter_eq_cons_iff.mp hrest
  obtain ⟨t₂, t₃, rfl, rfl, hcons⟩ := exists_of_history_append hsplit
  obtain ⟨t₄, t₅, rfl, hnone, rfl⟩ := exists_of_history_cons hcons
  refine ⟨t ++ (t₂ ++ t₄), t₅, by simp, ?_, hafter⟩
  simp [ledger, hnone, List.filter_eq_nil_iff.mpr hbefore]

/-- What was left under a key that only one process has written. -/
theorem written_eq_of_sole {key : Bytes} (hsole : ∀ x ∈ trace, x.1 ≠ i → x.2.effect? key = none) :
    written trace key = (ledger i trace).filterMap (·.effect? key) := by
  induction trace with
  | nil => rfl
  | cons x trace ih =>
    obtain ⟨j, e⟩ := x
    have hrest := ih fun x hx => hsole x (List.mem_cons_of_mem _ hx)
    have hcons : written ((j, e) :: trace) key = (e.effect? key).toList ++ written trace key := by
      cases he : e.effect? key <;> simp [written, he]
    rw [hcons, hrest, ledger, ledger]
    by_cases hj : j = i
    · subst hj
      cases hcounts : e.counts with
      | true => cases he : e.effect? key <;> simp [hcounts, he]
      | false =>
        have he : e.effect? key = none := Exchange.effect?_eq_none_of_applied? (by
          by_contra hne
          simp [Exchange.counts_of_applied? hne] at hcounts) key
        simp [hcounts, he]
    · simp [history_cons_of_ne hj, hsole (j, e) (List.mem_cons_self ..) hj]

/-- At the end of a process its whole ledger is in the trace. -/
theorem Ledger.of_done {programs : ι → Program α} {store : Store} {w : World ι α} {a : α}
    {post : α → List Exchange → Prop} (run : Interleaving programs store trace w)
    (hfollows : (programs i).Follows protocol post []) (hdone : w.left i = .done a) :
    post a (ledger i trace) := by
  have hpost := run.post_folding hfollows hdone
  rwa [foldl_note, List.nil_append] at hpost

end Ledgers

/-! ### Values of a key -/

section Values

variable {s : Store} {trace trace' : Trace ι} {key : Bytes} {v : Option Bytes}

/-- What a key has after a trace. -/
def Store.valueAfter (s : Store) (trace : Trace ι) (key : Bytes) : Option Bytes :=
  (written trace key).getLast?.getD (s.get? key)

theorem Store.valueAfter_append : s.valueAfter (trace ++ trace') key =
    (written trace' key).getLast?.getD (s.valueAfter trace key) := by
  rw [valueAfter, valueAfter, written_append, List.getLast?_append]
  cases (written trace' key).getLast? <;> rfl

/-- An exchange that does not write the key leaves it as it is. -/
theorem Store.valueAfter_concat_of_effect? {i : ι} {e : Exchange} (he : e.effect? key = none) :
    s.valueAfter (trace ++ [(i, e)]) key = s.valueAfter trace key := by
  rw [valueAfter, valueAfter, written_concat, he, Option.toList_none, List.append_nil]

/-- In a run a key has what it has after the trace. -/
theorem Interleaving.get?_eq_valueAfter [DecidableEq ι] {programs : ι → Program α} {w : World ι α}
    (run : Interleaving programs s trace w) (key : Bytes) :
    w.store.get? key = s.valueAfter trace key :=
  run.get?_eq key

/-- Before an exchange a key has what it has after the trace so far. -/
theorem Interleaving.exists_at [DecidableEq ι] {programs : ι → Program α} {w : World ι α} {i : ι}
    {e : Exchange} {after : Trace ι}
    (run : Interleaving programs s (trace ++ (i, e) :: after) w) :
    ∃ w' w'', Interleaving programs s trace w' ∧
      Interleaving programs s (trace ++ [(i, e)]) w'' ∧ w'.store.Answers e w''.store := by
  have hsplit : trace ++ (i, e) :: after = (trace ++ [(i, e)]) ++ after := by simp
  obtain ⟨w'', run''⟩ := (hsplit ▸ run).exists_of_append
  obtain ⟨w', -, run', -, ha, -⟩ := run''.exists_of_concat
  exact ⟨w', w'', run', run'', ha⟩

/-- **A key that has had a value and has another one was taken from it at last**: after some
exchange it did not get the value again. -/
theorem exists_last_departure (hbefore : s.valueAfter trace key = v)
    (hafter : s.valueAfter (trace ++ trace') key ≠ v) :
    ∃ before i e after x, trace' = before ++ (i, e) :: after ∧
      s.valueAfter (trace ++ before) key = v ∧ e.effect? key = some x ∧ x ≠ v ∧
      v ∉ written after key := by
  induction trace' using List.reverseRecOn with
  | nil => exact absurd (by simpa using hbefore) hafter
  | append_singleton trace' y ih =>
    obtain ⟨i, e⟩ := y
    have hstep : s.valueAfter (trace ++ (trace' ++ [(i, e)])) key =
        (e.effect? key).getD (s.valueAfter (trace ++ trace') key) := by
      rw [← List.append_assoc, Store.valueAfter_append]
      cases he : e.effect? key <;> simp [written, he]
    rw [hstep] at hafter
    by_cases hv : s.valueAfter (trace ++ trace') key = v
    · -- this exchange is the one that takes the key from the value
      cases he : e.effect? key with
      | none => exact absurd (by simp [he, hv]) hafter
      | some x =>
        rw [he, Option.getD_some] at hafter
        exact ⟨trace', i, e, [], x, rfl, hv, he, hafter, List.not_mem_nil⟩
    · obtain ⟨before, j, e', after, x, rfl, hat, hx, hne, hnot⟩ := ih hv
      refine ⟨before, j, e', after ++ [(i, e)], x, by simp, hat, hx, hne, ?_⟩
      rw [written_concat, List.mem_append, not_or]
      refine ⟨hnot, fun hmem => hafter ?_⟩
      rw [Option.mem_toList.mp hmem, Option.getD_some]

end Values

end ContentIndex
