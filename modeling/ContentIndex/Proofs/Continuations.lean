import ContentIndex.Proofs.Histories

/-!
# How far programs have come

A program that has had some exchanges has the rest of it left. What is left of one program after
another is the rest of the first one, with the second after it, or the rest of the second one. Some
programs come to their end after so many questions at most, whatever is replied. If such a program
applies a batch with its last question only, then it has applied nothing as long as it asks.

## Main definitions

* `Program.Reaches`: what is left of a program after exchanges
* `Program.EndsWithin`: programs that come to their end after so many questions
* `WritesNothing`: exchanges that apply no batch

## Main results

* `Interleaving.reaches`: in a run, what is left of a program is what its history leaves
* `Program.Reaches.cases_bind`: what is left of one program after another
* `Program.Reaches.writesNothing`: **who writes last has written nothing as long as it asks**
-/

namespace ContentIndex

variable {ι α β σ ε ε' : Type}

/-! ### What is left -/

/-- What is left of a program after it has had the exchanges. -/
inductive Program.Reaches : Program α → List Exchange → Program α → Prop
  /-- Nothing has been asked. -/
  | refl (t : Program α) : Reaches t [] t
  /-- The first question was put. -/
  | ask {q : Question} {next : q.Reply → Program α} {r : q.Reply} {es : List Exchange}
    {u : Program α} (rest : Reaches (next r) es u) : Reaches (.ask q next) (⟨q, r⟩ :: es) u

namespace Program.Reaches

variable {t u : Program α} {es : List Exchange}

/-- One more question is put. -/
theorem concat {q : Question} {next : q.Reply → Program α} (h : t.Reaches es (.ask q next))
    (r : q.Reply) : t.Reaches (es ++ [⟨q, r⟩]) (next r) := by
  generalize hu : Program.ask q next = u at h
  induction h with
  | refl t =>
    subst hu
    exact .ask (.refl _)
  | ask rest ih => exact .ask (ih hu)

/-- What is left of one program after another. -/
theorem cases_bind {f : α → Program β} {u : Program β} (h : (t.bind f).Reaches es u) :
    (∃ u', t.Reaches es u' ∧ u = u'.bind f ∧ ∀ a, u' ≠ .done a) ∨
      ∃ a es₁ es₂, es = es₁ ++ es₂ ∧ t.Reaches es₁ (.done a) ∧ (f a).Reaches es₂ u := by
  induction t generalizing es with
  | done a => exact Or.inr ⟨a, [], es, rfl, .refl _, h⟩
  | ask q next ih =>
    cases h with
    | refl => exact Or.inl ⟨_, .refl _, rfl, nofun⟩
    | ask rest =>
      rcases ih _ rest with ⟨u', hu', rfl, hne⟩ | ⟨a, es₁, es₂, rfl, ha, hrest⟩
      · exact Or.inl ⟨u', .ask hu', rfl, hne⟩
      · exact Or.inr ⟨a, _ :: es₁, es₂, rfl, .ask ha, hrest⟩
  | cut =>
    cases h with
    | refl => exact Or.inl ⟨_, .refl _, rfl, nofun⟩

/-- At the end of a program nothing is left to be asked. -/
theorem of_done {a : α} (h : (done a).Reaches es u) : es = [] ∧ u = .done a := by
  cases h with
  | refl => exact ⟨rfl, rfl⟩

/-- A program goes through the stages that are computed from its exchanges. -/
theorem follows {f : σ → Exchange → σ} {post : α → σ → Prop} {s : σ} (h : t.Reaches es u)
    (ht : t.Follows (.folding f) post s) (hmay : ∀ e ∈ es, ∃ st st', Store.Answers st e st') :
    u.Follows (.folding f) post (es.foldl f s) := by
  induction h generalizing s with
  | refl t => exact ht
  | ask rest ih =>
    obtain ⟨_, rfl, hnext⟩ := ht _ (hmay _ (List.mem_cons_self ..))
    exact ih hnext fun e he => hmay e (List.mem_cons_of_mem _ he)

end Program.Reaches

/-! ### Programs that come to their end -/

/-- Whatever is replied, the program is at its end after so many questions at most. -/
def Program.EndsWithin : Nat → Program α → Prop
  | _, .done _ => True
  | 0, .ask _ _ => False
  | n + 1, .ask _ next => ∀ r, (next r).EndsWithin n
  | _, .cut => False

namespace Program

theorem EndsWithin.mono {t : Program α} {n m : Nat} (h : t.EndsWithin n) (hnm : n ≤ m) :
    t.EndsWithin m := by
  induction t generalizing n m with
  | done a => simp [EndsWithin]
  | ask q next ih =>
    obtain - | n := n
    · cases h
    obtain - | m := m
    · omega
    exact fun r => ih r (h r) (by omega)
  | cut => cases n <;> cases h

/-- What has been asked counts against the bound. -/
theorem Reaches.endsWithin {t u : Program α} {es : List Exchange} {n : Nat} (h : t.Reaches es u)
    (ht : t.EndsWithin n) : ∃ k, es.length + k = n ∧ u.EndsWithin k := by
  induction h generalizing n with
  | refl t => exact ⟨n, Nat.zero_add n, ht⟩
  | ask rest ih =>
    obtain - | n := n
    · cases ht
    obtain ⟨k, rfl, hk⟩ := ih (ht _)
    exact ⟨k, by simp only [List.length_cons]; omega, hk⟩

/-- One program after another. -/
theorem EndsWithin.bind {t : Program α} {f : α → Program β} {n m : Nat} (h : t.EndsWithin n)
    (hf : ∀ a, (f a).EndsWithin m) : (t.bind f).EndsWithin (n + m) := by
  induction t generalizing n with
  | done a => exact (hf a).mono (Nat.le_add_left ..)
  | ask q next ih =>
    obtain - | n := n
    · cases h
    rw [Nat.succ_add]
    exact fun r => ih r (h r)
  | cut => cases n <;> cases h

theorem endsWithin_question (q : Question) : (question q).EndsWithin 1 := fun _ => trivial

end Program

namespace Failing

/-- The program is at its end after so many questions at most. -/
abbrev EndsWithin (n : Nat) (t : Failing ε α) : Prop := Program.EndsWithin n t.run

theorem EndsWithin.bind {t : Failing ε β} {f : β → Failing ε α} {n m : Nat} (h : t.EndsWithin n)
    (hf : ∀ b, (f b).EndsWithin m) : (t >>= f).EndsWithin (n + m) := by
  refine Program.EndsWithin.bind h fun r => ?_
  cases r with
  | ok b => exact hf b
  | error e => exact Program.EndsWithin.mono (n := 0) trivial (Nat.zero_le m)

theorem EndsWithin.outcome {t : Failing ε' α} {n : Nat} (h : t.EndsWithin n) :
    (Failing.outcome t : Failing ε (Except ε' α)).EndsWithin n :=
  Program.EndsWithin.bind (m := 0) h fun _ => trivial

/-- Failures of storage are failures of the run. -/
theorem endsWithin_storage {t : Storage α} {n : Nat} (h : t.EndsWithin n) :
    EndsWithin n (liftM t : Failing IndexError α) :=
  Program.EndsWithin.bind (m := 0) h fun _ => trivial

theorem endsWithin_program {t : Program α} {n : Nat} (h : Program.EndsWithin n t) :
    EndsWithin n (liftM t : Failing IndexError α) :=
  Program.EndsWithin.bind (m := 0) (Program.EndsWithin.bind (m := 0) h fun _ => trivial)
    fun _ => trivial

/-- A program that is tried again. -/
theorem EndsWithin.retrying {mayPass : ε → Bool} {t : Failing ε α} {n : Nat} (h : t.EndsWithin n)
    (retries : Nat) : (t.retrying mayPass retries).EndsWithin (n * (retries + 1)) := by
  induction retries with
  | zero => exact Program.EndsWithin.mono h (Nat.le_of_eq (Nat.mul_one n).symm)
  | succ retries ih =>
    rw [Nat.mul_succ, Nat.add_comm]
    refine EndsWithin.bind h.outcome fun r => ?_
    cases r with
    | ok a => exact Program.EndsWithin.mono (n := 0) trivial (Nat.zero_le _)
    | error e =>
      simp only
      split
      · exact ih
      · exact Program.EndsWithin.mono (n := 0) trivial (Nat.zero_le _)

end Failing

/-! ### In a run -/

section Runs

variable [DecidableEq ι] {programs : ι → Program α} {store : Store} {trace : Trace ι}
  {w : World ι α} {i : ι}

/-- In a run, what is left of a program is what its history leaves. -/
theorem Interleaving.reaches (run : Interleaving programs store trace w) (i : ι) :
    (programs i).Reaches (history i trace) (w.left i) := by
  induction run with
  | start => exact .refl _
  | @step trace w j q next r store' run hj ha ih =>
    by_cases hji : j = i
    · subst hji
      rw [hj] at ih
      simpa using ih.concat r
    · simpa [history_cons_of_ne hji, Function.update_of_ne (Ne.symm hji)] using ih

/-- What a process has had are answers of storage. -/
theorem Interleaving.exists_answers_of_history (run : Interleaving programs store trace w)
    {e : Exchange} (he : e ∈ history i trace) : ∃ s s', Store.Answers s e s' :=
  run.exists_answers (mem_history_iff.mp he)

end Runs

/-! ### Who writes last -/

/-- None of the exchanges applies a batch. -/
def WritesNothing (h : List Exchange) : Prop := ∀ e ∈ h, e.applied? = none

theorem WritesNothing.nil : WritesNothing [] := List.forall_mem_nil _

theorem WritesNothing.concat {h : List Exchange} {e : Exchange} (hh : WritesNothing h)
    (he : e.applied? = none) : WritesNothing (h ++ [e]) := by
  intro e' he'
  rcases List.mem_append.mp he' with he' | he'
  · exact hh e' he'
  · rwa [List.mem_singleton.mp he']

/-- Each question has an answer. -/
theorem Store.exists_answers (s : Store) (q : Question) : ∃ r, Store.Answers s ⟨q, r⟩ s := by
  cases q with
  | get key => exact ⟨_, .get key⟩
  | scan range d limit => exact ⟨_, .scan range d limit⟩
  | write b => exact ⟨_, .writeFails b ""⟩
  | content path => exact ⟨_, .content path (.ok [])⟩
  | paths directory => exact ⟨_, .paths directory (.ok [])⟩
  | now => exact ⟨_, .now default⟩
  | freshName => exact ⟨_, .freshName ""⟩
  | cancelled => exact ⟨_, .cancelled false⟩

/-- A program that comes to its end can be run to it. -/
theorem Program.Follows.exists_end {t : Program α} {f : σ → Exchange → σ} {post : α → σ → Prop}
    {s : σ} {n : Nat} (h : t.Follows (.folding f) post s) (hn : t.EndsWithin n) :
    ∃ a es, t.Reaches es (.done a) ∧ post a (es.foldl f s) := by
  induction t generalizing n s with
  | done a => exact ⟨a, [], .refl _, h⟩
  | ask q next ih =>
    obtain - | n := n
    · cases hn
    obtain ⟨r, ha⟩ := Store.exists_answers OrderedMap.empty q
    obtain ⟨_, rfl, hnext⟩ := h r ⟨_, _, ha⟩
    obtain ⟨a, es, hes, hpost⟩ := ih r hnext (hn r)
    exact ⟨a, _ :: es, .ask hes, hpost⟩
  | cut => cases n <;> cases hn

/-- **Who writes last has written nothing as long as it asks.** -/
theorem Program.Reaches.writesNothing {t u : Program α} {es : List Exchange}
    {post : α → List Exchange → Prop} {n : Nat} (h : t.Reaches es u)
    (ht : t.Follows History.protocol post []) (hn : t.EndsWithin n)
    (hlast : ∀ a h, post a h → WritesNothing h.dropLast) (hu : ∀ a, u ≠ .done a)
    (hmay : ∀ e ∈ es, ∃ st st', Store.Answers st e st') : WritesNothing es := by
  obtain ⟨k, -, hk⟩ := h.endsWithin hn
  have hfollows := h.follows ht hmay
  rw [History.foldl_note, List.nil_append] at hfollows
  obtain ⟨a, rest, hrest, hpost⟩ := hfollows.exists_end hk
  rw [History.foldl_note] at hpost
  have hne : rest ≠ [] := by
    rintro rfl
    generalize hdone : Program.done a = v at hrest
    cases hrest
    exact hu a hdone.symm
  have hwrites := hlast a _ hpost
  rw [List.dropLast_append_of_ne_nil hne] at hwrites
  exact fun e he => hwrites e (List.mem_append_left _ he)

end ContentIndex
