import ContentIndex.Proofs.Protocol
import Mathlib.Data.List.Induction
import Mathlib.Logic.Function.Basic

/-!
# Programs in turns

Programs that run at the same time share a store. In each step one of them puts its next question,
which is answered, and the others wait. Which one goes on is not determined, and any of them may
stop for good. If all of them follow protocols, then the run takes each through the stages of its
protocol, so that what is to be shown of all runs can be shown of the steps of the protocols.

## Main definitions

* `Interleaving`: runs of programs in turns, with the exchanges that they have had
* `Course`: runs of protocols in turns
* `written`: what was left under a key, one after another

## Main results

* `Interleaving.exists_course`: **programs that follow protocols take the course of the protocols**
* `Course.get?_eq`: a key has what was left under it last
-/

namespace ContentIndex

variable {ι α σ : Type}

/-- The exchanges of processes, in order. -/
abbrev Trace (ι : Type) := List (ι × Exchange)

/-- A store and what is left of the programs that share it. -/
structure World (ι α : Type) where
  /-- The store. -/
  store : Store
  /-- What is left of the programs. -/
  left : ι → Program α

section Runs

variable [DecidableEq ι]

/-- Runs of programs in turns, from a store on. -/
inductive Interleaving (programs : ι → Program α) (store : Store) : Trace ι → World ι α → Prop
  /-- Nothing has been asked. -/
  | start : Interleaving programs store [] ⟨store, programs⟩
  /-- The process `i` asks its next question. -/
  | step {trace : Trace ι} {w : World ι α} {i : ι} {q : Question} {next : q.Reply → Program α}
    {r : q.Reply} {store' : Store} (run : Interleaving programs store trace w)
    (hi : w.left i = .ask q next) (ha : w.store.Answers ⟨q, r⟩ store') :
    Interleaving programs store (trace ++ [(i, ⟨q, r⟩)])
      ⟨store', Function.update w.left i (next r)⟩

/-- Runs of protocols in turns: the stages of the processes after the exchanges of the trace. -/
inductive Course (step : ι → σ → Exchange → σ → Prop) (first : ι → σ) (store : Store) :
    Trace ι → Store → (ι → σ) → Prop
  /-- Nothing has been asked. -/
  | start : Course step first store [] store first
  /-- The process `i` has an exchange. -/
  | next {trace : Trace ι} {s s' : Store} {stages : ι → σ} {i : ι} {e : Exchange} {stage : σ}
    (course : Course step first store trace s stages) (ha : s.Answers e s')
    (hstep : step i (stages i) e stage) :
    Course step first store (trace ++ [(i, e)]) s' (Function.update stages i stage)

/-- **Programs that follow protocols take the course of the protocols**, if only such exchanges
happen as the protocols allow. -/
theorem Interleaving.exists_course {programs : ι → Program α} {store : Store} {trace : Trace ι}
    {w : World ι α} {P : ι → Protocol σ} {post : ι → α → σ → Prop} {first : ι → σ}
    (run : Interleaving programs store trace w)
    (hfollows : ∀ i, (programs i).Follows (P i) (post i) (first i))
    (hmay : ∀ x ∈ trace, ∀ s, (P x.1).may s x.2) :
    ∃ stages, Course (fun i => (P i).step) first store trace w.store stages ∧
      ∀ i, (w.left i).Follows (P i) (post i) (stages i) := by
  induction run with
  | start => exact ⟨first, .start, hfollows⟩
  | @step trace w i q next r store' run hi ha ih =>
    obtain ⟨stages, hcourse, hleft⟩ := ih fun x hx => hmay x (List.mem_append_left _ hx)
    have hi' := hleft i
    rw [hi] at hi'
    obtain ⟨stage, hstep, hnext⟩ := hi' r (hmay (i, ⟨q, r⟩) (by simp) _)
    refine ⟨Function.update stages i stage, .next hcourse ha hstep, fun j => ?_⟩
    by_cases hj : j = i
    · subst hj
      simpa using hnext
    · simpa [hj] using hleft j

/-- Every exchange is an answer of storage. -/
theorem Interleaving.exists_answers {programs : ι → Program α} {store : Store} {trace : Trace ι}
    {w : World ι α} (run : Interleaving programs store trace w) {x : ι × Exchange}
    (hx : x ∈ trace) : ∃ s s', Store.Answers s x.2 s' := by
  induction run with
  | start => cases hx
  | step run hi ha ih =>
    rcases List.mem_append.mp hx with hx | hx
    · exact ih hx
    · obtain rfl := List.mem_singleton.mp hx
      exact ⟨_, _, ha⟩

/-- A run has got to each part of its trace. -/
theorem Interleaving.exists_of_append {programs : ι → Program α} {store : Store}
    {trace trace' : Trace ι} {w : World ι α}
    (run : Interleaving programs store (trace ++ trace') w) :
    ∃ w', Interleaving programs store trace w' := by
  induction trace' using List.reverseRecOn generalizing w with
  | nil => exact ⟨w, by simpa using run⟩
  | append_singleton trace' x ih =>
    generalize h : trace ++ (trace' ++ [x]) = whole at run
    cases run with
    | start => simp at h
    | step run hi ha =>
      rw [← List.append_assoc] at h
      obtain ⟨rfl, -⟩ := List.append_inj' h rfl
      exact ih run

/-- The last step of a run. -/
theorem Interleaving.exists_of_concat {programs : ι → Program α} {store : Store} {trace : Trace ι}
    {w : World ι α} {i : ι} {q : Question} {r : q.Reply}
    (run : Interleaving programs store (trace ++ [(i, ⟨q, r⟩)]) w) :
    ∃ w' next, Interleaving programs store trace w' ∧ w'.left i = .ask q next ∧
      w'.store.Answers ⟨q, r⟩ w.store ∧ w.left = Function.update w'.left i (next r) := by
  generalize h : trace ++ [(i, ⟨q, r⟩)] = whole at run
  cases run with
  | start => simp at h
  | @step trace' w' i' q' next r' store' run hi ha =>
    obtain ⟨rfl, hx⟩ := List.append_inj' h rfl
    obtain ⟨rfl, he⟩ := Prod.mk.inj (List.cons.inj hx).1
    obtain ⟨rfl, hr⟩ := Exchange.mk.inj he
    obtain rfl := eq_of_heq hr
    exact ⟨w', next, run, hi, ha, rfl⟩

/-- A course is one of a protocol that allows more. -/
theorem Course.mono {step step' : ι → σ → Exchange → σ → Prop} {first : ι → σ} {store s : Store}
    {trace : Trace ι} {stages : ι → σ} (course : Course step first store trace s stages)
    (h : ∀ i a e b, step i a e b → step' i a e b) : Course step' first store trace s stages := by
  induction course with
  | start => exact .start
  | next _ ha hstep ih => exact .next ih ha (h _ _ _ _ hstep)

end Runs

/-! ### What was written -/

/-- What the exchanges of a trace left under a key, in order. -/
def written (trace : Trace ι) (key : Bytes) : List (Option Bytes) :=
  trace.filterMap fun x => x.2.effect? key

theorem written_append (trace trace' : Trace ι) (key : Bytes) :
    written (trace ++ trace') key = written trace key ++ written trace' key :=
  List.filterMap_append

theorem written_concat (trace : Trace ι) (i : ι) (e : Exchange) (key : Bytes) :
    written (trace ++ [(i, e)]) key = written trace key ++ (e.effect? key).toList := by
  rw [written_append]
  cases h : e.effect? key <;> simp [written, h]

/-- What was left under a key last was there before, or an exchange left it there. -/
theorem eq_or_exists_of_written {trace : Trace ι} {key : Bytes} {old v : Option Bytes}
    (h : (written trace key).getLast?.getD old = v) :
    old = v ∨ ∃ x ∈ trace, x.2.effect? key = some v := by
  cases hlast : (written trace key).getLast? with
  | none =>
    rw [hlast, Option.getD_none] at h
    exact Or.inl h
  | some u =>
    rw [hlast, Option.getD_some] at h
    obtain ⟨x, hx, hu⟩ := List.mem_filterMap.mp (List.mem_of_getLast? hlast)
    exact Or.inr ⟨x, hx, hu.trans (congrArg some h)⟩

/-- In a run, too, a key has what was left under it last. -/
theorem Interleaving.get?_eq [DecidableEq ι] {programs : ι → Program α} {store : Store}
    {trace : Trace ι} {w : World ι α} (run : Interleaving programs store trace w) (key : Bytes) :
    w.store.get? key = (written trace key).getLast?.getD (store.get? key) := by
  induction run with
  | start => rfl
  | step run hi ha ih =>
    rw [ha.get?_eq, written_concat, ih]
    cases h : Exchange.effect? _ key <;> simp

section Courses

variable [DecidableEq ι] {step : ι → σ → Exchange → σ → Prop} {first : ι → σ} {store s : Store}
  {trace trace' : Trace ι} {stages : ι → σ}

/-- A key has what was left under it last. -/
theorem Course.get?_eq (course : Course step first store trace s stages) (key : Bytes) :
    s.get? key = (written trace key).getLast?.getD (store.get? key) := by
  induction course with
  | start => rfl
  | next _ ha _ ih =>
    rw [ha.get?_eq, written_concat, ih]
    cases h : Exchange.effect? _ key <;> simp

/-- The last step of a run. -/
theorem Course.exists_of_concat {i : ι} {e : Exchange} {s' : Store}
    (course : Course step first store (trace ++ [(i, e)]) s' stages) :
    ∃ s stages' stage, Course step first store trace s stages' ∧ s.Answers e s' ∧
      step i (stages' i) e stage := by
  generalize h : trace ++ [(i, e)] = whole at course
  cases course with
  | start => simp at h
  | next course ha hstep =>
    obtain ⟨rfl, hx⟩ := List.append_inj' h rfl
    obtain ⟨rfl, rfl⟩ := Prod.mk.inj (List.cons.inj hx).1
    exact ⟨_, _, _, course, ha, hstep⟩

/-- A run up to one of its exchanges, and the step of that exchange. -/
theorem Course.exists_of_append {trace before after : Trace ι} {i : ι} {e : Exchange}
    (course : Course step first store trace s stages) (h : trace = before ++ (i, e) :: after) :
    ∃ s₁ stages₁ s₂ stage, Course step first store before s₁ stages₁ ∧ s₁.Answers e s₂ ∧
      step i (stages₁ i) e stage := by
  induction course generalizing after with
  | start => simp at h
  | @next trace s s' stages j e' stage course ha hstep ih =>
    rcases List.eq_nil_or_concat after with rfl | ⟨after, x, rfl⟩
    · obtain ⟨rfl, hx⟩ := List.append_inj' h rfl
      obtain ⟨rfl, rfl⟩ := Prod.mk.inj (List.cons.inj hx).1
      exact ⟨_, _, _, _, course, ha, hstep⟩
    · rw [List.concat_eq_append, ← List.cons_append, ← List.append_assoc] at h
      exact ih (List.append_inj' h rfl).1

end Courses

end ContentIndex
