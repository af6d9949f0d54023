import ContentIndex.Index.Rebuild
import ContentIndex.Proofs.Exchange
import Mathlib.Data.List.Forall2

/-!
# Programs that follow a protocol

A protocol says how exchanges move a process from one stage to the next. A program follows it if
every reply that it can get to a question leads to a stage from which the rest of the program
follows it. The rules here are those of the ways programs are put together, so each function of a
program needs one lemma, which says how it goes through the stages.

## Main definitions

* `Protocol`: stages, the exchanges that can happen and how they move a process on
* `Protocol.Lenient`: protocols of what is written, and of the contents that are read
* `Program.Follows`, `Failing.Follows`, `Building.Follows`: programs that follow a protocol, with
  what holds at their end

## Main results

* `Program.Follows.bind`, `Failing.Follows.bind`, `Building.Follows.bind`: one program after another
* `Failing.Follows.retrying`: a program that is tried again
-/

namespace ContentIndex

/-- How exchanges move a process from one stage to the next. -/
structure Protocol (σ : Type) where
  /-- The exchange can happen at the stage. -/
  may : σ → Exchange → Prop
  /-- The exchange takes the process from the first stage to the second. -/
  step : σ → Exchange → σ → Prop
  /-- A scan stays in its range. -/
  may_scan : ∀ {s range d limit es}, may s ⟨.scan range d limit, .ok es⟩ →
    ∀ e ∈ es, range.contains e.1
  /-- Loops may be cut off. -/
  cuts : Prop

variable {σ α β ε ε' : Type} {P : Protocol σ}

/-- A protocol of what is written, and of the contents that are read: a process may stay where it is
when neither is done. -/
class Protocol.Lenient (P : Protocol σ) : Prop where
  /-- It may stay where it is. -/
  stays : ∀ {s e}, e.Idle → P.step s e s

theorem Protocol.quiet (P : Protocol σ) [P.Lenient] {s : σ} {e : Exchange} (h : e.Idle) :
    P.step s e s :=
  Lenient.stays h

namespace Program

/-- From a stage on, all that the program asks takes it to further stages, and at its end `post`
holds of its result and its stage. -/
def Follows (P : Protocol σ) (post : α → σ → Prop) : Program α → σ → Prop
  | .done a, s => post a s
  | .ask q next, s =>
    ∀ r, P.may s ⟨q, r⟩ → ∃ s', P.step s ⟨q, r⟩ s' ∧ (next r).Follows P post s'
  | .cut, _ => P.cuts

theorem Follows.mono {post post' : α → σ → Prop} {t : Program α} {s : σ}
    (h : t.Follows P post s) (hpost : ∀ a s, post a s → post' a s) : t.Follows P post' s := by
  induction t generalizing s with
  | done a => exact hpost a s h
  | ask q next ih =>
    intro r hr
    obtain ⟨s', hstep, hnext⟩ := h r hr
    exact ⟨s', hstep, ih r hnext⟩
  | cut => exact h

/-- One program after another. -/
theorem Follows.bind {m : α → σ → Prop} {post : β → σ → Prop} {t : Program α}
    {f : α → Program β} {s : σ} (h : t.Follows P m s)
    (hf : ∀ a s, m a s → (f a).Follows P post s) : (t.bind f).Follows P post s := by
  induction t generalizing s with
  | done a => exact hf a s h
  | ask q next ih =>
    intro r hr
    obtain ⟨s', hstep, hnext⟩ := h r hr
    exact ⟨s', hstep, ih r hnext⟩
  | cut => exact h

theorem Follows.question {q : Question} {post : q.Reply → σ → Prop} {s : σ}
    (h : ∀ r, P.may s ⟨q, r⟩ → ∃ s', P.step s ⟨q, r⟩ s' ∧ post r s') :
    (question q).Follows P post s := h

/-- Nothing is said of a program at all, if it is never at a loss for a step. -/
theorem follows_any (t : Program α) (hstep : ∀ s e, P.may s e → ∃ s', P.step s e s')
    (hcuts : P.cuts) (s : σ) : t.Follows P (fun _ _ => True) s := by
  induction t generalizing s with
  | done a => trivial
  | ask q next ih =>
    intro r hr
    obtain ⟨s', hs'⟩ := hstep s _ hr
    exact ⟨s', hs', ih r s'⟩
  | cut => exact hcuts

end Program

/-! ### Programs that may fail -/

/-- At the end of a program that may fail, one thing holds of a result and another of a failure. -/
def Ends (Q : α → σ → Prop) (E : ε → σ → Prop) : Except ε α → σ → Prop
  | .ok a => Q a
  | .error e => E e

namespace Failing

/-- The program follows the protocol, with what holds of its result and of its failure. -/
def Follows (P : Protocol σ) (Q : α → σ → Prop) (E : ε → σ → Prop) (t : Failing ε α)
    (s : σ) : Prop :=
  Program.Follows P (Ends Q E) t.run s

variable {Q : α → σ → Prop} {E : ε → σ → Prop} {s : σ}

theorem Follows.mono {Q' : α → σ → Prop} {E' : ε → σ → Prop} {t : Failing ε α}
    (h : t.Follows P Q E s) (hok : ∀ a s, Q a s → Q' a s)
    (hfailed : ∀ e s, E e s → E' e s) : t.Follows P Q' E' s := by
  refine Program.Follows.mono h fun r s hr => ?_
  cases r with
  | ok a => exact hok a s hr
  | error e => exact hfailed e s hr

theorem Follows.pure {a : α} (h : Q a s) : (pure a : Failing ε α).Follows P Q E s := h

theorem Follows.throw {e : ε} (h : E e s) :
    (throw e : Failing ε α).Follows P Q E s := h

theorem Follows.bind {m : β → σ → Prop} {t : Failing ε β} {f : β → Failing ε α}
    (h : t.Follows P m E s) (hf : ∀ b s, m b s → (f b).Follows P Q E s) :
    (t >>= f).Follows P Q E s := by
  refine Program.Follows.bind h fun r s hr => ?_
  cases r with
  | ok b => exact hf b s hr
  | error e => exact hr

/-- A program without failures. -/
theorem Follows.lift {t : Program α} (h : Program.Follows P Q t s) :
    Failing.Follows P Q E (ExceptT.lift t : Failing ε α) s := by
  refine Program.Follows.bind h fun a s ha => ?_
  exact ha

/-- A program whose failures are seen as others. -/
theorem Follows.adapt {f : ε' → ε} {t : Failing ε' α}
    (h : t.Follows P Q (fun e => E (f e)) s) :
    Failing.Follows P Q E (ExceptT.adapt f t : Failing ε α) s := by
  refine Program.Follows.bind h fun r s hr => ?_
  cases r with
  | ok a => exact hr
  | error e => exact hr

/-- A program whose failure does not stop the run. -/
theorem Follows.outcome {Q : Except ε' α → σ → Prop} {t : Failing ε' α}
    (h : t.Follows P (fun a => Q (.ok a)) (fun e => Q (.error e)) s) :
    (Failing.outcome t : Failing ε (Except ε' α)).Follows P Q E s := by
  refine Follows.lift (Program.Follows.mono h fun r s hr => ?_)
  cases r with
  | ok a => exact hr
  | error e => exact hr

/-- A program that is tried again, if those of its failures that may pass leave what holds before
it. -/
theorem Follows.retrying_of_keeps {J : σ → Prop} {mayPass : ε → Bool} {t : Failing ε α}
    (h : ∀ s, J s → t.Follows P Q (fun e s' => E e s' ∧ (mayPass e → J s')) s) (hs : J s)
    (retries : Nat) : (t.retrying mayPass retries).Follows P Q E s := by
  induction retries generalizing s with
  | zero => exact (h s hs).mono (fun _ _ ha => ha) fun _ _ he => he.1
  | succ retries ih =>
    refine Follows.bind (Follows.outcome (Q := fun r s' => match r with
      | .ok a => Q a s'
      | .error e => E e s' ∧ (mayPass e → J s')) (h s hs)) fun r s' hr => ?_
    cases r with
    | ok a => exact hr
    | error e =>
      simp only
      split
      · next hpass => exact ih (hr.2 hpass)
      · exact hr.1

/-- A program that is tried again, if those of its failures that may pass leave it at the stage
where it began. -/
theorem Follows.retrying {mayPass : ε → Bool} {t : Failing ε α}
    (h : t.Follows P Q (fun e s' => E e s' ∧ (mayPass e → s' = s)) s) (retries : Nat) :
    (t.retrying mayPass retries).Follows P Q E s :=
  retrying_of_keeps (J := fun s' => s' = s) (fun _ hs => hs ▸ h) rfl retries

theorem Follows.cut (h : P.cuts) : (Failing.cut : Failing ε α).Follows P Q E s := h

/-- The results do not matter. -/
theorem Follows.discard {Q : Unit → σ → Prop} {t : Failing ε α}
    (h : t.Follows P (fun _ => Q ()) E s) :
    (discard t : Failing ε Unit).Follows P Q E s := by
  refine Program.Follows.bind h fun r s hr => ?_
  cases r with
  | ok a => exact hr
  | error e => exact hr

/-- One program for each item, if each leaves what holds before it. -/
theorem Follows.forM {J : σ → Prop} {xs : List β} {f : β → Failing ε Unit}
    (hf : ∀ x ∈ xs, ∀ s, J s → (f x).Follows P (fun _ => J) E s) (hs : J s) :
    (xs.forM f).Follows P (fun _ => J) E s := by
  induction xs generalizing s with
  | nil => exact hs
  | cons x xs ih =>
    refine Follows.bind (hf x (List.mem_cons_self ..) s hs) fun _ s hs => ?_
    exact ih (fun y hy => hf y (List.mem_cons_of_mem _ hy)) hs

/-- One program for each item, each leaving the stage as it is. -/
theorem Follows.mapM {γ : Type} {R : β → γ → Prop} {xs : List β} {f : β → Failing ε γ}
    (hf : ∀ x ∈ xs, (f x).Follows P (fun y s' => s' = s ∧ R x y) E s) :
    Failing.Follows P (fun ys s' => s' = s ∧ List.Forall₂ R xs ys) E
      (xs.mapM f : Failing ε (List γ)) s := by
  induction xs with
  | nil => exact ⟨rfl, .nil⟩
  | cons x xs ih =>
    rw [List.mapM_cons]
    refine Follows.bind (hf x (List.mem_cons_self ..)) ?_
    rintro y s ⟨rfl, hy⟩
    refine Follows.bind (ih fun z hz => hf z (List.mem_cons_of_mem _ hz)) ?_
    rintro ys s ⟨rfl, hys⟩
    exact ⟨rfl, .cons hy hys⟩

end Failing

/-! ### Questions -/

section Questions

variable {s : σ}

/-- Failures of storage are failures of the run. -/
theorem follows_storage {Q : α → σ → Prop} {E : IndexError → σ → Prop} {t : Storage α}
    (h : t.Follows P Q (fun e => E (.storage e)) s) :
    Failing.Follows P Q E (liftM t : Failing IndexError α) s :=
  Failing.Follows.adapt h

theorem follows_program {Q : α → σ → Prop} {E : IndexError → σ → Prop} {t : Program α}
    (h : t.Follows P Q s) : Failing.Follows P Q E (liftM t : Failing IndexError α) s :=
  Failing.Follows.adapt (Failing.Follows.lift h)

/-- The bytes are a number. -/
def Generation.Reads (stored : Option (Generation × Bytes)) : Prop :=
  ∀ p ∈ stored, parse? p.2 = some p.1

theorem follows_ofStored {key : Key} {b : Bytes} {Q : Generation → σ → Prop}
    {E : StorageError → σ → Prop} (hok : ∀ g, Generation.parse? b = some g → Q g s)
    (hfailed : Generation.parse? b = none → ∀ e, E e s) :
    Failing.Follows P Q E
      (liftM (Generation.ofStored key b : Except StorageError Generation) : Storage Generation)
      s := by
  unfold Generation.ofStored
  cases hb : Generation.parse? b with
  | none => exact hfailed hb _
  | some g => exact hok g hb

variable [P.Lenient]

/-- A question that writes nothing and asks for no content leaves the stage as it is. -/
theorem follows_question {q : Question} {post : q.Reply → σ → Prop}
    (hq : ∀ r, Exchange.Idle ⟨q, r⟩) (h : ∀ r, P.may s ⟨q, r⟩ → post r s) :
    (Program.question q).Follows P post s :=
  Program.Follows.question fun r hr => ⟨s, P.quiet (hq r), h r hr⟩

theorem follows_get {key : Bytes} {Q : Option Bytes → σ → Prop} {E : StorageError → σ → Prop}
    (hok : ∀ v, Q v s) (hfailed : ∀ e, E e s) : (Storage.get key).Follows P Q E s := by
  refine follows_question (fun _ => ⟨rfl, nofun⟩) fun r _ => ?_
  cases r with
  | ok v => exact hok v
  | error e => exact hfailed e

theorem follows_scan {range : KeyRange} {d : Direction} {limit : Nat} {Q : List Entry → σ → Prop}
    {E : StorageError → σ → Prop} (hok : ∀ es, (∀ e ∈ es, range.contains e.1) → Q es s)
    (hfailed : ∀ e, E e s) : (Storage.scan range d limit).Follows P Q E s := by
  refine follows_question (fun _ => ⟨rfl, nofun⟩) fun r hr => ?_
  cases r with
  | ok es => exact hok es (P.may_scan hr)
  | error e => exact hfailed e

/-- A batch moves the process on when it is applied, and leaves it where it is otherwise. -/
theorem follows_write {b : Batch} {s' : σ} {Q : Unit → σ → Prop} {E : StorageError → σ → Prop}
    (hstep : P.step s ⟨.write b, .ok ()⟩ s') (hok : Q () s') (hfailed : ∀ e, E e s) :
    (Storage.write b).Follows P Q E s := by
  refine Program.Follows.question fun r _ => ?_
  cases r with
  | ok _ => exact ⟨s', hstep, hok⟩
  | error e => exact ⟨s, P.quiet ⟨rfl, nofun⟩, hfailed e⟩

theorem follows_now : Program.now.Follows P (fun _ s' => s' = s) s :=
  follows_question (fun _ => ⟨rfl, nofun⟩) fun _ _ => rfl

theorem follows_liveIn? {seconds : Nat} {stored : Option Bytes} :
    (Lock.liveIn? seconds stored).Follows P (fun _ s' => s' = s) s := by
  unfold Lock.liveIn?
  split
  · rfl
  · refine Program.Follows.bind follows_now ?_
    rintro t _ rfl
    rfl

theorem follows_checkCancelled {E : IndexError → σ → Prop} (hstopped : E .cancelled s) :
    checkCancelled.Follows P (fun _ s' => s' = s) E s := by
  refine Failing.Follows.bind (m := fun _ s' => s' = s)
    (follows_program (follows_question (fun _ => ⟨rfl, nofun⟩) fun _ _ => rfl)) ?_
  rintro b s rfl
  split
  · exact hstopped
  · rfl

/-- A stored number is read, or the stage is left as it is. -/
theorem follows_stored? {key : Key} {Q : Option (Generation × Bytes) → σ → Prop}
    {E : StorageError → σ → Prop}
    (hok : ∀ p, Generation.Reads p → P.may s ⟨.get key.encode, .ok (p.map (·.2))⟩ →
      ∃ s', P.step s ⟨.get key.encode, .ok (p.map (·.2))⟩ s' ∧ Q p s')
    (hfailed : ∀ r, P.may s ⟨.get key.encode, r⟩ → r ≠ .ok none → ∀ e, E e s) :
    (Generation.stored? key).Follows P Q E s := by
  intro r hr
  match r with
  | .error e => exact ⟨s, P.quiet ⟨rfl, nofun⟩, hfailed _ hr nofun e⟩
  | .ok none => exact hok none nofun hr
  | .ok (some b) =>
    cases hb : Generation.parse? b with
    | none =>
      refine ⟨s, P.quiet ⟨rfl, nofun⟩, ?_⟩
      refine Failing.Follows.bind (m := fun _ _ => False)
        (follows_ofStored ?_ fun _ => hfailed _ hr nofun) nofun
      rw [hb]
      nofun
    | some g =>
      obtain ⟨s', hstep, hs'⟩ := hok (some (g, b)) (by rintro _ ⟨⟩; exact hb) hr
      refine ⟨s', hstep, ?_⟩
      refine Failing.Follows.bind (m := fun g' s'' => g' = g ∧ s'' = s')
        (follows_ofStored (fun g' hg' => ⟨by simpa [hb] using hg'.symm, rfl⟩) ?_) ?_
      · rw [hb]
        nofun
      rintro _ _ ⟨rfl, rfl⟩
      exact hs'

end Questions

/-! ### Steps of a rebuild -/

namespace Building

/-- The program follows the protocol, with what holds of its result or failure and of the lock that
it ends with. -/
def Follows (P : Protocol σ) (Q : α → Lock → σ → Prop) (E : IndexError → Lock → σ → Prop)
    (t : Building α) (l : Lock) (s : σ) : Prop :=
  Program.Follows P (fun r s => match r.1 with
    | .ok a => Q a r.2 s
    | .error e => E e r.2 s) (t.run.run l) s

variable {Q : α → Lock → σ → Prop} {E : IndexError → Lock → σ → Prop} {l : Lock} {s : σ}

theorem Follows.pure {a : α} (h : Q a l s) : (pure a : Building α).Follows P Q E l s := h

theorem Follows.bind {m : β → Lock → σ → Prop} {t : Building β} {f : β → Building α}
    (h : t.Follows P m E l s)
    (hf : ∀ b l s, m b l s → (f b).Follows P Q E l s) :
    (t >>= f).Follows P Q E l s := by
  refine Program.Follows.bind h fun r s hr => ?_
  obtain ⟨r, l'⟩ := r
  cases r with
  | ok b => exact hf b l' s hr
  | error e => exact hr

/-- A program that does not touch the lock. -/
theorem Follows.lift {t : Failing IndexError α}
    (h : t.Follows P (fun a => Q a l) (fun e => E e l) s) :
    (liftM t : Building α).Follows P Q E l s := by
  refine Program.Follows.bind h fun r s hr => ?_
  cases r with
  | ok a => exact hr
  | error e => exact hr

theorem Follows.get {Q : Lock → Lock → σ → Prop} (h : Q l l s) :
    (get : Building Lock).Follows P Q E l s := h

theorem Follows.set {Q : PUnit → Lock → σ → Prop} {l' : Lock} (h : Q ⟨⟩ l' s) :
    (set l' : Building PUnit).Follows P Q E l s := h

end Building

end ContentIndex
