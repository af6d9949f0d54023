import ContentIndex.Proofs.Protocol
import ContentIndex.Proofs.Schedule

/-!
# Runs alone

A program that is alone gets every reply of storage from the store as it has left it, and every
other reply about documents from documents that stay as they are. Storage may fail; times, names and
the wish to stop are anything. That is a protocol whose stages are stores, so the rules for programs
that follow a protocol tell what becomes of the store. What is said here of a program is said of its
success; a run that fails or is cut off may leave anything.

## Main definitions

* `Program.Runs`, `Failing.Succeeds`, `Building.Succeeds`: runs that come to their end, with a result
* `Alone.protocol`: the protocol of a program that is alone with documents
* `Failing.Gives`: what holds after a run that succeeds

## Main results

* `Failing.Gives.of_succeeds`: **what follows from the protocol holds after every run that succeeds**
* `Host.runs`, `Failing.exists_succeeds`: what a host runs, a program runs alone
-/

namespace ContentIndex

open Source (Files)

variable {α β ε : Type} {fs : Files} {s s' : Store}

/-- A source that has the documents replies so. -/
def Source.Files.Answers (fs : Files) : Exchange → Prop
  | ⟨.content path, r⟩ => r = fs.get path
  | ⟨.paths d, r⟩ => r = .ok (fs.list d)
  | _ => True

/-- Alone with the documents, the program comes to its end: from the first store it gets to the
result and to the second store. -/
inductive Program.Runs (fs : Files) : Program α → Store → α → Store → Prop
  /-- It is at its end. -/
  | done (a : α) (s : Store) : Runs fs (.done a) s a s
  /-- It puts a question, and goes on with the reply. -/
  | ask {q : Question} {next : q.Reply → Program α} {r : q.Reply} {s s' s'' : Store} {a : α}
    (hs : s.Answers ⟨q, r⟩ s') (hfs : fs.Answers ⟨q, r⟩) (h : Runs fs (next r) s' a s'') :
    Runs fs (.ask q next) s a s''

/-- Alone with the documents, the program comes to its end with a result. -/
def Failing.Succeeds (fs : Files) (t : Failing ε α) (s : Store) (a : α) (s' : Store) : Prop :=
  t.run.Runs fs s (.ok a) s'

/-- One program after another. -/
theorem Program.Runs.bind {t : Program α} {f : α → Program β} {s'' : Store} {a : α} {b : β}
    (h : t.Runs fs s a s') (hf : (f a).Runs fs s' b s'') : (t.bind f).Runs fs s b s'' := by
  induction h with
  | done a s => exact hf
  | ask hs hfs _ ih => exact .ask hs hfs (ih hf)

namespace Failing.Succeeds

theorem pure {a : α} : (pure a : Failing ε α).Succeeds fs s a s := .done _ _

theorem bind {t : Failing ε α} {f : α → Failing ε β} {s'' : Store} {a : α} {b : β}
    (h : t.Succeeds fs s a s') (hf : (f a).Succeeds fs s' b s'') :
    (t >>= f).Succeeds fs s b s'' :=
  Program.Runs.bind h hf

/-- Failures of storage are failures of the run. -/
theorem storage {t : Storage α} {a : α} (h : t.Succeeds fs s a s') :
    Failing.Succeeds fs (liftM t : Failing IndexError α) s a s' :=
  Program.Runs.bind h (.done _ _)

theorem get {key : Bytes} : (Storage.get key).Succeeds fs s (s.get? key) s :=
  .ask (.get key) trivial (.done _ _)

/-- A batch whose guards hold is applied. -/
theorem write {b : Batch} (hguards : ∀ g ∈ b.guards, s.get? g.key = g.expected) :
    (Storage.write b).Succeeds fs s () (b.ops.foldl Store.apply s) :=
  .ask (.write (Store.write_eq_ok_iff.mpr ⟨hguards, rfl⟩)) trivial (.done _ _)

theorem program {t : Program α} {a : α} (h : t.Runs fs s a s') :
    Failing.Succeeds fs (liftM t : Failing ε α) s a s' :=
  Program.Runs.bind h (.done _ _)

theorem outcome {ε' : Type} {t : Failing ε' α} {a : α} (h : t.Succeeds fs s a s') :
    Failing.Succeeds fs (Failing.outcome t : Failing ε (Except ε' α)) s (.ok a) s' :=
  Program.Runs.bind h (.done _ _)

theorem checkCancelled : ContentIndex.checkCancelled.Succeeds fs s () s :=
  bind (program (.ask (.cancelled false) trivial (.done _ _))) pure

/-- Programs that leave the store as it is, one after another. -/
theorem forM {t : β → Failing ε PUnit} {bs : List β} (h : ∀ b ∈ bs, (t b).Succeeds fs s () s) :
    (bs.forM t).Succeeds fs s () s := by
  induction bs with
  | nil => exact .pure
  | cons b bs ih =>
    obtain ⟨hb, hbs⟩ := List.forall_mem_cons.mp h
    exact bind hb (ih hbs)

end Failing.Succeeds

/-- Alone with the documents, the program comes to its end with a result, and it has not acquired
the lock anew. -/
def Building.Succeeds (fs : Files) (t : Building α) (l : Lock) (s : Store) (a : α) (s' : Store) :
    Prop :=
  (t.run.run l).Runs fs s (.ok a, l) s'

namespace Building.Succeeds

variable {l : Lock}

theorem pure {a : α} : Building.Succeeds fs (pure a) l s a s := .done _ _

theorem bind {t : Building α} {f : α → Building β} {s'' : Store} {a : α} {b : β}
    (h : Building.Succeeds fs t l s a s') (hf : Building.Succeeds fs (f a) l s' b s'') :
    Building.Succeeds fs (t >>= f) l s b s'' :=
  Program.Runs.bind h hf

theorem lift {t : Failing IndexError α} {a : α} (h : t.Succeeds fs s a s') :
    Building.Succeeds fs (liftM t) l s a s' :=
  Program.Runs.bind h (.done _ _)

end Building.Succeeds

/-! ### Runs in turns -/

/-- What a process can do alone, it can do in turns before the others go on. -/
theorem Interleaving.exists_of_runs {ι γ : Type} [DecidableEq ι] {programs : ι → Program γ}
    {store : Store} {trace : Trace ι} {w : World ι γ} {i : ι} {t : Program α} {f : α → Program γ}
    {a : α} (run : Interleaving programs store trace w) (h : t.Runs fs w.store a s')
    (hi : w.left i = t.bind f) :
    ∃ trace', Interleaving programs store (trace ++ trace') ⟨s', Function.update w.left i (f a)⟩ ∧
      ∀ x ∈ trace', x.1 = i ∧ fs.Answers x.2 := by
  generalize hstore : w.store = s at h
  induction h generalizing trace w with
  | done a s =>
    subst hstore
    have hleft : Function.update w.left i (f a) = w.left := by
      rw [← Program.done_bind a f, ← hi, Function.update_eq_self]
    exact ⟨[], by simpa [hleft] using run, nofun⟩
  | @ask q next r s s₁ s₂ a hs hfs _ ih =>
    subst hstore
    obtain ⟨trace', run', hmem⟩ := ih (.step run hi hs) (by simp) rfl
    refine ⟨(i, ⟨q, r⟩) :: trace', by simpa using run', fun x hx => ?_⟩
    rcases List.mem_cons.mp hx with rfl | hx
    · exact ⟨rfl, hfs⟩
    · exact hmem x hx

/-! ### Hosts -/

/-- The documents of a host stay as they are, and it answers from them. -/
theorem Host.files_answers {h : Host} (hsource : h.source = .files fs) (q : Question) :
    fs.Answers ⟨q, (Host.answer q h).1⟩ ∧ (Host.answer q h).2.source = .files fs := by
  cases q with
  | content path =>
    refine ⟨?_, hsource⟩
    show h.source.get path = fs.get path
    rw [hsource]
    rfl
  | paths directory =>
    refine ⟨?_, hsource⟩
    show h.source.list directory = .ok (fs.list directory)
    rw [hsource]
    rfl
  | write b =>
    refine ⟨trivial, ?_⟩
    simp only [answer]
    cases h.store.write b with
    | ok s => exact hsource
    | error e => exact hsource
  | _ => exact ⟨trivial, hsource⟩

/-- What a host runs to its end runs so alone. -/
theorem Host.runs {t : Program α} {h : Host} (hsource : h.source = .files fs) {a : α}
    (ha : (Host.run t h).1 = some a) : t.Runs fs h.store a (Host.run t h).2.store := by
  induction t generalizing h with
  | done b =>
    obtain rfl := Option.some.inj ha
    exact .done b h.store
  | ask q next ih =>
    obtain ⟨hfs, hkept⟩ := Host.files_answers hsource q
    exact .ask (h.answers q) hfs (ih _ hkept ha)
  | cut => cases ha

/-- The store that the program leaves on a host with the store and the documents, where so many
names were given before. -/
def Failing.leaves (t : Failing ε α) (fs : Files) (names : Nat) (s : Store) : Store :=
  (Host.run t.run ⟨s, .files fs, 0, names, false⟩).2.store

/-- What a host is seen to do with success, a program does alone. -/
theorem Failing.exists_succeeds {t : Failing ε α} (names : Nat)
    (hrun : (Host.run t.run ⟨s, .files fs, 0, names, false⟩).1.any fun r => r.isOk) :
    ∃ a, t.Succeeds fs s a (t.leaves fs names s) := by
  rw [leaves]
  cases hr : (Host.run t.run ⟨s, .files fs, 0, names, false⟩).1 with
  | none =>
    rw [hr] at hrun
    cases hrun
  | some r =>
    cases r with
    | ok a => exact ⟨a, Host.runs rfl hr⟩
    | error e =>
      rw [hr] at hrun
      cases hrun

/-! ### The protocol -/

namespace Alone

/-- The store after an exchange. -/
def after (s : Store) (e : Exchange) : Store :=
  (e.applied?.map fun b => b.ops.foldl Store.apply s).getD s

theorem eq_after {e : Exchange} (h : s.Answers e s') : s' = after s e := by
  cases h with
  | write h => exact (Store.write_eq_ok_iff.mp h).2
  | _ => rfl

/-- The protocol of a program that is alone with documents. -/
def protocol (fs : Files) : Protocol Store where
  may s e := fs.Answers e ∧ ∃ s', s.Answers e s'
  step s e s' := s' = after s e
  may_scan := by
    rintro s range d limit es ⟨-, s', h⟩ e he
    exact h.mem_range he
  cuts := True

/-- What is not written leaves the store as it is. -/
theorem after_eq_of_applied? {e : Exchange} (h : e.applied? = none) : after s e = s := by
  rw [after, h]
  rfl

instance (fs : Files) : (protocol fs).Lenient := ⟨fun h => (after_eq_of_applied? h.1).symm⟩

/-- **What follows from the protocol holds after every run.** -/
theorem of_runs {t : Program α} {Q : α → Store → Prop} {a : α}
    (hfollows : t.Follows (protocol fs) Q s) (hrun : t.Runs fs s a s') : Q a s' := by
  induction hrun with
  | done a s => exact hfollows
  | ask hs hfs _ ih =>
    obtain ⟨s', hs', hnext⟩ := hfollows _ ⟨hfs, _, hs⟩
    refine ih ?_
    rw [eq_after hs]
    exact hs' ▸ hnext

/-- Nothing is said of a program at all. -/
theorem follows_any (t : Program α) : t.Follows (protocol fs) (fun _ _ => True) s :=
  t.follows_any (fun _ _ _ => ⟨_, rfl⟩) trivial s

/-! ### Questions -/

section Questions

variable {E : StorageError → Store → Prop} {E' : IndexError → Store → Prop}

theorem follows_get {key : Bytes} {Q : Option Bytes → Store → Prop} (h : Q (s.get? key) s)
    (hfailed : ∀ e, E e s) : (Storage.get key).Follows (protocol fs) Q E s := by
  refine follows_question (fun _ => ⟨rfl, nofun⟩) ?_
  rintro r ⟨-, s', hr⟩
  cases hr with
  | get => exact h
  | getFails => exact hfailed _

theorem follows_scan {range : KeyRange} {d : Direction} {limit : Nat}
    {Q : List Entry → Store → Prop} (h : Q (s.scan range d limit) s) (hfailed : ∀ e, E e s) :
    (Storage.scan range d limit).Follows (protocol fs) Q E s := by
  refine follows_question (fun _ => ⟨rfl, nofun⟩) ?_
  rintro r ⟨-, s', hr⟩
  cases hr with
  | scan => exact h
  | scanFails => exact hfailed _

/-- The guards of a batch that is applied have held, and one that fails changes nothing. -/
theorem follows_write {b : Batch} {Q : Unit → Store → Prop}
    (hok : (∀ g ∈ b.guards, s.get? g.key = g.expected) → Q () (b.ops.foldl Store.apply s))
    (hfailed : ∀ e, E e s) : (Storage.write b).Follows (protocol fs) Q E s := by
  refine Program.Follows.question ?_
  rintro r ⟨-, s', hr⟩
  refine ⟨_, rfl, ?_⟩
  cases hr with
  | write h => exact hok (Store.write_eq_ok_iff.mp h).1
  | writeConflicts => exact hfailed _
  | writeFails => exact hfailed _

theorem follows_content {path : String} {Q : Except SourceError Bytes → Store → Prop}
    (h : Q (fs.get path) s) :
    Failing.Follows (protocol fs) Q E' (liftM (Program.content path) : Failing IndexError _) s := by
  refine follows_program (Program.Follows.question ?_)
  rintro r ⟨hr, -⟩
  obtain rfl : r = fs.get path := hr
  exact ⟨_, rfl, h⟩

theorem follows_paths {directory : String} {Q : Except SourceError (List String) → Store → Prop}
    (h : Q (.ok (fs.list directory)) s) :
    Failing.Follows (protocol fs) Q E' (liftM (Program.paths directory) : Failing IndexError _)
      s := by
  refine follows_program (follows_question (fun _ => ⟨rfl, nofun⟩) ?_)
  rintro r ⟨hr, -⟩
  obtain rfl : r = .ok (fs.list directory) := hr
  exact h

/-- A number that is read is the one that is stored. -/
theorem follows_number {key : Key} {Q : Option (Generation × Bytes) → Store → Prop}
    (hok : ∀ p, Generation.Reads p → s.get? key.encode = p.map (·.2) → Q p s)
    (hfailed : ∀ e, E e s) : (Generation.stored? key).Follows (protocol fs) Q E s := by
  refine follows_stored? (fun p hp hr => ⟨s, rfl, hok p hp ?_⟩) fun _ _ _ => hfailed
  obtain ⟨-, s', hr⟩ := hr
  exact hr.reply_eq_get?.symm

end Questions

end Alone

namespace Failing

/-- If the program succeeds alone with the documents, from the store on, then `Q` holds of its result
and of the store that it leaves. -/
abbrev Gives (fs : Files) (t : Failing ε α) (s : Store) (Q : α → Store → Prop) : Prop :=
  t.Follows (Alone.protocol fs) Q (fun _ _ => True) s

namespace Gives

variable {ε' : Type} {Q : α → Store → Prop}

theorem of_succeeds {t : Failing ε α} {a : α} (hgives : t.Gives fs s Q)
    (hrun : t.Succeeds fs s a s') : Q a s' :=
  Alone.of_runs (Q := Ends Q fun _ _ => True) hgives hrun

theorem any {t : Failing ε α} : t.Gives fs s fun _ _ => True := by
  refine Program.Follows.mono (Alone.follows_any t.run) fun r _ _ => ?_
  cases r <;> trivial

/-- What holds after a program that succeeds holds if it is seen to have succeeded. -/
theorem outcome {t : Failing ε' α} (h : t.Gives fs s Q) :
    (Failing.outcome t : Failing ε (Except ε' α)).Gives fs s fun r s' => ∀ a, r = .ok a → Q a s' := by
  refine Failing.Follows.outcome (h.mono ?_ fun _ _ _ => nofun)
  rintro a s' ha _ ⟨⟩
  exact ha

theorem checkCancelled {Q : Unit → Store → Prop} (h : Q () s) :
    ContentIndex.checkCancelled.Gives fs s Q := by
  refine Failing.Follows.mono (E := fun _ _ => True) (follows_checkCancelled trivial) ?_
    fun _ _ _ => trivial
  rintro _ _ rfl
  exact h

end Gives

end Failing

/-- If the program succeeds alone with the documents, from the store on and with a lock that it
keeps, then `Q` holds of its result and of the store that it leaves. -/
abbrev Building.Gives (fs : Files) (t : Building α) (l : Lock) (s : Store)
    (Q : α → Store → Prop) : Prop :=
  t.Follows (Alone.protocol fs) (fun a _ => Q a) (fun _ _ _ => True) l s

namespace Building.Gives

variable {l : Lock} {Q : α → Store → Prop}

theorem bind {m : β → Store → Prop} {t : Building β} {f : β → Building α}
    (h : Building.Gives fs t l s m) (hf : ∀ b l s', m b s' → Building.Gives fs (f b) l s' Q) :
    Building.Gives fs (t >>= f) l s Q :=
  Building.Follows.bind h hf

theorem mono {Q' : α → Store → Prop} {t : Building α} (h : Building.Gives fs t l s Q)
    (hQ : ∀ a s', Q a s' → Q' a s') : Building.Gives fs t l s Q' := by
  refine Program.Follows.mono h fun r s' hr => ?_
  obtain ⟨r, l'⟩ := r
  cases r with
  | ok a => exact hQ a s' hr
  | error e => trivial

/-- A program that does not touch the lock. -/
theorem lift {t : Failing IndexError α} (h : t.Gives fs s Q) :
    Building.Gives fs (liftM t) l s Q :=
  Building.Follows.lift h

end Building.Gives

end ContentIndex
