import ContentIndex.Proofs.Alone

/-!
# Programs that are served

Storage serves a program, or it refuses: every question may fail, and a batch may be refused for any
reason, also for a conflict that nobody can see. What a program is told apart from that is up to a
condition on its exchanges, and a source tells of its documents in one way only. A program that is
alone with documents is a special case. What is said here of a program is said of its success and of
its failure alike.

## Main definitions

* `Store.Serves`: what storage may reply if it may refuse
* `Source.View`, `Source.View.Tells`: a source as it is seen
* `Program.Completes`: runs that come to their end, with a result or with a failure
* `Served.protocol`: the protocol of a program that is served
* `Failing.Brings`: what holds after a run that succeeds

## Main results

* `Served.of_completes`: **what follows from the protocol holds after every run**
* `Host.completes`: what a host runs is served
* `Failing.Brings.gives`: what holds of all programs that are served holds of those that are alone
-/

namespace ContentIndex

variable {α β ε : Type} {told : Exchange → Prop} {s s' : Store}

/-- What storage may reply to a question, and the store afterwards. It may refuse a batch for any
reason, and then nothing changes. -/
inductive Store.Serves (s : Store) : Exchange → Store → Prop
  /-- It replies as it must. -/
  | answers {e : Exchange} {s' : Store} (h : s.Answers e s') : Serves s e s'
  /-- It refuses. -/
  | refuses (b : Batch) (e : StorageError) : Serves s ⟨.write b, .error e⟩ s

/-! ### Sources as they are seen -/

namespace Source

/-- A source as it is seen: what it has at each path, and what it lists for each directory. -/
structure View where
  /-- The content at a path. -/
  get : String → Except SourceError Bytes
  /-- The paths below a directory. -/
  list : String → Except SourceError (List String)

/-- What a source that is seen so tells. -/
def View.Tells (v : View) : Exchange → Prop
  | ⟨.content path, r⟩ => r = v.get path
  | ⟨.paths d, r⟩ => r = v.list d
  | _ => True

/-- The source as it is seen. -/
def view (source : Source) : View := ⟨(source.get ·), (source.list ·)⟩

theorem view_get_files {fs : Files} {path : String} {content : Bytes} :
    (files fs).view.get path = .ok content ↔ fs.get? path = some content := by
  show fs.get path = .ok content ↔ _
  rw [Files.get]
  cases fs.get? path with
  | none => simp
  | some b => simp

/-- Documents tell what a source of them tells. -/
theorem Files.Answers.tells {fs : Files} {e : Exchange} (h : fs.Answers e) :
    (files fs).view.Tells e := by
  obtain ⟨q, r⟩ := e
  cases q with
  | content path => exact h
  | paths d => exact h
  | _ => trivial

end Source

/-! ### Runs -/

/-- The program comes to its end: from the first store it gets to the result and to the second
store. It is told what the condition allows. -/
inductive Program.Completes (told : Exchange → Prop) : Program α → Store → α → Store → Prop
  /-- It is at its end. -/
  | done (a : α) (s : Store) : Completes told (.done a) s a s
  /-- It puts a question, and goes on with the reply. -/
  | ask {q : Question} {next : q.Reply → Program α} {r : q.Reply} {s s' s'' : Store} {a : α}
    (hs : s.Serves ⟨q, r⟩ s') (htold : told ⟨q, r⟩) (h : Completes told (next r) s' a s'') :
    Completes told (.ask q next) s a s''

/-- A program that is alone is served. -/
theorem Program.Runs.completes {fs : Source.Files} {t : Program α} {a : α} (h : t.Runs fs s a s') :
    t.Completes (Source.files fs).view.Tells s a s' := by
  induction h with
  | done a s => exact .done a s
  | ask hs hfs _ ih => exact .ask (.answers hs) hfs.tells ih

theorem Program.Completes.mono {told' : Exchange → Prop} {t : Program α} {a : α}
    (h : t.Completes told s a s') (htold : ∀ e, told e → told' e) : t.Completes told' s a s' := by
  induction h with
  | done a s => exact .done a s
  | ask hs htells _ ih => exact .ask hs (htold _ htells) ih

/-- One program after another. -/
theorem Program.Completes.bind {t : Program α} {f : α → Program β} {s'' : Store} {a : α} {b : β}
    (h : t.Completes told s a s') (hf : (f a).Completes told s' b s'') :
    (t.bind f).Completes told s b s'' := by
  induction h with
  | done a s => exact hf
  | ask hs htold _ ih => exact .ask hs htold (ih hf)

/-- What comes after a success. -/
theorem Failing.completes_bind {t : Failing ε α} {f : α → Failing ε β} {s'' : Store} {a : α}
    {r : Except ε β} (h : t.run.Completes told s (.ok a) s')
    (hf : (f a).run.Completes told s' r s'') : (t >>= f).run.Completes told s r s'' :=
  Program.Completes.bind h hf

/-- Nothing comes after a failure. -/
theorem Failing.completes_bind_error {t : Failing ε α} {f : α → Failing ε β} {e : ε}
    (h : t.run.Completes told s (.error e) s') : (t >>= f).run.Completes told s (.error e) s' :=
  Program.Completes.bind h (.done _ _)

/-- What storage has done is done by the run. -/
theorem Failing.completes_storage {t : Storage α} {a : α} (h : t.run.Completes told s (.ok a) s') :
    (liftM t : Failing IndexError α).run.Completes told s (.ok a) s' :=
  Program.Completes.bind h (.done _ _)

theorem Storage.completes_get {key : Bytes} (htold : ∀ r, told ⟨.get key, r⟩) :
    (Storage.get key).run.Completes told s (.ok (s.get? key)) s :=
  .ask (.answers (.get key)) (htold _) (.done _ _)

/-- A host tells what its source tells, and keeps its source. -/
theorem Host.view_tells (h : Host) (q : Question) :
    h.source.view.Tells ⟨q, (Host.answer q h).1⟩ ∧ (Host.answer q h).2.source = h.source := by
  cases q with
  | content path => exact ⟨rfl, rfl⟩
  | paths d => exact ⟨rfl, rfl⟩
  | write b =>
    refine ⟨trivial, ?_⟩
    simp only [answer]
    cases h.store.write b with
    | ok s => rfl
    | error e => rfl
  | _ => exact ⟨trivial, rfl⟩

/-- What a host runs to its end is served. -/
theorem Host.completes {t : Program α} {h : Host} {a : α} (ha : (Host.run t h).1 = some a) :
    t.Completes h.source.view.Tells h.store a (Host.run t h).2.store := by
  induction t generalizing h with
  | done b =>
    obtain rfl := Option.some.inj ha
    exact .done b h.store
  | ask q next ih =>
    obtain ⟨htells, hkept⟩ := h.view_tells q
    exact .ask (.answers (h.answers q)) htells ((ih _ ha).mono fun e he => hkept ▸ he)
  | cut => cases ha

/-! ### The protocol -/

namespace Served

theorem eq_after {e : Exchange} (h : s.Serves e s') : s' = Alone.after s e := by
  cases h with
  | answers h => exact Alone.eq_after h
  | refuses b e => rfl

/-- The protocol of a program that is served and is told what the condition allows. -/
def protocol (told : Exchange → Prop) : Protocol Store where
  may s e := told e ∧ ∃ s', s.Serves e s'
  step s e s' := s' = Alone.after s e
  may_scan := by
    rintro s range d limit es ⟨-, s', h⟩ e he
    cases h with
    | answers h => exact h.mem_range he
  cuts := True

instance (told : Exchange → Prop) : (protocol told).Lenient :=
  ⟨fun h => (Alone.after_eq_of_applied? h.1).symm⟩

/-- **What follows from the protocol holds after every run.** -/
theorem of_completes {t : Program α} {Q : α → Store → Prop} {a : α}
    (hfollows : t.Follows (protocol told) Q s) (hrun : t.Completes told s a s') : Q a s' := by
  induction hrun with
  | done a s => exact hfollows
  | ask hs htold _ ih =>
    obtain ⟨s', hs', hnext⟩ := hfollows _ ⟨htold, _, hs⟩
    refine ih ?_
    rw [eq_after hs]
    exact hs' ▸ hnext

/-- Nothing is said of a program at all. -/
theorem follows_any (t : Program α) : t.Follows (protocol told) (fun _ _ => True) s :=
  t.follows_any (fun _ _ _ => ⟨_, rfl⟩) trivial s

/-- What holds after all runs holds together. -/
theorem Follows.and {t : Program α} {Q Q' : α → Store → Prop} (h : t.Follows (protocol told) Q s)
    (h' : t.Follows (protocol told) Q' s) :
    t.Follows (protocol told) (fun a s => Q a s ∧ Q' a s) s := by
  induction t generalizing s with
  | done a => exact ⟨h, h'⟩
  | ask q next ih =>
    intro r hr
    obtain ⟨s', rfl, hnext⟩ := h r hr
    obtain ⟨_, rfl, hnext'⟩ := h' r hr
    exact ⟨_, rfl, ih r hnext hnext'⟩
  | cut => exact h

/-- A program that is alone is served, so it follows the protocol of such programs. -/
theorem follows_alone {fs : Source.Files} {t : Program α} {Q : α → Store → Prop}
    (h : t.Follows (protocol (Source.files fs).view.Tells) Q s) :
    t.Follows (Alone.protocol fs) Q s := by
  induction t generalizing s with
  | done a => exact h
  | ask q next ih =>
    rintro r ⟨hfs, s', hs'⟩
    obtain ⟨s'', hstep, hnext⟩ := h r ⟨hfs.tells, s', .answers hs'⟩
    exact ⟨s'', hstep, ih r hnext⟩
  | cut => exact h

/-! ### Questions -/

section Questions

variable {E : StorageError → Store → Prop} {E' : IndexError → Store → Prop}

theorem follows_get {key : Bytes} {Q : Option Bytes → Store → Prop} (h : Q (s.get? key) s)
    (hfailed : ∀ m, E (.backend m) s) : (Storage.get key).Follows (protocol told) Q E s := by
  refine follows_question (fun _ => ⟨rfl, nofun⟩) ?_
  rintro r ⟨-, s', hr⟩
  cases hr with
  | answers hr =>
    cases hr with
    | get => exact h
    | getFails => exact hfailed _

theorem follows_scan {range : KeyRange} {d : Direction} {limit : Nat}
    {Q : List Entry → Store → Prop} (h : Q (s.scan range d limit) s)
    (hfailed : ∀ m, E (.backend m) s) :
    (Storage.scan range d limit).Follows (protocol told) Q E s := by
  refine follows_question (fun _ => ⟨rfl, nofun⟩) ?_
  rintro r ⟨-, s', hr⟩
  cases hr with
  | answers hr =>
    cases hr with
    | scan => exact h
    | scanFails => exact hfailed _

/-- The guards of a batch that is applied have held, and one that is refused changes nothing. -/
theorem follows_write {b : Batch} {Q : Unit → Store → Prop}
    (hok : (∀ g ∈ b.guards, s.get? g.key = g.expected) → Q () (b.ops.foldl Store.apply s))
    (hfailed : ∀ e, told ⟨.write b, .error e⟩ → E e s) :
    (Storage.write b).Follows (protocol told) Q E s := by
  refine Program.Follows.question ?_
  rintro r ⟨htold, s', hr⟩
  refine ⟨_, rfl, ?_⟩
  cases hr with
  | answers hr =>
    cases hr with
    | write h => exact hok (Store.write_eq_ok_iff.mp h).1
    | writeConflicts => exact hfailed _ htold
    | writeFails => exact hfailed _ htold
  | refuses => exact hfailed _ htold

theorem follows_content {path : String} {Q : Except SourceError Bytes → Store → Prop}
    (h : ∀ r, told ⟨.content path, r⟩ → Q r s) :
    Failing.Follows (protocol told) Q E' (liftM (Program.content path) : Failing IndexError _) s :=
  follows_program (Program.Follows.question fun r hr => ⟨_, by cases r <;> rfl, h r hr.1⟩)

theorem follows_paths {directory : String} {Q : Except SourceError (List String) → Store → Prop}
    (h : ∀ r, told ⟨.paths directory, r⟩ → Q r s) :
    Failing.Follows (protocol told) Q E' (liftM (Program.paths directory) : Failing IndexError _)
      s :=
  follows_program (follows_question (fun _ => ⟨rfl, nofun⟩) fun r hr => h r hr.1)

/-- A number that is read is the one that is stored. -/
theorem follows_number {key : Key} {Q : Option (Generation × Bytes) → Store → Prop}
    (hok : ∀ p, Generation.Reads p → s.get? key.encode = p.map (·.2) → Q p s)
    (hfailed : ∀ e, E e s) : (Generation.stored? key).Follows (protocol told) Q E s := by
  refine follows_stored? (fun p hp hr => ⟨s, rfl, hok p hp ?_⟩) fun _ _ _ => hfailed
  obtain ⟨-, s', hr⟩ := hr
  cases hr with
  | answers hr => exact hr.reply_eq_get?.symm

end Questions

end Served

namespace Failing

/-- If the program succeeds, from the store on, then `Q` holds of its result and of the store that it
leaves. -/
abbrev Brings (told : Exchange → Prop) (t : Failing ε α) (s : Store) (Q : α → Store → Prop) : Prop :=
  t.Follows (Served.protocol told) Q (fun _ _ => True) s

namespace Brings

variable {ε' : Type} {Q : α → Store → Prop}

theorem of_completes {t : Failing ε α} {a : α} (h : t.Brings told s Q)
    (hrun : t.run.Completes told s (.ok a) s') : Q a s' :=
  Served.of_completes (Q := Ends Q fun _ _ => True) h hrun

/-- What holds after all runs holds after those that are alone. -/
theorem gives {fs : Source.Files} {t : Failing ε α}
    (h : t.Brings (Source.files fs).view.Tells s Q) : t.Gives fs s Q :=
  Served.follows_alone h

theorem any {t : Failing ε α} : t.Brings told s fun _ _ => True := by
  refine Program.Follows.mono (Served.follows_any t.run) fun r _ _ => ?_
  cases r <;> trivial

/-- What holds after a program that succeeds holds if it is seen to have succeeded. -/
theorem outcome {t : Failing ε' α} (h : t.Brings told s Q) :
    (Failing.outcome t : Failing ε (Except ε' α)).Brings told s fun r s' =>
      ∀ a, r = .ok a → Q a s' := by
  refine Failing.Follows.outcome (h.mono ?_ fun _ _ _ => nofun)
  rintro a s' ha _ ⟨⟩
  exact ha

theorem checkCancelled {Q : Unit → Store → Prop} (h : Q () s) :
    ContentIndex.checkCancelled.Brings told s Q := by
  refine Failing.Follows.mono (E := fun _ _ => True) (follows_checkCancelled trivial) ?_
    fun _ _ _ => trivial
  rintro _ _ rfl
  exact h

end Brings

end Failing

/-- If the program succeeds, from the store on and with a lock that it keeps, then `Q` holds of its
result and of the store that it leaves. -/
abbrev Building.Brings (told : Exchange → Prop) (t : Building α) (l : Lock) (s : Store)
    (Q : α → Store → Prop) : Prop :=
  t.Follows (Served.protocol told) (fun a _ => Q a) (fun _ _ _ => True) l s

namespace Building.Brings

variable {l : Lock} {Q : α → Store → Prop}

theorem bind {m : β → Store → Prop} {t : Building β} {f : β → Building α}
    (h : Building.Brings told t l s m)
    (hf : ∀ b l s', m b s' → Building.Brings told (f b) l s' Q) :
    Building.Brings told (t >>= f) l s Q :=
  Building.Follows.bind h hf

theorem mono {Q' : α → Store → Prop} {t : Building α} (h : Building.Brings told t l s Q)
    (hQ : ∀ a s', Q a s' → Q' a s') : Building.Brings told t l s Q' := by
  refine Program.Follows.mono h fun r s' hr => ?_
  obtain ⟨r, l'⟩ := r
  cases r with
  | ok a => exact hQ a s' hr
  | error e => trivial

/-- A program that does not touch the lock. -/
theorem lift {t : Failing IndexError α} (h : t.Brings told s Q) :
    Building.Brings told (liftM t) l s Q :=
  Building.Follows.lift h

end Building.Brings

end ContentIndex
