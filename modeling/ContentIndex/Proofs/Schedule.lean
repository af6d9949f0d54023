import ContentIndex.Index.Host
import ContentIndex.Proofs.Interleaving

/-!
# Schedules

A schedule says which process goes on next. Programs that run on a host by a schedule run in turns,
so runs that are possible can be computed.

## Main definitions

* `Turn`: what happens next
* `Program.failure?`, `Program.success?`: what has come of a program that is at its end
* `Program.reads?`: the document that a program asks for next
* `Host.play`: programs that run on a host by a schedule

## Main results

* `Host.interleaving_play`: **what a host plays is a run of the programs in turns**
-/

namespace ContentIndex

variable {ι α : Type}

/-- What happens next. -/
inductive Turn (ι : Type)
  /-- A process asks its next question; one that has come to its end does nothing. -/
  | asks (i : ι)
  /-- The documents change. -/
  | source (s : Source)

/-- A host and the programs that it runs, with the exchanges that they have had. -/
structure Play (ι α : Type) where
  /-- The exchanges. -/
  trace : Trace ι
  /-- The host. -/
  host : Host
  /-- What is left of the programs. -/
  left : ι → Program α

/-- The failure of a program that is at its end. -/
def Program.failure? {ε : Type} : Program (Except ε α) → Option ε
  | .done (.error e) => some e
  | _ => none

theorem Program.failure?_eq_some_iff {ε : Type} {t : Program (Except ε α)} {e : ε} :
    t.failure? = some e ↔ t = .done (.error e) := by
  constructor
  · intro h
    cases t with
    | done r =>
      cases r with
      | ok a => cases h
      | error e' =>
        obtain rfl := Option.some.inj h
        rfl
    | ask q next => cases h
    | cut => cases h
  · rintro rfl
    rfl

/-- The result of a program that has succeeded. -/
def Program.success? {ε : Type} : Program (Except ε α) → Option α
  | .done (.ok a) => some a
  | _ => none

theorem Program.success?_eq_some_iff {ε : Type} {t : Program (Except ε α)} {a : α} :
    t.success? = some a ↔ t = .done (.ok a) := by
  constructor
  · intro h
    cases t with
    | done r =>
      cases r with
      | ok a' =>
        obtain rfl := Option.some.inj h
        rfl
      | error e => cases h
    | ask q next => cases h
    | cut => cases h
  · rintro rfl
    rfl

/-- The path of the document that a program asks for next. -/
def Program.reads? : Program α → Option String
  | .ask (.content path) _ => some path
  | _ => none

theorem Program.reads?_eq_some_iff {t : Program α} {path : String} :
    t.reads? = some path ↔ ∃ next, t = .ask (.content path) next := by
  constructor
  · intro h
    cases t with
    | ask q next =>
      cases q with
      | content p =>
        obtain rfl := Option.some.inj h
        exact ⟨next, rfl⟩
      | _ => cases h
    | done a => cases h
    | cut => cases h
  · rintro ⟨next, rfl⟩
    rfl

/-- The store, and what is left of the programs. -/
def Play.world (p : Play ι α) : World ι α := ⟨p.host.store, p.left⟩

/-- A host answers as storage does. -/
theorem Host.answers (h : Host) (q : Question) :
    h.store.Answers ⟨q, (answer q h).1⟩ (answer q h).2.store := by
  cases q with
  | get key => exact .get key
  | scan range d limit => exact .scan range d limit
  | write b =>
    simp only [answer]
    cases hb : h.store.write b with
    | ok s => exact .write hb
    | error e => exact .writeConflicts hb
  | content path => exact .content path _
  | paths directory => exact .paths directory _
  | now => exact .now _
  | freshName => exact .freshName _
  | cancelled => exact .cancelled _

variable [DecidableEq ι]

namespace Play

/-- The play after one turn. -/
def turn (p : Play ι α) : Turn ι → Play ι α
  | .source s => { p with host := { p.host with source := s } }
  | .asks i => match p.left i with
    | .ask q next =>
      { trace := p.trace ++ [(i, ⟨q, (Host.answer q p.host).1⟩)]
        host := (Host.answer q p.host).2
        left := Function.update p.left i (next (Host.answer q p.host).1) }
    | _ => p

/-- The turn of a process that asks for a document is a step of a run, which tells of it. -/
theorem interleaving_reads {programs : ι → Program α} {store : Store} {trace : Trace ι}
    {p : Play ι α} (run : Interleaving programs store trace p.world) {i : ι} {path : String}
    (hi : (p.left i).reads? = some path) :
    Interleaving programs store (trace ++ [(i, ⟨.content path, p.host.source.get path⟩)])
      (p.turn (.asks i)).world := by
  obtain ⟨next, hnext⟩ := Program.reads?_eq_some_iff.mp hi
  simp only [turn, hnext]
  exact .step run hnext (.content path _)

/-- A turn is a step of a run. -/
theorem interleaving_turn {programs : ι → Program α} {store : Store} {p : Play ι α}
    (run : Interleaving programs store p.trace p.world) (t : Turn ι) :
    Interleaving programs store (p.turn t).trace (p.turn t).world := by
  cases t with
  | source s => exact run
  | asks i =>
    cases hi : p.left i with
    | ask q next =>
      simp only [turn, hi]
      exact .step run hi (p.host.answers q)
    | done a =>
      simp only [turn, hi]
      exact run
    | cut =>
      simp only [turn, hi]
      exact run

/-- The play after a process has been told paths. -/
def list (p : Play ι α) (i : ι) (paths : List String) : Play ι α :=
  match p.left i with
  | .ask (.paths directory) next =>
    { trace := p.trace ++ [(i, ⟨.paths directory, .ok paths⟩)]
      host := p.host
      left := Function.update p.left i (next (.ok paths)) }
  | _ => p

/-- A listing is a step of a run, whatever it names. -/
theorem interleaving_list {programs : ι → Program α} {store : Store} {p : Play ι α}
    (run : Interleaving programs store p.trace p.world) (i : ι) (paths : List String) :
    Interleaving programs store (p.list i paths).trace (p.list i paths).world := by
  cases hi : p.left i with
  | ask q next =>
    cases q with
    | paths directory =>
      simp only [list, hi]
      exact .step run hi (.paths directory _)
    | _ =>
      simp only [list, hi]
      exact run
  | done a =>
    simp only [list, hi]
    exact run
  | cut =>
    simp only [list, hi]
    exact run

/-- The play after the programs were told to stop. -/
def stop (p : Play ι α) : Play ι α := { p with host := { p.host with cancelled := true } }

/-- Who is told to stop has not asked for anything by that. -/
theorem interleaving_stop {programs : ι → Program α} {store : Store} {p : Play ι α}
    (run : Interleaving programs store p.trace p.world) :
    Interleaving programs store p.stop.trace p.stop.world := run

/-- The play after more turns. -/
def go (p : Play ι α) (turns : List (Turn ι)) : Play ι α := turns.foldl turn p

theorem interleaving_go {programs : ι → Program α} {store : Store} {p : Play ι α}
    (run : Interleaving programs store p.trace p.world) (turns : List (Turn ι)) :
    Interleaving programs store (p.go turns).trace (p.go turns).world := by
  induction turns generalizing p with
  | nil => exact run
  | cons t turns ih => exact ih (interleaving_turn run t)

/-- What has happened before does not matter for a turn. -/
theorem turn_eq (p : Play ι α) (t : Turn ι) : p.turn t =
    { turn ⟨[], p.host, p.left⟩ t with trace := p.trace ++ (turn ⟨[], p.host, p.left⟩ t).trace } := by
  cases t with
  | source s => simp [turn]
  | asks i => cases hi : p.left i <;> simp [turn, hi]

/-- What has happened before does not matter for what happens next. -/
theorem go_eq (p : Play ι α) (turns : List (Turn ι)) : p.go turns =
    { go ⟨[], p.host, p.left⟩ turns with
      trace := p.trace ++ (go ⟨[], p.host, p.left⟩ turns).trace } := by
  induction turns generalizing p with
  | nil => simp [go]
  | cons t turns ih =>
    show (p.turn t).go turns = { ((⟨[], p.host, p.left⟩ : Play ι α).turn t).go turns with
      trace := p.trace ++ (((⟨[], p.host, p.left⟩ : Play ι α).turn t).go turns).trace }
    rw [ih (p.turn t), ih (turn ⟨[], p.host, p.left⟩ t), turn_eq]
    simp [List.append_assoc]

/-- What happens next goes on the run. -/
theorem interleaving_resume {programs : ι → Program α} {store : Store} {trace : Trace ι}
    {p : Play ι α} (run : Interleaving programs store trace p.world) (turns : List (Turn ι)) :
    Interleaving programs store (trace ++ (go ⟨[], p.host, p.left⟩ turns).trace)
      (go ⟨[], p.host, p.left⟩ turns).world := by
  have hgo := interleaving_go (p := ⟨trace, p.host, p.left⟩) run turns
  rw [go_eq] at hgo
  exact hgo

theorem interleaving_append {programs : ι → Program α} {store : Store} {p : Play ι α}
    (run : Interleaving programs store p.trace p.world) (turns : List (Turn ι)) :
    Interleaving programs store (p.trace ++ (go ⟨[], p.host, p.left⟩ turns).trace)
      (go ⟨[], p.host, p.left⟩ turns).world :=
  interleaving_resume run turns

end Play

/-- The play of programs on a host by a schedule. -/
def Host.play (h : Host) (programs : ι → Program α) (turns : List (Turn ι)) : Play ι α :=
  Play.go ⟨[], h, programs⟩ turns

/-- **What a host plays is a run of the programs in turns.** -/
theorem Host.interleaving_play (h : Host) (programs : ι → Program α) (turns : List (Turn ι)) :
    Interleaving programs h.store (h.play programs turns).trace (h.play programs turns).world :=
  Play.interleaving_go .start turns

end ContentIndex
