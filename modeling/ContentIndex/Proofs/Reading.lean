import ContentIndex.Index.Host
import ContentIndex.Proofs.Protocol
import ContentIndex.Proofs.Ranges
import ContentIndex.Query.Snapshot

/-!
# Programs that read

A query puts questions about the index only. On a store that stays as it is, it has one result, and
which one depends on nothing but the replies to the questions that it may put. So a query is
understood in two halves: what it may ask, and what it returns on a store.

## Main definitions

* `Program.on`: what a program that reads returns on a store
* `Access`, `Program.Within`, `Failing.Within`: what a program may ask, and what holds of its result

## Main results

* `Program.Within.run_eq`: a host runs a program that reads on its store, and stays as it is
* `Program.Within.on_congr`: **a program cannot tell stores apart that agree on all it may ask**
* `Program.Within.follows`: a program that reads follows every protocol
-/

namespace ContentIndex

variable {α β ε ε' : Type}

/-- What a store that stays as it is replies to a question about the index. -/
def Question.reply? (s : Store) : (q : Question) → Option q.Reply
  | .get key => some (.ok (s.get? key))
  | .scan range d limit => some (.ok (s.scan range d limit))
  | _ => none

/-- What a scan finds lies in its range. -/
def Question.Sound : (q : Question) → q.Reply → Prop
  | .scan range _ _, .ok es => ∀ e ∈ es, range.contains e.1
  | _, _ => True

theorem Question.sound_of_reply? {s : Store} {q : Question} {r : q.Reply}
    (h : q.reply? s = some r) : q.Sound r := by
  cases q with
  | scan range d limit =>
    cases h
    exact fun e he => (Store.mem_scan he).2
  | _ => trivial

/-- What a program may do that reads: the keys that it may look at, and whether its loops may be
cut off. -/
structure Access where
  /-- The keys. -/
  keys : Bytes → Prop
  /-- Loops may be cut off. -/
  cuts : Prop

namespace Access

variable {A : Access} {q : Question} {s s' : Store}

/-- The question is about keys that may be looked at. -/
def Asks (A : Access) : Question → Prop
  | .get key => A.keys key
  | .scan range _ _ => ∀ k, range.contains k → A.keys k
  | _ => False

theorem Asks.exists_reply? (h : A.Asks q) (s : Store) : ∃ r, q.reply? s = some r := by
  cases q with
  | get key => exact ⟨_, rfl⟩
  | scan range d limit => exact ⟨_, rfl⟩
  | _ => exact h.elim

theorem Asks.mono {B : Access} (h : A.Asks q) (hkeys : ∀ k, A.keys k → B.keys k) : B.Asks q := by
  cases q with
  | get key => exact hkeys key h
  | scan range d limit => exact fun k hk => hkeys k (h k hk)
  | _ => exact h.elim

/-- Stores that agree on the keys reply alike. -/
theorem Asks.reply?_congr (h : A.Asks q) (hsame : ∀ k, A.keys k → s.get? k = s'.get? k) :
    q.reply? s = q.reply? s' := by
  cases q with
  | get key =>
    rw [Question.reply?, Question.reply?, hsame key h]
  | scan range d limit =>
    have hwithin : s.within range d = s'.within range d :=
      Store.within_congr fun k hk => hsame k (h k hk)
    rw [Question.reply?, Question.reply?, Store.scan_eq_take, Store.scan_eq_take, hwithin]
  | _ => exact h.elim

/-- A host replies like its store, and stays as it is. -/
theorem Asks.answer_eq (h : A.Asks q) (host : Host) :
    ∃ r, q.reply? host.store = some r ∧ Host.answer q host = (r, host) := by
  cases q with
  | get key => exact ⟨_, rfl, rfl⟩
  | scan range d limit => exact ⟨_, rfl, rfl⟩
  | _ => exact h.elim

end Access

/-! ### Results -/

namespace Program

/-- What a program returns that puts its questions to a store; none if the store has no reply or a
loop was cut off. -/
def on (s : Store) : Program α → Option α
  | done a => some a
  | ask q next => (q.reply? s).bind fun r => (next r).on s
  | cut => none

theorem on_ask (s : Store) {q : Question} {r : q.Reply} (h : q.reply? s = some r)
    (next : q.Reply → Program α) : (ask q next).on s = (next r).on s := by
  rw [on, h, Option.bind_some]

theorem on_bind (s : Store) (t : Program α) (f : α → Program β) :
    (t.bind f).on s = (t.on s).bind fun a => (f a).on s := by
  induction t with
  | done a => rfl
  | ask q next ih =>
    rw [ask_bind, on, on, Option.bind_assoc]
    exact congrArg _ (funext ih)
  | cut => rfl

/-- All that the program asks it may ask, and `Q` holds of its result. -/
def Within (A : Access) (Q : α → Prop) : Program α → Prop
  | done a => Q a
  | ask q next => A.Asks q ∧ ∀ r, q.Sound r → (next r).Within A Q
  | cut => A.cuts

namespace Within

variable {A B : Access} {Q : α → Prop} {R : β → Prop} {t : Program α} {f : α → Program β}
  {s s' : Store}

theorem mono {Q' : α → Prop} (h : t.Within A Q) (hQ : ∀ a, Q a → Q' a) : t.Within A Q' := by
  induction t with
  | done a => exact hQ a h
  | ask q next ih => exact ⟨h.1, fun r hr => ih r (h.2 r hr)⟩
  | cut => exact h

/-- A program that may do more. -/
theorem widen (h : t.Within A Q) (hkeys : ∀ k, A.keys k → B.keys k) (hcuts : A.cuts → B.cuts) :
    t.Within B Q := by
  induction t with
  | done a => exact h
  | ask q next ih => exact ⟨h.1.mono hkeys, fun r hr => ih r (h.2 r hr)⟩
  | cut => exact hcuts h

/-- One program after another. -/
theorem bind (h : t.Within A Q) (hf : ∀ a, Q a → (f a).Within A R) :
    (t.bind f).Within A R := by
  induction t with
  | done a => exact hf a h
  | ask q next ih => exact ⟨h.1, fun r hr => ih r (h.2 r hr)⟩
  | cut => exact h

/-- A program that reads and is not cut off returns something. -/
theorem exists_on (h : t.Within A Q) (hcuts : ¬ A.cuts) (s : Store) :
    ∃ a, t.on s = some a ∧ Q a := by
  induction t with
  | done a => exact ⟨a, rfl, h⟩
  | ask q next ih =>
    obtain ⟨r, hr⟩ := h.1.exists_reply? s
    obtain ⟨a, ha, hQ⟩ := ih r (h.2 r (Question.sound_of_reply? hr))
    exact ⟨a, (on_ask s hr next).trans ha, hQ⟩
  | cut => exact absurd h hcuts

/-- **A program cannot tell stores apart that agree on the keys that it may look at.** -/
theorem on_congr (h : t.Within A Q) (hsame : ∀ k, A.keys k → s.get? k = s'.get? k) :
    t.on s = t.on s' := by
  induction t with
  | done a => rfl
  | ask q next ih =>
    rw [on, on, ← h.1.reply?_congr hsame]
    cases hr : q.reply? s with
    | none => rfl
    | some r => exact ih r (h.2 r (Question.sound_of_reply? hr))
  | cut => rfl

/-- A host runs a program that reads on its store, and stays as it is. -/
theorem run_eq (h : t.Within A Q) (host : Host) : Host.run t host = (t.on host.store, host) := by
  induction t with
  | done a => rfl
  | ask q next ih =>
    obtain ⟨r, hr, hanswer⟩ := h.1.answer_eq host
    rw [on_ask _ hr, ← ih r (h.2 r (Question.sound_of_reply? hr))]
    show Host.run (next (Host.answer q host).1) (Host.answer q host).2 = _
    rw [hanswer]
  | cut => rfl

/-- A program that reads follows every protocol that allows its loops to be cut off, and it stays at
the stage where it began. -/
theorem follows {σ : Type} {P : Protocol σ} [P.Lenient] {stage : σ} (h : t.Within A Q)
    (hcuts : P.cuts) :
    t.Follows P (fun a stage' => Q a ∧ stage' = stage) stage := by
  induction t with
  | done a => exact ⟨h, rfl⟩
  | ask q next ih =>
    intro r hr
    refine ⟨stage, P.quiet ?_, ih r (h.2 r ?_)⟩
    · have := h.1
      cases q with
      | get key => exact ⟨rfl, nofun⟩
      | scan range d limit => exact ⟨rfl, nofun⟩
      | _ => exact this.elim
    · cases q with
      | scan range d limit =>
        cases r with
        | ok es => exact P.may_scan hr
        | error e => trivial
      | _ => trivial
  | cut => exact hcuts

end Within

end Program

/-! ### Runs one after another -/

/-- What a host runs after another program. -/
theorem Host.run_bind {t : Program α} {a : α} {h h' : Host} (ht : Host.run t h = (some a, h'))
    (f : α → Program β) : Host.run (t.bind f) h = Host.run (f a) h' := by
  induction t generalizing h with
  | done b =>
    obtain ⟨rfl, rfl⟩ : b = a ∧ h = h' := by simpa [Host.run, Program.run] using Prod.mk.inj ht
    rfl
  | ask q next ih => exact ih _ ht
  | cut => cases ht

/-! ### Programs that may fail -/

namespace Failing

/-- What a program returns that may fail. -/
def on (s : Store) (t : Failing ε α) : Option (Except ε α) := Program.on s t.run

/-- All that the program asks it may ask, and `Q` holds of what it returns if it does not fail. -/
def Within (A : Access) (Q : α → Prop) (t : Failing ε α) : Prop :=
  Program.Within A (fun r => ∀ a, r = .ok a → Q a) t.run

variable {s : Store} {A : Access} {Q : α → Prop} {R : β → Prop}

@[simp] theorem on_pure (a : α) : (pure a : Failing ε α).on s = some (.ok a) := rfl

@[simp] theorem on_throw (e : ε) : (throw e : Failing ε α).on s = some (.error e) := rfl

theorem on_bind (t : Failing ε α) (f : α → Failing ε β) :
    (t >>= f).on s = (t.on s).bind fun
      | .ok a => (f a).on s
      | .error e => some (.error e) := by
  show Program.on s (Program.bind t.run _) = _
  rw [Program.on_bind]
  refine congrArg _ (funext fun r => ?_)
  cases r <;> rfl

theorem on_bind_ok {t : Failing ε α} {a : α} (h : t.on s = some (.ok a))
    (f : α → Failing ε β) : (t >>= f).on s = (f a).on s := by
  rw [on_bind, h, Option.bind_some]

theorem on_bind_error {t : Failing ε α} {e : ε} (h : t.on s = some (.error e))
    (f : α → Failing ε β) : (t >>= f).on s = some (.error e) := by
  rw [on_bind, h, Option.bind_some]

/-- A program whose failures are seen as others. -/
theorem on_adapt {f : ε' → ε} {t : Failing ε' α} :
    Failing.on s (ExceptT.adapt f t : Failing ε α) = (t.on s).map (Except.mapError f) := by
  show Program.on s (Program.bind t.run _) = _
  rw [Program.on_bind, on]
  cases Program.on s t.run <;> rfl

/-- Failures of storage are failures of the query. -/
theorem on_storage (t : Storage α) :
    Failing.on s (liftM t : Failing QueryError α) = (t.on s).map (Except.mapError .storage) :=
  on_adapt

theorem on_storage_ok {t : Storage α} {a : α} (h : t.on s = some (.ok a)) :
    Failing.on s (liftM t : Failing QueryError α) = some (.ok a) := by
  rw [on_storage, h]
  rfl

theorem on_storage_error {t : Storage α} {e : StorageError} (h : t.on s = some (.error e)) :
    Failing.on s (liftM t : Failing QueryError α) = some (.error (.storage e)) := by
  rw [on_storage, h]
  rfl

@[simp] theorem on_get (key : Bytes) : (Storage.get key).on s = some (.ok (s.get? key)) := rfl

@[simp] theorem on_scan (range : KeyRange) (d : Direction) (limit : Nat) :
    (Storage.scan range d limit).on s = some (.ok (s.scan range d limit)) := rfl

namespace Within

theorem mono {Q' : α → Prop} {t : Failing ε α} (h : t.Within A Q) (hQ : ∀ a, Q a → Q' a) :
    t.Within A Q' :=
  Program.Within.mono h fun _ hr a ha => hQ a (hr a ha)

theorem pure {a : α} (h : Q a) : (pure a : Failing ε α).Within A Q := by
  rintro _ ⟨⟩
  exact h

theorem throw {e : ε} : (throw e : Failing ε α).Within A Q := nofun

theorem bind {t : Failing ε α} {f : α → Failing ε β} (h : t.Within A Q)
    (hf : ∀ a, Q a → (f a).Within A R) : (t >>= f).Within A R := by
  refine Program.Within.bind h fun r hr => ?_
  cases r with
  | ok a => exact hf a (hr a rfl)
  | error e => exact nofun

theorem adapt {f : ε' → ε} {t : Failing ε' α} (h : t.Within A Q) :
    Failing.Within A Q (ExceptT.adapt f t : Failing ε α) := by
  refine Program.Within.bind h fun r hr => ?_
  cases r with
  | ok a =>
    rintro _ ⟨⟩
    exact hr a rfl
  | error e => exact nofun

theorem cut (h : A.cuts) : (Failing.cut : Failing ε α).Within A Q := h

/-- What was determined before. -/
theorem ofExcept {x : Except ε α} (h : ∀ a, x = .ok a → Q a) :
    Failing.Within A Q (liftM x : Failing ε α) := by
  cases x with
  | ok a => exact pure (h a rfl)
  | error e => exact throw

theorem get {key : Bytes} (h : A.keys key) :
    (Storage.get key).Within A fun _ => True :=
  ⟨h, fun _ _ _ _ => trivial⟩

theorem scan {range : KeyRange} {d : Direction} {limit : Nat}
    (h : ∀ k, range.contains k → A.keys k) :
    (Storage.scan range d limit).Within A fun es => ∀ e ∈ es, range.contains e.1 := by
  refine ⟨h, fun r hr es hes => ?_⟩
  subst hes
  exact hr

/-- What was stored as a record is one, or is refused. -/
theorem ofStored {key : Bytes} {stored : Option Bytes} :
    Failing.Within A (fun _ => True)
      (liftM (Record.ofStored? key stored) : Storage (Option Record)) :=
  ofExcept fun _ _ => trivial

end Within

end Failing

/-! ### Scans -/

namespace Scan

variable {A : Access} {x : Scan} {s : Store}

/-- All that the scan can reach may be looked at. -/
def Inside (A : Access) (x : Scan) : Prop := ∀ k, x.range.contains k → A.keys k

theorem within_fetch (h : x.Inside A) : x.fetch.Within A (Inside A) := by
  refine Failing.Within.bind (Failing.Within.scan h) fun es hes => Failing.Within.pure ?_
  show ∀ k, KeyRange.contains _ k → A.keys k
  cases hlast : es.getLast? with
  | none => exact h
  | some e =>
    -- what is fetched later comes after the last entry, in the same range
    intro k hk
    exact h k ((KeyRange.contains_past_iff (hes e (List.mem_of_getLast? hlast))).mp hk).1

/-- What the next entry is taken from: the scan, with one chunk more if its entries are used up. -/
def filled (x : Scan) : Storage Scan :=
  if x.fetched.isEmpty && !x.exhausted then x.fetch else pure x

theorem next_eq (x : Scan) : x.next = x.filled >>= fun y => match y.fetched with
    | [] => pure none
    | e :: r => pure (some (e, { y with fetched := r })) := by
  rw [next, filled]
  split <;> rfl

theorem within_next (h : x.Inside A) :
    x.next.Within A fun r => ∀ e y, r = some (e, y) → Inside A y := by
  rw [next_eq, filled]
  refine Failing.Within.bind (Q := Inside A) ?_ fun y hy => ?_
  · split
    · exact within_fetch h
    · exact Failing.Within.pure h
  · split
    · exact Failing.Within.pure nofun
    · refine Failing.Within.pure ?_
      rintro _ _ ⟨⟩
      exact hy

/-- The entries that a scan has before it, on a store that stays as it is. -/
def rest (x : Scan) (s : Store) : List Entry :=
  x.fetched ++ if x.exhausted then [] else s.within x.range x.direction

/-- A chunk more is fetched from the entries that were left. -/
theorem on_fetch (hfetched : x.fetched = []) (hexhausted : x.exhausted = false) :
    ∃ y, x.fetch.on s = some (.ok y) ∧ y.rest s = x.rest s ∧
      y.fetched = (x.rest s).take x.chunk := by
  have hrest : x.rest s = s.within x.range x.direction := by
    rw [rest, hfetched, hexhausted]
    rfl
  refine ⟨_, Failing.on_bind_ok (Failing.on_scan ..) _, ?_, ?_⟩
  · rw [hrest, rest, hfetched, List.nil_append, Store.scan_eq_take]
    generalize hl : s.within x.range x.direction = l
    simp only [decide_eq_true_eq, List.length_take]
    split
    · next hlt => simp [List.take_of_length_le (show l.length ≤ x.chunk by omega)]
    · next hge =>
      -- a full chunk has a last entry, past which the other entries are
      have hchunk := x.chunk_pos
      have hne : l.take x.chunk ≠ [] := by
        intro hnil
        have := congrArg List.length hnil
        rw [List.length_take, List.length_nil] at this
        omega
      have hsplit : l = (l.take x.chunk).dropLast ++ (l.take x.chunk).getLast hne ::
          l.drop x.chunk := by
        rw [← List.singleton_append, ← List.append_assoc, List.dropLast_concat_getLast,
          List.take_append_drop]
      rw [List.getLast?_eq_some_getLast hne, Option.map_some, Option.getD_some,
        Store.within_past (hl.trans hsplit), List.take_append_drop]
  · rw [hrest, Store.scan_eq_take]
    show x.fetched ++ _ = _
    rw [hfetched, List.nil_append]

/-- The next entry is the first of those that are left. -/
theorem on_next (x : Scan) (s : Store) :
    ∃ r, x.next.on s = some (.ok r) ∧ r.map (·.1) = (x.rest s).head? ∧
      ∀ e y, r = some (e, y) → y.rest s = (x.rest s).tail := by
  obtain ⟨y, hy, hrest, hfull⟩ : ∃ y, x.filled.on s = some (.ok y) ∧ y.rest s = x.rest s ∧
      (y.fetched = [] → x.rest s = []) := by
    rw [filled]
    split
    · next hif =>
      simp only [Bool.and_eq_true, List.isEmpty_iff, Bool.not_eq_true'] at hif
      obtain ⟨y, hy, hrest, hfetched⟩ := on_fetch (s := s) hif.1 hif.2
      refine ⟨y, hy, hrest, fun hnil => ?_⟩
      have hchunk := x.chunk_pos
      rcases List.take_eq_nil_iff.mp (hfetched.symm.trans hnil) with hzero | hempty
      · omega
      · exact hempty
    · next hif =>
      refine ⟨x, rfl, rfl, fun hnil => ?_⟩
      have hexhausted : x.exhausted = true := by
        simpa [hnil] using hif
      rw [rest, hnil, hexhausted]
      rfl
  rw [next_eq, Failing.on_bind_ok hy]
  cases hfetched : y.fetched with
  | nil =>
    refine ⟨none, rfl, ?_, nofun⟩
    rw [hfull hfetched]
    rfl
  | cons e es =>
    have hcons : x.rest s = e :: ({ y with fetched := es } : Scan).rest s := by
      rw [← hrest, rest, rest, hfetched]
      rfl
    refine ⟨some (e, { y with fetched := es }), rfl, ?_, ?_⟩
    · rw [hcons]
      rfl
    · rintro _ _ ⟨⟩
      rw [hcons]
      rfl

/-- At the end there is no next entry. -/
theorem on_next_nil (h : x.rest s = []) : x.next.on s = some (.ok none) := by
  obtain ⟨r, hr, hhead, -⟩ := on_next x s
  rw [h] at hhead
  cases r with
  | none => exact hr
  | some p => cases hhead

/-- Before the end there is one, and the scan goes on with the others. -/
theorem on_next_cons {e : Entry} {es : List Entry} (h : x.rest s = e :: es) :
    ∃ y, x.next.on s = some (.ok (some (e, y))) ∧ y.rest s = es := by
  obtain ⟨r, hr, hhead, htail⟩ := on_next x s
  rw [h] at hhead htail
  cases r with
  | none => cases hhead
  | some p =>
    obtain ⟨e', y⟩ := p
    obtain rfl : e' = e := Option.some.inj hhead
    exact ⟨y, hr, htail _ y rfl⟩

/-- At its beginning a scan has all entries of its range before it. -/
theorem rest_ofRange (range : KeyRange) (d : Direction) (chunk : Nat) (s : Store) :
    (ofRange range d chunk).rest s = s.within range d := rfl

end Scan

/-! ### What queries ask first -/

namespace Snapshot

variable {A : Access} {x : Snapshot} {c p : String}

theorem within_record? (h : A.keys (x.key c p)) :
    (x.record? c p).Within A fun _ => True := by
  refine Failing.Within.bind (Failing.Within.get h) fun v _ => ?_
  exact Failing.Within.ofStored

/-- The record that is stored is found. -/
theorem on_record? {s : Store} {v : Option Bytes} (h : s.get? (x.key c p) = v) :
    (x.record? c p).on s = some (Record.ofStored? (x.key c p) v) := by
  rw [record?, Failing.on_bind_ok (Failing.on_get _), h]
  cases Record.ofStored? (x.key c p) v <;> rfl

end Snapshot

end ContentIndex
