import ContentIndex.Index.Program
import ContentIndex.Proofs.Batch

/-!
# Exchanges with storage

A program and its surroundings exchange questions and replies. Of all exchanges only a batch that is
applied changes the store, and what it leaves under a key can be read off its operations.

## Main definitions

* `Exchange`: a question and its reply
* `Exchange.effect?`: what an exchange leaves under a key
* `Exchange.Idle`: an exchange that applies no batch, and no content is read
* `Store.Answers`: what storage may reply, and the store afterwards

## Main results

* `Store.Answers.get?_eq`: the store after an exchange, key by key
* `Store.Answers.guard_eq`: the guards of a batch that is applied hold before it
-/

namespace ContentIndex

/-- What the batch leaves under a key: its last write of the key counts. -/
def Batch.effect? (b : Batch) (key : Bytes) : Option (Option Bytes) :=
  (b.ops.reverse.find? (·.key = key)).map WriteOp.value?

/-- A key has what the last write of it leaves, and keeps its value if there is none. -/
theorem Store.get?_foldl_apply (s : Store) (ops : List WriteOp) (key : Bytes) :
    (ops.foldl apply s).get? key =
      ((ops.reverse.find? (·.key = key)).map WriteOp.value?).getD (s.get? key) := by
  induction ops generalizing s with
  | nil => rfl
  | cons op r ih =>
    rw [List.foldl_cons, ih, get?_apply, List.reverse_cons, List.find?_append]
    by_cases hk : key = op.key
    · cases hr : r.reverse.find? (·.key = key) with
      | none => simp [hk]
      | some op' => simp
    · have : op.key ≠ key := fun h => hk h.symm
      simp [hk, this]

/-- A question and the reply to it. -/
structure Exchange where
  /-- The question. -/
  question : Question
  /-- The reply. -/
  reply : question.Reply

namespace Exchange

/-- The batch that is applied by the exchange, if there is one. -/
def applied? : Exchange → Option Batch
  | ⟨.write b, .ok _⟩ => some b
  | _ => none

/-- What the exchange leaves under a key, if it writes the key. -/
def effect? (e : Exchange) (key : Bytes) : Option (Option Bytes) :=
  e.applied?.bind (·.effect? key)

@[simp] theorem applied?_write (b : Batch) : applied? ⟨.write b, .ok ()⟩ = some b := rfl

@[simp] theorem effect?_write (b : Batch) (key : Bytes) :
    effect? ⟨.write b, .ok ()⟩ key = b.effect? key := rfl

/-- The exchange applies no batch, and no content is read. -/
def Idle (e : Exchange) : Prop := e.applied? = none ∧ ∀ p x, e ≠ ⟨.content p, x⟩

theorem effect?_eq_none_of_applied? {e : Exchange} (h : e.applied? = none) (key : Bytes) :
    e.effect? key = none := by
  simp [effect?, h]

theorem applied?_eq_some_iff {e : Exchange} {b : Batch} :
    e.applied? = some b ↔ e = ⟨.write b, .ok ()⟩ := by
  constructor
  · obtain ⟨q, r⟩ := e
    cases q with
    | write b' =>
      cases r with
      | ok _ =>
        rintro ⟨⟩
        rfl
      | error _ => nofun
    | _ => nofun
  · rintro rfl
    rfl

end Exchange

/-- What storage may reply to a question, and the store afterwards. The backend may fail at any
question, and then nothing changes. Questions about other things are answered in any way. -/
inductive Store.Answers (s : Store) : Exchange → Store → Prop
  | get (key : Bytes) : Answers s ⟨.get key, .ok (s.get? key)⟩ s
  | getFails (key : Bytes) (m : String) : Answers s ⟨.get key, .error (.backend m)⟩ s
  | scan (range : KeyRange) (d : Direction) (limit : Nat) :
    Answers s ⟨.scan range d limit, .ok (s.scan range d limit)⟩ s
  | scanFails (range : KeyRange) (d : Direction) (limit : Nat) (m : String) :
    Answers s ⟨.scan range d limit, .error (.backend m)⟩ s
  | write {b : Batch} {s' : Store} (h : s.write b = .ok s') : Answers s ⟨.write b, .ok ()⟩ s'
  | writeConflicts {b : Batch} {e : StorageError} (h : s.write b = .error e) :
    Answers s ⟨.write b, .error e⟩ s
  | writeFails (b : Batch) (m : String) : Answers s ⟨.write b, .error (.backend m)⟩ s
  | content (path : String) (r : Except SourceError Bytes) : Answers s ⟨.content path, r⟩ s
  | paths (directory : String) (r : Except SourceError (List String)) :
    Answers s ⟨.paths directory, r⟩ s
  | now (t : Instant) : Answers s ⟨.now, t⟩ s
  | freshName (name : String) : Answers s ⟨.freshName, name⟩ s
  | cancelled (b : Bool) : Answers s ⟨.cancelled, b⟩ s

namespace Store.Answers

variable {s s' : Store} {e : Exchange} {key : Bytes}

/-- The store after an exchange, key by key. -/
theorem get?_eq (h : s.Answers e s') (key : Bytes) :
    s'.get? key = (e.effect? key).getD (s.get? key) := by
  cases h with
  | write h =>
    obtain ⟨-, rfl⟩ := write_eq_ok_iff.mp h
    exact get?_foldl_apply s _ key
  | _ => rfl

/-- An exchange that does not write a key leaves it as it is. -/
theorem get?_eq_of_effect? (h : s.Answers e s') (he : e.effect? key = none) :
    s'.get? key = s.get? key := by
  rw [h.get?_eq, he]
  rfl

/-- The guards of a batch that is applied hold before it. -/
theorem guard_eq {b : Batch} (h : s.Answers ⟨.write b, .ok ()⟩ s') {g : Guard}
    (hg : g ∈ b.guards) : s.get? g.key = g.expected := by
  cases h with
  | write h => exact (write_eq_ok_iff.mp h).1 g hg

/-- A batch that is applied is applied as a whole. -/
theorem eq_of_write {b : Batch} (h : s.Answers ⟨.write b, .ok ()⟩ s') :
    s' = b.ops.foldl Store.apply s := by
  cases h with
  | write h => exact (write_eq_ok_iff.mp h).2

theorem reply_eq_get? {v : Option Bytes} (h : s.Answers ⟨.get key, .ok v⟩ s') :
    v = s.get? key := by
  cases h
  rfl

theorem mem_range {range : KeyRange} {d : Direction} {limit : Nat} {es : List Entry}
    (h : s.Answers ⟨.scan range d limit, .ok es⟩ s') {x : Entry} (hx : x ∈ es) :
    range.contains x.1 := by
  cases h
  exact (mem_scan hx).2

end Store.Answers

end ContentIndex
