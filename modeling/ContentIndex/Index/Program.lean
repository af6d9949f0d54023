import ContentIndex.Source.Basic
import ContentIndex.Store.Basic
import ContentIndex.Time.Instant

/-!
# Programs

A program puts questions to its surroundings: storage, the content source, the clock. It is a
tree, with a branch for every reply, so programs that run at the same time are trees whose
questions are answered in turns. A loop is unrolled a given number of times; a longer one is cut
off.

## Main definitions

* `Question`, `Question.Reply`: what a program asks, and the type of the reply
* `Program`: programs, a monad
* `Program.run`: a program run to its end, by a way to answer questions
* `Storage`: questions to storage that stop a program when they fail
-/

namespace ContentIndex

/-- What a program asks of its surroundings. -/
inductive Question
  /-- The value of a key. -/
  | get (key : Bytes)
  /-- Entries of a range. -/
  | scan (range : KeyRange) (direction : Direction) (limit : Nat)
  /-- To apply a batch. -/
  | write (batch : Batch)
  /-- The content of a document. -/
  | content (path : String)
  /-- The paths of the documents below a directory. -/
  | paths (directory : String)
  /-- The time. -/
  | now
  /-- A name that nothing else has. -/
  | freshName
  /-- Whether the program should stop. -/
  | cancelled

/-- The type of the reply to a question. -/
abbrev Question.Reply : Question → Type
  | .get _ => Except StorageError (Option Bytes)
  | .scan _ _ _ => Except StorageError (List Entry)
  | .write _ => Except StorageError Unit
  | .content _ => Except SourceError Bytes
  | .paths _ => Except SourceError (List String)
  | .now => Instant
  | .freshName => String
  | .cancelled => Bool

/-- A program that asks questions and returns a result. -/
inductive Program (α : Type)
  /-- The result. -/
  | done (a : α)
  /-- A question, and how to go on with the reply. -/
  | ask (q : Question) (next : q.Reply → Program α)
  /-- A loop that was cut off. -/
  | cut

namespace Program

variable {α β γ : Type}

instance : Inhabited (Program α) := ⟨.cut⟩

/-- One program after another. -/
def bind : Program α → (α → Program β) → Program β
  | done a, f => f a
  | ask q next, f => ask q fun r => (next r).bind f
  | cut, _ => cut

instance : Monad Program where
  pure := done
  bind := bind

@[simp] theorem pure_eq (a : α) : (pure a : Program α) = done a := rfl

@[simp] theorem bind_eq (t : Program α) (f : α → Program β) : t >>= f = t.bind f := rfl

@[simp] theorem done_bind (a : α) (f : α → Program β) : (done a).bind f = f a := rfl

@[simp] theorem ask_bind (q : Question) (next : q.Reply → Program α) (f : α → Program β) :
    (ask q next).bind f = ask q fun r => (next r).bind f := rfl

@[simp] theorem cut_bind (f : α → Program β) : (cut : Program α).bind f = cut := rfl

theorem bind_done (t : Program α) : t.bind done = t := by
  induction t with
  | done a => rfl
  | ask q next ih => simp [ih]
  | cut => rfl

theorem bind_assoc (t : Program α) (f : α → Program β) (g : β → Program γ) :
    (t.bind f).bind g = t.bind fun a => (f a).bind g := by
  induction t with
  | done a => rfl
  | ask q next ih => simp [ih]
  | cut => rfl

instance : LawfulMonad Program :=
  LawfulMonad.mk' Program (fun t => bind_done t) (fun _ _ => rfl) bind_assoc

/-- The program that asks one question. -/
def question (q : Question) : Program q.Reply := ask q done

/-- The content of a document. -/
def content (path : String) : Program (Except SourceError Bytes) := question (.content path)

/-- The paths of the documents below a directory. -/
def paths (directory : String) : Program (Except SourceError (List String)) :=
  question (.paths directory)

/-- The time. -/
def now : Program Instant := question .now

/-- A name that nothing else has. -/
def freshName : Program String := question .freshName

/-- Whether the program should stop. -/
def cancelled : Program Bool := question .cancelled

/-- Runs a program by a way to answer questions; none if a loop was cut off. -/
def run {m : Type → Type} [Monad m] (answer : (q : Question) → m q.Reply) :
    Program α → m (Option α)
  | done a => pure (some a)
  | ask q next => do (next (← answer q)).run answer
  | cut => pure none

end Program

/-- A program that may stop with a failure. -/
abbrev Failing (ε : Type) := ExceptT ε Program

/-- What comes of a program, where a failure does not stop the run. -/
def Failing.outcome {ε ε' α : Type} (t : Failing ε α) : Failing ε' (Except ε α) :=
  ExceptT.lift t.run

/-- Repeats a program that has failed in a way that may pass, at most the given number of times. -/
def Failing.retrying {ε α : Type} (mayPass : ε → Bool) (t : Failing ε α) :
    (retries : Nat) → Failing ε α
  | 0 => t
  | retries + 1 => do
    match ← t.outcome with
    | .ok a => return a
    | .error e => if mayPass e then t.retrying mayPass retries else throw e

/-- A loop that was cut off. -/
def Failing.cut {ε α : Type} : Failing ε α := ExceptT.mk .cut

/-- A program that may stop with a failure of storage. -/
abbrev Storage := Failing StorageError

namespace Storage

/-- The value of a key. -/
def get (key : Bytes) : Storage (Option Bytes) :=
  ExceptT.mk (Program.question (.get key))

/-- Entries of a range. -/
def scan (range : KeyRange) (direction : Direction) (limit : Nat) : Storage (List Entry) :=
  ExceptT.mk (Program.question (.scan range direction limit))

/-- Applies a batch. -/
def write (batch : Batch) : Storage Unit := ExceptT.mk (Program.question (.write batch))

end Storage

end ContentIndex
