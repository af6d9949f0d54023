import ContentIndex.Index.Program
import ContentIndex.Source.Directory

/-!
# Hosts

A host answers the questions of programs: it has a store, a content source and a clock. Programs
that run on one host one after another see what the earlier ones have written.

## Main definitions

* `Host`: what programs run on
* `Host.answer`: the answer to a question
* `Host.run`: a program from its beginning to its end
-/

namespace ContentIndex

-- powers as in the core library, whichever other modules are read
attribute [local instance (2000)] instPowNat

/-- The instant that many nanoseconds after the beginning of 1970. -/
def Instant.ofNanoseconds (n : Nat) : Instant :=
  let seconds := n / billion
  { day := Calendar.dayNumber 1970 1 1 + (seconds / daySeconds : Nat)
    second := seconds % daySeconds
    nanosecond := n % billion }

/-- What programs run on. -/
structure Host where
  /-- The index. -/
  store : Store
  /-- The documents. -/
  source : Source
  /-- The time, in nanoseconds since the beginning of 1970. -/
  clock : Nat
  /-- The number of names that were given. -/
  names : Nat
  /-- Programs should stop. -/
  cancelled : Bool

namespace Host

/-- How far the clock moves with every look at it, in nanoseconds. -/
def tick : Nat := 1000

/-- The name of a number, in the form of a random identifier. -/
def name (n : Nat) : String :=
  let digits := (List.range 12).reverse.map fun i => Bytes.hexDigit (n / 16 ^ i % 16)
  "00000000-0000-4000-8000-" ++ String.ofList digits

/-- The answer to a question, and what changes by it. -/
def answer : (q : Question) → StateM Host q.Reply
  | .get key => fun h => (.ok (h.store.get? key), h)
  | .scan range direction limit => fun h => (.ok (h.store.scan range direction limit), h)
  | .write batch => fun h => match h.store.write batch with
    | .ok store => (.ok (), { h with store })
    | .error e => (.error e, h)
  | .content path => fun h => (h.source.get path, h)
  | .paths directory => fun h => (h.source.list directory, h)
  | .now => fun h => (.ofNanoseconds h.clock, { h with clock := h.clock + tick })
  | .freshName => fun h => (name h.names, { h with names := h.names + 1 })
  | .cancelled => fun h => (h.cancelled, h)

/-- Runs a program; none if a loop was cut off. -/
def run {α : Type} (t : Program α) (h : Host) : Option α × Host := t.run answer h

end Host

end ContentIndex
