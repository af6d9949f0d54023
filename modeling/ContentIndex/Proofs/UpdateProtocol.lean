import ContentIndex.Index.Update
import ContentIndex.Proofs.RebuildProtocol

/-!
# The protocol of updates

An update has no stages. Whatever it has read before, a batch of it replaces the entries of one
document by others, guarded by the stored record and by the active generation, so that a batch that
is applied says all that counts.

## Main definitions

* `Update.entriesOf`: the entries of a document that may be missing
* `Update.Step`: what an update may do
* `Update.protocol`: the protocol

## Main results

* `Update.follows`: **updates follow the protocol**
-/

namespace ContentIndex

namespace Update

open Rebuild (Conditions Stage)

/-- The entries of a document that may be missing. -/
def entriesOf (g : Generation) (col : Graph.Collection) (r : Option Record) : List Entry :=
  (r.map (·.entries g col)).getD []

/-- What an update may do. -/
inductive Step (db : Database) (c : Conditions) : Stage → Exchange → Stage → Prop
  /-- It reads, or a write is refused. -/
  | quiet {s : Stage} {e : Exchange} (h : e.applied? = none) : Step db c s e s
  /-- It replaces a document. -/
  | replace {s : Stage} {g : Generation} {col : Graph.Collection} {path : String}
    {stored : Option Bytes} {old new : Option Record} (hcol : col ∈ db.graph.collections)
    (hold : Record.ofStored? (Key.document g col.name path).encode stored = .ok old)
    (hnew : ∀ r ∈ new, r.collection = col.name ∧ r.path = path ∧ c.good col r) :
    Step db c s
      ⟨.write ⟨Database.replacement (entriesOf g col old) (entriesOf g col new),
        [⟨(Key.document g col.name path).encode, stored⟩,
          ⟨Key.active.encode, some g.toBytes⟩]⟩, .ok ()⟩ s

/-- The protocol of the updates of a database. -/
def protocol (db : Database) (c : Conditions) : Protocol Stage :=
  { Rebuild.protocol db c with step := Step db c }

instance (db : Database) (c : Conditions) : (protocol db c).Lenient := ⟨fun h => .quiet h.1⟩

variable {db : Database} {c : Conditions} {s : Stage}

/-- The record that is written in place of another one is that of a content of the document. -/
theorem good_of_change {col : Graph.Collection} {path : String} {old : Option Record}
    {content : Except SourceError Bytes} {new : Option Record}
    (howner : db.graph.owner? path = some col) (hallow : c.Allow db ⟨.content path, content⟩)
    (h : (db.change col path old content).2.2 = some new) :
    ∀ r ∈ new, r.collection = col.name ∧ r.path = path ∧ c.good col r := by
  rintro r rfl
  unfold Database.change at h
  split at h
  · split at h <;> cases h
  · cases h
  · next content =>
    split at h
    · cases h
    · split at h
      · next r' ws hr =>
        cases h
        obtain ⟨hname, hpath, -⟩ := Database.eq_of_record hr
        exact ⟨hname, hpath, hallow col (List.mem_of_find?_eq_some howner) ⟨col, howner, rfl⟩ _ _ hr⟩
      · cases h

theorem follows_ofRecord {key : Bytes} {stored : Option Bytes}
    {Q : Option Record → Stage → Prop} {E : StorageError → Stage → Prop}
    (hok : ∀ r, Record.ofStored? key stored = .ok r → Q r s) (hfailed : ∀ e, E e s) :
    Failing.Follows (protocol db c) Q E
      (liftM (Record.ofStored? key stored : Except StorageError (Option Record)) :
        Storage (Option Record)) s := by
  cases h : Record.ofStored? key stored with
  | ok r => exact hok r h
  | error e => exact hfailed e

theorem follows_updateOnce {g : Generation} {col : Graph.Collection} {path : String}
    (howner : db.graph.owner? path = some col) :
    (db.updateOnce g col path).Follows (protocol db c) (fun _ s' => s' = s)
      (fun _ s' => s' = s) s := by
  refine Failing.Follows.bind (m := fun _ s' => s' = s)
    (follows_storage (follows_get (fun _ => rfl) fun _ => rfl)) ?_
  rintro stored s rfl
  refine Failing.Follows.bind (m := fun old s' => s' = s ∧
      Record.ofStored? (Key.document g col.name path).encode stored = .ok old)
    (follows_storage (follows_ofRecord (fun r hr => ⟨rfl, hr⟩) fun _ => rfl)) ?_
  rintro old s ⟨rfl, hold⟩
  refine Failing.Follows.bind (m := fun content s' => s' = s ∧ c.Allow db ⟨.content path, content⟩)
    (follows_program (Program.Follows.question fun r hr => ⟨s, Step.quiet ?_, rfl, hr⟩)) ?_
  · cases r <;> rfl
  rintro content s ⟨rfl, hallow⟩
  generalize hchange : db.change col path old content = change
  obtain ⟨outcome, notices, result⟩ := change
  cases result with
  | none => rfl
  | some new =>
    have hnew := good_of_change howner hallow (by rw [hchange])
    show Failing.Follows _ _ _ (if _ then _ else _) _
    split
    · refine Failing.Follows.bind (m := fun _ s' => s' = s) (follows_storage
        (follows_write (Step.replace (List.mem_of_find?_eq_some howner) hold hnew) rfl fun _ => rfl)) ?_
      rintro _ s rfl
      rfl
    · rfl

theorem follows_updateAll {g : Generation} {paths : List String} {report : Report} :
    (db.updateAll g paths report).Follows (protocol db c) (fun _ _ => True) (fun _ _ => True)
      s := by
  induction paths generalizing report s with
  | nil => trivial
  | cons path rest ih =>
    refine Failing.Follows.bind (follows_checkCancelled trivial) ?_
    rintro _ s rfl
    split
    · exact ih
    · next col howner =>
      refine Failing.Follows.bind (m := fun _ _ => True) (Failing.Follows.retrying
        ((follows_updateOnce howner).mono (fun _ _ _ => trivial) fun _ _ h =>
          ⟨trivial, fun _ => h⟩) _) fun _ _ _ => ih

theorem follows_info? {g : Generation} :
    (Generation.info? g).Follows (protocol db c) (fun _ _ => True) (fun _ _ => True) s := by
  refine Failing.Follows.bind (m := fun _ _ => True)
    (follows_get (fun _ => trivial) fun _ => trivial) fun v s _ => ?_
  split
  · trivial
  · split <;> trivial

theorem follows_updatable :
    db.updatable.Follows (protocol db c) (fun _ _ => True) (fun _ _ => True) s := by
  refine Failing.Follows.bind (m := fun _ _ => True) (follows_storage ?_) fun i s _ => ?_
  · refine Failing.Follows.bind (m := fun _ _ => True)
      (follows_stored? (fun p _ _ => ⟨s, Step.quiet rfl, trivial⟩)
        fun _ _ _ _ => trivial) fun p s _ => ?_
    split
    · exact follows_info?
    · trivial
  · split
    · split <;> trivial
    · trivial

/-- **Updates follow the protocol.** -/
theorem follows (db : Database) (c : Conditions) (paths : List String) (s : Stage) :
    (db.update paths).Follows (protocol db c) (fun _ _ => True) (fun _ _ => True) s := by
  refine Failing.Follows.bind (m := fun _ _ => True) (follows_storage ?_) fun held s _ => ?_
  · refine Failing.Follows.bind (m := fun _ _ => True)
      (follows_get (fun _ => trivial) fun _ => trivial) fun v s _ => ?_
    exact Failing.Follows.lift (follows_liveIn?.mono fun _ _ _ => trivial)
  split
  · trivial
  · exact Failing.Follows.bind follows_updatable fun g s _ => follows_updateAll

end Update

end ContentIndex
