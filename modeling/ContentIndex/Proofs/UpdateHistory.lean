import ContentIndex.Proofs.Histories
import ContentIndex.Proofs.UpdateProtocol

/-!
# The history of an update

An update visits its paths one after another. At each it reads the stored record and then the
content, and if the two do not agree it replaces the record by a batch that is guarded by what it
has read. If another process was faster, it visits the path again. So every batch that is applied
comes right after the readings that it was made from, and every content that is read is followed by
its batch, or it needs none, or it is read again.

## Main definitions

* `Update.Visit`: what an update has read at a path, and the batch that it makes of that
* `Update.Visit.Closes`: what may follow the readings
* `Update.Account`: every batch and every content of a history belongs to a visit
* `Update.Informed`: the update was told which generation is active

## Main results

* `Update.follows_accounted`: **the history of an update that succeeds is one of visits**
-/

namespace ContentIndex

namespace Update

/-! ### Visits -/

/-- What an update has read at a path. -/
structure Visit where
  /-- The collection of the path. -/
  collection : Graph.Collection
  /-- The path. -/
  path : String
  /-- What is stored under the key of the document. -/
  stored : Option Bytes
  /-- The record that this is. -/
  old : Option Record
  /-- What the source has replied. -/
  content : Except SourceError Bytes

namespace Visit

variable {db : Database} {g : Generation} {v : Visit} {new : Option Record} {h h' : List Exchange}

/-- The key of the document. -/
def key (g : Generation) (v : Visit) : Bytes := (Key.document g v.collection.name v.path).encode

/-- The readings of the stored record and of the content. -/
def lookup (g : Generation) (v : Visit) : Exchange := ⟨.get (v.key g), .ok v.stored⟩

/-- The reading of the content. -/
def reading (v : Visit) : Exchange := ⟨.content v.path, v.content⟩

/-- The record that is put in place of the stored one, if anything is to be done. -/
def result? (db : Database) (v : Visit) : Option (Option Record) :=
  (db.change v.collection v.path v.old v.content).2.2

/-- The writes that put a record in place of the stored one. -/
def ops (g : Generation) (v : Visit) (new : Option Record) : List WriteOp :=
  Database.replacement (entriesOf g v.collection v.old) (entriesOf g v.collection new)

/-- The batch of these writes. -/
def batch (g : Generation) (v : Visit) (new : Option Record) : Batch :=
  ⟨v.ops g new, [⟨v.key g, v.stored⟩, ⟨Key.active.encode, some g.toBytes⟩]⟩

/-- The batch is applied. -/
def commit (g : Generation) (v : Visit) (new : Option Record) : Exchange :=
  ⟨.write (v.batch g new), .ok ()⟩

/-- The path belongs to the collection, and the stored record was read. -/
structure Proper (db : Database) (g : Generation) (v : Visit) : Prop where
  /-- The collection owns the path. -/
  owner : db.graph.owner? v.path = some v.collection
  /-- The stored record was read. -/
  read : Record.ofStored? (v.key g) v.stored = .ok v.old

theorem applied?_reading : v.reading.applied? = none := by
  cases hcontent : v.content <;> rfl

/-- What follows the readings: anything if there is nothing to write, and otherwise the batch. -/
inductive Closes (db : Database) (g : Generation) (v : Visit) : List Exchange → Prop
  /-- Nothing is to be done. -/
  | agrees {h : List Exchange} (hresult : v.result? db = none) : Closes db g v h
  /-- There was no record, and there is none now. -/
  | absent {h : List Exchange} {new : Option Record} (hresult : v.result? db = some new)
    (hops : v.ops g new = []) : Closes db g v h
  /-- The record is replaced. -/
  | replaces {h : List Exchange} {new : Option Record} (hresult : v.result? db = some new) :
    Closes db g v (v.commit g new :: h)

theorem Closes.append (hcloses : v.Closes db g h) : v.Closes db g (h ++ h') := by
  cases hcloses with
  | agrees hresult => exact .agrees hresult
  | absent hresult hops => exact .absent hresult hops
  | replaces hresult => exact .replaces hresult

end Visit

/-! ### Accounts of histories -/

/-- Every batch that is applied in the history belongs to a visit, and so does every content that is
read there and not read again later, except at the given paths. -/
structure Account (db : Database) (g : Generation) (visited : Set String)
    (h : List Exchange) : Prop where
  /-- A batch comes right after the readings that it is made from. -/
  batches : ∀ {pre b post}, h = pre ++ ⟨.write b, .ok ()⟩ :: post →
    ∃ v new pre', Visit.Proper db g v ∧ pre = pre' ++ [v.lookup g, v.reading] ∧
      v.result? db = some new ∧ b = v.batch g new
  /-- A content comes right after the stored record, and what follows it closes the visit. -/
  contents : ∀ {pre p x post}, h = pre ++ ⟨.content p, x⟩ :: post → p ∉ visited →
    (∃ x', ⟨.content p, x'⟩ ∈ post) ∨ ∃ v pre', Visit.Proper db g v ∧ v.path = p ∧ v.content = x ∧
      pre = pre' ++ [v.lookup g] ∧ v.Closes db g post

namespace Account

variable {db : Database} {g : Generation} {visited visited' : Set String} {h : List Exchange}
  {e : Exchange} {v : Visit} {new : Option Record}

theorem nil : Account db g visited [] :=
  ⟨fun heq => by simp at heq, fun heq => by simp at heq⟩

theorem mono (hh : Account db g visited h) (hsub : visited ⊆ visited') :
    Account db g visited' h :=
  ⟨hh.batches, fun heq hp => hh.contents heq fun hp' => hp (hsub hp')⟩

/-- An exchange that applies nothing goes on an account, if it reads no content of other paths. -/
theorem concat (hh : Account db g visited h) (he : e.applied? = none)
    (hcontent : ∀ p x, e = ⟨.content p, x⟩ → p ∈ visited) : Account db g visited (h ++ [e]) := by
  refine ⟨fun {pre b post} heq => ?_, fun {pre p x post} heq hp => ?_⟩
  · rcases History.cases_concat heq with ⟨rfl, -, -⟩ | ⟨post', rfl, rfl⟩
    · cases he
    · exact hh.batches rfl
  · rcases History.cases_concat heq with ⟨rfl, -, -⟩ | ⟨post', rfl, rfl⟩
    · exact absurd (hcontent p x rfl) hp
    · rcases hh.contents rfl hp with ⟨x', hx'⟩ | ⟨v, pre', hv, hpath, hx, hpre, hcloses⟩
      · exact Or.inl ⟨x', List.mem_append_left _ hx'⟩
      · exact Or.inr ⟨v, pre', hv, hpath, hx, hpre, hcloses.append⟩

/-- A visit that has nothing to write is at its end with its readings. -/
theorem close (hh : Account db g {v.path} h) (hv : v.Proper db g) (hcloses : v.Closes db g []) :
    Account db g ∅ (h ++ [v.lookup g] ++ [v.reading]) := by
  have hlookup : Account db g {v.path} (h ++ [v.lookup g]) := hh.concat rfl nofun
  refine ⟨fun {pre b post} heq => ?_, fun {pre p x post} heq _ => ?_⟩
  · rcases History.cases_concat heq with ⟨hne, -, -⟩ | ⟨post', rfl, hold⟩
    · cases hne
    · exact hlookup.batches hold
  · rcases History.cases_concat heq with ⟨heq', rfl, rfl⟩ | ⟨post', rfl, hold⟩
    · cases heq'
      exact Or.inr ⟨v, h, hv, rfl, rfl, rfl, hcloses⟩
    · -- earlier contents of the path are read again by this visit
      by_cases hp : p = v.path
      · subst hp
        exact Or.inl ⟨v.content, List.mem_append_right _ (List.mem_singleton_self _)⟩
      · rcases hlookup.contents hold hp with ⟨x', hx'⟩ | ⟨u, pre', hu, hpath, hx, hpre, hc⟩
        · exact Or.inl ⟨x', List.mem_append_left _ hx'⟩
        · exact Or.inr ⟨u, pre', hu, hpath, hx, hpre, hc.append⟩

/-- The readings alone do not end a visit. -/
theorem readings (hh : Account db g {v.path} h) :
    Account db g {v.path} (h ++ [v.lookup g] ++ [v.reading]) := by
  have hlookup : Account db g {v.path} (h ++ [v.lookup g]) := hh.concat rfl nofun
  refine hlookup.concat Visit.applied?_reading ?_
  rintro p x heq
  cases heq
  rfl

/-- A visit that writes is at its end with its batch. -/
theorem commit (hh : Account db g {v.path} h) (hv : v.Proper db g)
    (hresult : v.result? db = some new) :
    Account db g ∅ (h ++ [v.lookup g] ++ [v.reading] ++ [v.commit g new]) := by
  have hreading := hh.readings
  refine ⟨fun {pre b post} heq => ?_, fun {pre p x post} heq _ => ?_⟩
  · rcases History.cases_concat heq with ⟨heq', rfl, -⟩ | ⟨post', rfl, hold⟩
    · cases heq'
      exact ⟨v, new, h, hv, by simp, hresult, rfl⟩
    · exact hreading.batches hold
  · rcases History.cases_concat heq with ⟨hne, -, -⟩ | ⟨post', rfl, hold⟩
    · cases hne
    · by_cases hp : p = v.path
      · subst hp
        rcases History.cases_concat hold with ⟨heq', rfl, rfl⟩ | ⟨post, rfl, -⟩
        · cases heq'
          exact Or.inr ⟨v, h, hv, rfl, rfl, rfl, .replaces hresult⟩
        · exact Or.inl ⟨v.content, by simp [Visit.reading]⟩
      · rcases hreading.contents hold hp with ⟨x', hx'⟩ | ⟨u, pre', hu, hpath, hx, hpre, hc⟩
        · exact Or.inl ⟨x', List.mem_append_left _ hx'⟩
        · exact Or.inr ⟨u, pre', hu, hpath, hx, hpre, hc.append⟩

end Account

/-! ### Paths -/

variable {db : Database} {g : Generation} {h : List Exchange}

/-- An attempt at a path is a visit, or it fails and the path has to be visited again. -/
theorem account_updateOnce {c : Graph.Collection} {path : String}
    (howner : db.graph.owner? path = some c) (hh : Account db g {path} h) :
    (db.updateOnce g c path).Follows History.protocol (fun _ => Account db g ∅)
      (fun _ => Account db g {path}) h := by
  refine Failing.Follows.bind
    (m := fun stored h' => h' = h ++ [⟨.get (Key.document g c.name path).encode, .ok stored⟩])
    (follows_storage (History.follows_get (fun _ => rfl) fun _ => hh.concat rfl nofun)) ?_
  rintro stored _ rfl
  have hlookup := hh.concat (e := ⟨.get (Key.document g c.name path).encode, .ok stored⟩) rfl nofun
  refine Failing.Follows.bind (m := fun old h' =>
      h' = h ++ [⟨.get (Key.document g c.name path).encode, .ok stored⟩] ∧
        Record.ofStored? (Key.document g c.name path).encode stored = .ok old)
    (follows_storage ?_) ?_
  · cases hread : Record.ofStored? (Key.document g c.name path).encode stored with
    | ok old => exact ⟨rfl, rfl⟩
    | error e => exact hlookup
  rintro old _ ⟨rfl, hread⟩
  refine Failing.Follows.bind (m := fun content h' =>
      h' = h ++ [⟨.get (Key.document g c.name path).encode, .ok stored⟩] ++
        [⟨.content path, content⟩])
    (follows_program (History.follows_question fun _ => rfl)) ?_
  rintro content _ rfl
  -- from here on everything is said of the visit that has been made
  let v : Visit := ⟨c, path, stored, old, content⟩
  have hv : v.Proper db g := ⟨howner, hread⟩
  have hresult : v.result? db = (db.change c path old content).2.2 := rfl
  generalize db.change c path old content = change at hresult
  obtain ⟨outcome, notices, result⟩ := change
  cases result with
  | none => exact Account.close (v := v) hh hv (.agrees hresult)
  | some new =>
    show Failing.Follows _ _ _ (if _ then _ else _) _
    split
    · refine Failing.Follows.bind (m := fun _ => Account db g ∅) (follows_storage
        (History.follows_write (Account.commit (v := v) hh hv hresult) fun e => ?_)) fun _ _ ha => ha
      exact (Account.readings (v := v) hh).concat rfl nofun
    · next hempty =>
      have hops : v.ops g new = [] := by simpa [v, Visit.ops, entriesOf] using hempty
      exact Account.close (v := v) hh hv (.absent hresult hops)

theorem account_updatePath {c : Graph.Collection} {path : String}
    (howner : db.graph.owner? path = some c) (hh : Account db g ∅ h) :
    (db.updatePath g c path).Follows History.protocol (fun _ => Account db g ∅)
      (fun _ _ => True) h :=
  Failing.Follows.retrying_of_keeps (J := Account db g {path})
    (fun _ hh => (account_updateOnce howner hh).mono (fun _ _ ha => ha)
      fun _ _ ha => ⟨trivial, fun _ => ha⟩) (hh.mono fun _ hp => hp.elim) _

theorem account_updateAll {paths : List String} {report : Report} (hh : Account db g ∅ h) :
    (db.updateAll g paths report).Follows History.protocol
      (fun r h' => r.generation = report.generation ∧ Account db g ∅ h') (fun _ _ => True) h := by
  induction paths generalizing report h with
  | nil => exact ⟨rfl, hh⟩
  | cons path rest ih =>
    have hcheck : checkCancelled.Follows History.protocol (fun _ => Account db g ∅)
        (fun _ _ => True) h := by
      refine Failing.Follows.bind (m := fun _ => Account db g ∅)
        (follows_program (History.follows_question fun _ => hh.concat rfl nofun)) ?_
      rintro b h' hh'
      split
      · trivial
      · exact hh'
    refine Failing.Follows.bind hcheck fun _ h' hh' => ?_
    split
    · exact (ih hh').mono (fun _ _ hr => ⟨hr.1.trans (Report.generation_note ..), hr.2⟩)
        fun _ _ _ => trivial
    · next c howner =>
      refine Failing.Follows.bind (account_updatePath howner hh') fun r _ ha => ?_
      exact (ih ha).mono (fun _ _ hr => ⟨hr.1.trans (Report.generation_add ..), hr.2⟩)
        fun _ _ _ => trivial

/-! ### Whole updates -/

/-- Nothing was applied, and no content was read. -/
def Idle (h : List Exchange) : Prop := ∀ e ∈ h, e.Idle

theorem Idle.concat {e : Exchange} (hh : Idle h) (he : e.applied? = none)
    (hcontent : ∀ p x, e ≠ ⟨.content p, x⟩) : Idle (h ++ [e]) := by
  intro e' he'
  rcases List.mem_append.mp he' with he' | he'
  · exact hh e' he'
  · obtain rfl := List.mem_singleton.mp he'
    exact ⟨he, hcontent⟩

theorem Idle.account (hh : Idle h) : Account db g ∅ h := by
  refine ⟨fun {pre b post} heq => ?_, fun {pre p x post} heq _ => ?_⟩
  · obtain ⟨happlied, -⟩ := hh _ (heq ▸ List.mem_append_right _ (List.mem_cons_self ..))
    cases happlied
  · obtain ⟨-, hcontent⟩ := hh _ (heq ▸ List.mem_append_right _ (List.mem_cons_self ..))
    exact absurd rfl (hcontent p x)

/-- The update was told that the generation is active: by the pointer, and by the information on the
generation that the pointer names. -/
def Informed (g : Generation) (h : List Exchange) : Prop :=
  ∃ a b i v, ⟨.get Key.active.encode, .ok (some a)⟩ ∈ h ∧ Generation.parse? a = some b ∧
    ⟨.get (Key.info b).encode, .ok (some v)⟩ ∈ h ∧ GenerationInfo.ofBytes? v = some i ∧
    i.generation = g

/-- The history is that of an update of the generation. -/
structure Accounted (db : Database) (g : Generation) (h : List Exchange) : Prop where
  /-- The update was told of the generation before anything else. -/
  informed : ∃ first, first <+: h ∧ Idle first ∧ Informed g first
  /-- Its batches and contents belong to visits. -/
  account : Account db g ∅ h

/-- Before it visits paths, an update reads the pointer and the information on the generation. -/
theorem informed_activeInfo? (hh : Idle h) :
    Generation.activeInfo?.Follows History.protocol
      (fun i h' => Idle h' ∧ ∀ x ∈ i, Informed x.generation h') (fun _ _ => True) h := by
  refine Failing.Follows.bind (m := fun (p : Option (Generation × Bytes)) h' => Idle h' ∧
    ∀ x ∈ p, ⟨.get Key.active.encode, .ok (some x.2)⟩ ∈ h' ∧ Generation.parse? x.2 = some x.1) ?_ ?_
  · refine Failing.Follows.bind (m := fun v h' => h' = h ++ [⟨.get Key.active.encode, .ok v⟩])
      (History.follows_get (fun _ => rfl) fun _ => trivial) ?_
    rintro v _ rfl
    have hidle : Idle (h ++ [⟨.get Key.active.encode, .ok v⟩]) := hh.concat rfl nofun
    cases v with
    | none => exact ⟨hidle, nofun⟩
    | some a =>
      refine Failing.Follows.bind
        (m := fun b h' => h' = h ++ [⟨.get Key.active.encode, .ok (some a)⟩] ∧
          Generation.parse? a = some b)
        (follows_ofStored (fun b hb => ⟨rfl, hb⟩) fun _ _ => trivial) ?_
      rintro b _ ⟨rfl, hb⟩
      refine ⟨hidle, ?_⟩
      rintro _ ⟨⟩
      exact ⟨List.mem_append_right _ (List.mem_singleton_self _), hb⟩
  · rintro p h' ⟨hh', hp⟩
    cases p with
    | none => exact ⟨hh', nofun⟩
    | some x =>
      obtain ⟨ha, hb⟩ := hp x rfl
      refine Failing.Follows.bind
        (m := fun v h'' => h'' = h' ++ [⟨.get (Key.info x.1).encode, .ok v⟩])
        (History.follows_get (fun _ => rfl) fun _ => trivial) ?_
      rintro v _ rfl
      have hidle : Idle (h' ++ [⟨.get (Key.info x.1).encode, .ok v⟩]) := hh'.concat rfl nofun
      cases v with
      | none => exact ⟨hidle, nofun⟩
      | some b =>
        dsimp only
        split
        · next i hi =>
          refine ⟨hidle, ?_⟩
          rintro _ ⟨⟩
          exact ⟨x.2, x.1, i, b, List.mem_append_left _ ha, hb,
            List.mem_append_right _ (List.mem_singleton_self _), hi, rfl⟩
        · trivial

/-- **The history of an update that succeeds is one of visits** to the generation that it was told
of. -/
theorem follows_accounted (db : Database) (paths : List String) :
    (db.update paths).Follows History.protocol (fun report => Accounted db report.generation)
      (fun _ _ => True) [] := by
  refine Failing.Follows.bind (m := fun _ => Idle) (follows_storage ?_) fun held h hh => ?_
  · refine Failing.Follows.bind (m := fun _ => Idle)
      (History.follows_get (fun _ => ?_) fun _ => trivial) fun stored h hh => ?_
    · exact Idle.concat nofun rfl nofun
    · -- the time is asked for only if a lock is stored
      refine Failing.Follows.lift ?_
      unfold Lock.liveIn?
      split
      · exact hh
      · exact Program.Follows.bind (m := fun _ => Idle)
          (History.follows_question fun _ => hh.concat rfl nofun) fun _ _ hh => hh
  split
  · trivial
  have hupdatable : db.updatable.Follows History.protocol
      (fun g h' => Idle h' ∧ Informed g h') (fun _ _ => True) h := by
    refine Failing.Follows.bind (follows_storage (informed_activeInfo? hh)) ?_
    rintro i h' ⟨hh', hi⟩
    cases i with
    | none => trivial
    | some i =>
      dsimp only
      split
      · exact ⟨hh', hi i rfl⟩
      · trivial
  refine Failing.Follows.bind hupdatable ?_
  rintro g h' ⟨hidle, hinformed⟩
  have hall := History.prefix_of_follows
    (@account_updateAll db g h' paths.eraseDups { generation := g } hidle.account)
  refine Program.Follows.mono hall fun r h'' hr => ?_
  cases r with
  | ok report =>
    obtain ⟨⟨hg, haccount⟩, hprefix⟩ := hr
    obtain rfl : report.generation = g := hg
    exact ⟨⟨h', hprefix, hidle, hinformed⟩, haccount⟩
  | error e => trivial

end Update

end ContentIndex
