import ContentIndex.Proofs.ExactRebuild
import ContentIndex.Proofs.UpdateProtocol
import Mathlib.Data.Set.Insert

/-!
# Indexes that are kept up

After a rebuild, documents come, change and go, and updates bring the index up to date at the paths
that they are given. A path is stale from a change of its document until the next update of it. If
no path is stale, then the index has what a rebuild would write.

## Main definitions

* `Store.Reachable`: stores that runs can leave
* `Database.Upkeep`: a rebuild, followed by changes of documents and by updates
* `Database.Kept`: what the index holds meanwhile

## Main results

* `Database.Kept.gives_update`: an update brings its paths up to date
* `Database.Upkeep.entries_agree_with_rebuild`: **an index that is kept up has what a rebuild would
  write**
-/

namespace ContentIndex

open Source (Files)

/-- Runs can leave the store, from an empty one on, before numbers are used up. -/
def Store.Reachable (s : Store) : Prop :=
  ∃ (ι : Type) (_ : DecidableEq ι) (runs : ι → Run) (trace : Trace ι)
    (w : World ι (Except IndexError Report)),
    Interleaving (fun i => (runs i).program) OrderedMap.empty trace w ∧
      (written trace Key.counter.encode).length < 2 ^ 64 - 1 ∧ w.store = s

theorem Store.Reachable.nextFree {s : Store} (h : s.Reachable) : s.NextFree := by
  obtain ⟨ι, _, runs, trace, w, run, hcount, rfl⟩ := h
  exact nextFree_of_interleaving run hcount

/-- Nothing has run yet. -/
theorem Store.reachable_empty : Store.Reachable OrderedMap.empty :=
  ⟨Unit, inferInstance, fun _ => .update Rebuild.hasty [], [], _, .start, by decide, rfl⟩

namespace Database

/-- A rebuild that succeeds, followed by changes of the documents and by updates that succeed, with
the paths that have become stale. The contents are among `U`. -/
inductive Upkeep (db : Database) (U : Set Bytes) : Files → Store → Set String → Prop
  /-- A rebuild. -/
  | rebuild {fs : Files} {s s' : Store} {rounds : Nat} {report : Report} (hs : s.Reachable)
    (hlegible : db.Legible fs) (hused : ∀ p b, fs.get? p = some b → b ∈ U)
    (h : (db.rebuild rounds).Succeeds fs s report s') : Upkeep db U fs s' ∅
  /-- A document is put in place of what was at its path. -/
  | put {fs : Files} {s : Store} {stale : Set String} {p : String} {content : Bytes}
    (h : Upkeep db U fs s stale) (hp : Text.ZeroFree p) (hused : content ∈ U) :
    Upkeep db U (fs.insert p content) s (insert p stale)
  /-- A document is deleted. -/
  | delete {fs : Files} {s : Store} {stale : Set String} {p : String}
    (h : Upkeep db U fs s stale) : Upkeep db U (fs.erase p) s (insert p stale)
  /-- An update. Records that it may write are read back. -/
  | update {fs : Files} {s s' : Store} {stale : Set String} {paths : List String} {report : Report}
    (h : Upkeep db U fs s stale)
    (hreads : ∀ p ∈ paths, ∀ c r, db.document? fs p = some (.ok (c, r)) →
      Record.ofBytes? r.toBytes = some r)
    (hrun : (db.update paths).Succeeds fs s report s') : Upkeep db U fs s' (stale \ {p | p ∈ paths})

/-- What an index holds that is kept up: the records of different documents, each of a content that
the document has had, and of its content now if its path is not stale. -/
structure Kept (db : Database) (U : Set Bytes) (fs : Files) (stale : Set String) (g : Generation)
    (D : Set Record) (s : Store) : Prop where
  /-- The generation is active. -/
  active : s.get? Key.active.encode = some g.toBytes
  /-- Its information names it. -/
  info : ∃ i : GenerationInfo, s.get? (Key.info g).encode = some i.toBytes ∧ i.generation = g
  /-- It holds the records. -/
  holds : s.Holds g db.graph D
  /-- They are of different documents. -/
  library : db.graph.Library D
  /-- They are of contents that the documents have had. -/
  made : ∀ r ∈ D, ∃ c content ws, db.graph.owner? r.path = some c ∧ content ∈ U ∧
    db.record c r.path content = .ok (r, ws)
  /-- They are the records of the documents now, apart from the stale ones. -/
  current : ∀ p ∉ stale, ∀ r, r ∈ D ∧ r.path = p ↔ ∃ c, db.document? fs p = some (.ok (c, r))

/-- The record is that of the document at the path. -/
def IsRecordOf (db : Database) (fs : Files) (p : String) (r : Option Record) : Prop :=
  ∀ x, r = some x ↔ ∃ c, db.document? fs p = some (.ok (c, x))

variable {db : Database} {U : Set Bytes} {fs : Files} {stale : Set String} {g : Generation}
  {D : Set Record} {s : Store} {c : Graph.Collection} {p : String} {old new : Option Record}

/-! ### Changes of documents -/

theorem document?_congr {fs' : Files} (h : fs'.get? p = fs.get? p) :
    db.document? fs' p = db.document? fs p := by
  rw [document?, document?, h]

/-- A change of a document makes its path stale. -/
theorem Kept.change {fs' : Files} (h : Kept db U fs stale g D s)
    (hsame : ∀ q, q ≠ p → fs'.get? q = fs.get? q) : Kept db U fs' (insert p stale) g D s := by
  refine ⟨h.active, h.info, h.holds, h.library, h.made, fun q hq r => ?_⟩
  rw [Set.mem_insert_iff, not_or] at hq
  rw [h.current q hq.2, document?_congr (hsame q hq.1)]

/-! ### Replacements -/

/-- A record of a document is one of the collection that owns the path. -/
theorem Kept.collection_eq (h : Kept db U fs stale g D s) (howner : db.graph.owner? p = some c)
    {r : Record} (hr : r ∈ D) (hpath : r.path = p) : r.collection = c.name := by
  obtain ⟨d, content, ws, hd, -, hrecord⟩ := h.made r hr
  rw [hpath, howner] at hd
  obtain rfl := Option.some.inj hd
  exact (eq_of_record hrecord).1

/-- The record that is read under the key of a document is the one that is held. -/
theorem Kept.read (hG : db.graph.IsCompiled) (h : Kept db U fs stale g D s)
    (hold : Record.ofStored? (Key.document g c.name p).encode
      (s.get? (Key.document g c.name p).encode) = .ok old) :
    ∀ r, old = some r ↔ r ∈ D ∧ r.collection = c.name ∧ r.path = p := by
  intro r
  rw [← h.holds.record?_eq_some_iff hG h.library, Store.record?]
  generalize s.get? (Key.document g c.name p).encode = v at hold
  cases v with
  | none =>
    cases hold
    rfl
  | some b =>
    rw [Record.ofStored?] at hold
    rw [Option.bind_some]
    cases hb : Record.ofBytes? b with
    | none =>
      rw [hb] at hold
      cases hold
    | some x =>
      rw [hb] at hold
      cases hold
      rfl

/-- A document whose record is the right one is not stale. -/
theorem Kept.keep (h : Kept db U fs stale g D s) (howner : db.graph.owner? p = some c)
    (hold : ∀ r, old = some r ↔ r ∈ D ∧ r.collection = c.name ∧ r.path = p)
    (hright : db.IsRecordOf fs p old) : Kept db U fs (stale \ {p}) g D s := by
  refine ⟨h.active, h.info, h.holds, h.library, h.made, fun q hq r => ?_⟩
  by_cases hqp : q = p
  · subst hqp
    rw [← hright r, hold r]
    constructor
    · rintro ⟨hr, hpath⟩
      exact ⟨hr, h.collection_eq howner hr hpath, hpath⟩
    · rintro ⟨hr, -, hpath⟩
      exact ⟨hr, hpath⟩
  · exact h.current q (fun hq' => hq ⟨hq', hqp⟩) r

/-- A document that is replaced is not stale. -/
theorem Kept.replace (hG : db.graph.IsCompiled) (h : Kept db U fs stale g D s)
    (howner : db.graph.owner? p = some c)
    (hold : ∀ r, old = some r ↔ r ∈ D ∧ r.collection = c.name ∧ r.path = p)
    (hright : db.IsRecordOf fs p new)
    (hp : ∀ r ∈ new, db.graph.Admits r) (hused : ∀ b, fs.get? p = some b → b ∈ U) :
    Kept db U fs (stale \ {p}) g (Graph.replaced D c.name p new)
      ((replacement (db.graph.entriesOf g old) (db.graph.entriesOf g new)).foldl Store.apply s) := by
  have hdocument : ∀ r ∈ new, ∃ content ws, fs.get? p = some content ∧
      db.record c p content = .ok (r, ws) ∧ r.collection = c.name ∧ r.path = p := by
    intro r hr
    obtain ⟨d, hd⟩ := (hright r).mp hr
    obtain ⟨ho, content, ws, hcontent, hrecord⟩ := document?_eq_ok_iff.mp hd
    rw [howner] at ho
    obtain rfl := Option.some.inj ho
    obtain ⟨hname, hpath, -⟩ := eq_of_record hrecord
    exact ⟨content, ws, hcontent, hrecord, hname, hpath⟩
  have hnew : ∀ r ∈ new, db.graph.Admits r ∧ r.collection = c.name ∧ r.path = p := by
    intro r hr
    obtain ⟨-, -, -, -, hname, hpath⟩ := hdocument r hr
    exact ⟨hp r hr, hname, hpath⟩
  have hkept {k : Bytes} (hk : ∀ c p, ¬ Key.Owned g c p k) :
      ((replacement (db.graph.entriesOf g old) (db.graph.entriesOf g new)).foldl
        Store.apply s).get? k = s.get? k :=
    Store.get?_replacement_of_not_owned hG s
      (fun r hr => (h.library.admits r ((hold r).mp hr).1).locates)
      (fun r hr => (hnew r hr).1.locates) hk
  constructor
  · rw [hkept fun c p howned => Key.not_starts_active (Key.starts_of_generationPrefix howned.starts)]
    exact h.active
  · rw [hkept fun c p howned => howned.ne_info rfl]
    exact h.info
  · exact h.holds.replace hG h.library hold hnew
  · exact h.library.replaced hnew
  · rintro r (⟨hr, -⟩ | hr)
    · exact h.made r hr
    · obtain ⟨content, ws, hcontent, hrecord, -, hpath⟩ := hdocument r hr
      exact ⟨c, content, ws, hpath ▸ howner, hused content hcontent, hpath ▸ hrecord⟩
  · intro q hq r
    by_cases hqp : q = p
    · subst hqp
      rw [← hright r]
      constructor
      · rintro ⟨⟨hr, hne⟩ | hr, hpath⟩
        · exact absurd ⟨h.collection_eq howner hr hpath, hpath⟩ hne
        · exact hr
      · exact fun hr => ⟨Or.inr hr, (hnew r hr).2.2⟩
    · rw [← h.current q (fun hq' => hq ⟨hq', hqp⟩) r]
      constructor
      · rintro ⟨⟨hr, -⟩ | hr, hpath⟩
        · exact ⟨hr, hpath⟩
        · exact absurd (hpath.symm.trans (hnew r hr).2.2) hqp
      · rintro ⟨hr, hpath⟩
        exact ⟨Or.inl ⟨hr, fun hdoc => hqp (hpath.symm.trans hdoc.2)⟩, hpath⟩

/-! ### Updates -/

/-- What becomes of a document in an update: either its record is the right one as it is, or the
right one is put in its place. -/
theorem Kept.change_cases (hsha : Set.InjOn Sha256.hex U) (h : Kept db U fs stale g D s)
    (howner : db.graph.owner? p = some c) (hused : ∀ b, fs.get? p = some b → b ∈ U)
    (hold : ∀ r, old = some r ↔ r ∈ D ∧ r.collection = c.name ∧ r.path = p) :
    ((db.change c p old (fs.get p)).2.2 = none ∧ db.IsRecordOf fs p old) ∨
      ∃ new, (db.change c p old (fs.get p)).2.2 = some new ∧ db.IsRecordOf fs p new := by
  cases hcontent : fs.get? p with
  | none =>
    have hnone : db.IsRecordOf fs p none := by
      intro r
      simp [document?, howner, hcontent]
    rw [Files.get, hcontent, Database.change]
    cases old with
    | none => exact Or.inl ⟨rfl, hnone⟩
    | some r => exact Or.inr ⟨none, rfl, hnone⟩
  | some content =>
    have hdocument : db.document? fs p = some ((db.record c p content).map fun x => (c, x.1)) := by
      simp [document?, howner, hcontent]
    rw [Files.get, hcontent, Database.change]
    split
    · next hsame =>
      -- equal hashes are those of equal contents, so the record is made from the content as it is
      refine Or.inl ⟨rfl, fun r => ?_⟩
      obtain ⟨x, rfl, hhash⟩ := (Option.any_eq_true _ _).mp hsame
      obtain ⟨hx, -, hpath⟩ := (hold x).mp rfl
      obtain ⟨d, content', ws, hd, hcontent', hrecord⟩ := h.made x hx
      rw [hpath] at hd hrecord
      obtain rfl := Option.some.inj (howner.symm.trans hd)
      have hhex : Sha256.hex content' = Sha256.hex content :=
        (eq_of_record hrecord).2.2.symm.trans (of_decide_eq_true hhash)
      obtain rfl := hsha hcontent' (hused content hcontent) hhex
      rw [hdocument, hrecord]
      simp [Except.map]
    · refine Or.inr ?_
      cases hrecord : db.record c p content with
      | ok x =>
        refine ⟨some x.1, rfl, fun r => ?_⟩
        rw [hdocument, hrecord]
        simp [Except.map]
      | error reason =>
        refine ⟨none, rfl, fun r => ?_⟩
        rw [hdocument, hrecord]
        simp [Except.map]

theorem entriesOf_eq (hG : db.graph.IsCompiled) (hc : c ∈ db.graph.collections)
    {r : Option Record} (hname : ∀ x ∈ r, x.collection = c.name) :
    (r.map (·.entries g c)).getD [] = db.graph.entriesOf g r := by
  cases r with
  | none => rfl
  | some x => exact (Graph.entries_eq hG hc (hname x rfl)).symm

/-- A path that is updated is not stale afterwards. An attempt that fails changes nothing. -/
theorem Kept.follows_updateOnce (hG : db.graph.IsCompiled) (hsha : Set.InjOn Sha256.hex U)
    (h : Kept db U fs stale g D s) (howner : db.graph.owner? p = some c)
    (hused : ∀ b, fs.get? p = some b → b ∈ U)
    (hadmits : ∀ c r, db.document? fs p = some (.ok (c, r)) → db.graph.Admits r) :
    (db.updateOnce g c p).Follows (Alone.protocol fs)
      (fun _ s' => ∃ D', Kept db U fs (stale \ {p}) g D' s') (fun _ s' => s' = s) s := by
  have hc := Graph.mem_of_owner? howner
  refine Failing.Follows.bind
    (m := fun v s' => s' = s ∧ v = s.get? (Key.document g c.name p).encode)
    (follows_storage (Alone.follows_get ⟨rfl, rfl⟩ fun _ => rfl)) ?_
  rintro _ s ⟨rfl, rfl⟩
  refine Failing.Follows.bind (m := fun old s' => s' = s ∧
      Record.ofStored? (Key.document g c.name p).encode
        (s.get? (Key.document g c.name p).encode) = .ok old) (follows_storage ?_) ?_
  · cases hr : Record.ofStored? (Key.document g c.name p).encode
      (s.get? (Key.document g c.name p).encode) with
    | ok r => exact ⟨rfl, rfl⟩
    | error e => rfl
  rintro old s ⟨rfl, hstored⟩
  have hold := h.read hG hstored
  refine Failing.Follows.bind (m := fun content s' => s' = s ∧ content = fs.get p)
    (Alone.follows_content ⟨rfl, rfl⟩) ?_
  rintro _ s ⟨rfl, rfl⟩
  have hcases := h.change_cases hsha howner hused hold
  generalize db.change c p old (fs.get p) = change at hcases
  obtain ⟨outcome, notices, result⟩ := change
  rcases hcases with ⟨hresult, hright⟩ | ⟨new, hresult, hright⟩
  · obtain rfl : result = none := hresult
    exact ⟨D, h.keep howner hold hright⟩
  · obtain rfl : result = some new := hresult
    have hnew : ∀ r ∈ new, db.graph.Admits r := by
      intro r hr
      obtain ⟨d, hd⟩ := (hright r).mp hr
      exact hadmits d r hd
    have hkept := h.replace hG howner hold hright hnew hused
    rw [← entriesOf_eq hG hc fun x hx => ((hold x).mp hx).2.1,
      ← entriesOf_eq hG hc fun x hx => ?_] at hkept
    · show Failing.Follows _ _ _ (if _ then _ else _) _
      split
      · refine Failing.Follows.bind (m := fun _ s' => ∃ D', Kept db U fs (stale \ {p}) g D' s')
          (follows_storage (Alone.follows_write (fun _ => ⟨_, hkept⟩) fun _ => rfl)) ?_
        exact fun _ _ h => h
      · next hempty =>
        have hnil : replacement ((old.map (·.entries g c)).getD [])
            ((new.map (·.entries g c)).getD []) = [] := by
          simpa using hempty
        rw [hnil] at hkept
        exact ⟨_, hkept⟩
    · obtain ⟨d, hd⟩ := (hright x).mp hx
      obtain ⟨ho, content, ws, -, hrecord⟩ := document?_eq_ok_iff.mp hd
      obtain rfl := Option.some.inj (howner.symm.trans ho)
      exact (eq_of_record hrecord).1

/-- A path without an owner is never stale. -/
theorem Kept.unowned (h : Kept db U fs stale g D s) (howner : db.graph.owner? p = none) :
    Kept db U fs (stale \ {p}) g D s := by
  refine ⟨h.active, h.info, h.holds, h.library, h.made, fun q hq r => ?_⟩
  by_cases hqp : q = p
  · subst hqp
    refine iff_of_false ?_ (by simp [document?, howner])
    rintro ⟨hr, hpath⟩
    obtain ⟨c, content, ws, hc, -⟩ := h.made r hr
    rw [hpath, howner] at hc
    cases hc
  · exact h.current q (fun hq' => hq ⟨hq', hqp⟩) r

/-- The paths that are updated are not stale afterwards. -/
theorem Kept.gives_updateAll (hG : db.graph.IsCompiled) (hsha : Set.InjOn Sha256.hex U)
    (hsource : ∀ p b, fs.get? p = some b → Text.ZeroFree p ∧ b ∈ U) {paths : List String}
    (hreads : ∀ p ∈ paths, ∀ c r, db.document? fs p = some (.ok (c, r)) →
      Record.ofBytes? r.toBytes = some r)
    (h : Kept db U fs stale g D s) (report : Report) :
    (db.updateAll g paths report).Gives fs s fun _ s' =>
      ∃ D', Kept db U fs (stale \ {p | p ∈ paths}) g D' s' := by
  induction paths generalizing stale D s report with
  | nil =>
    have hnone : stale \ {p | p ∈ ([] : List String)} = stale := by
      ext p
      simp
    rw [hnone]
    exact ⟨D, h⟩
  | cons p rest ih =>
    replace ih {stale' : Set String} {D' : Set Record} {s' : Store}
        (h' : Kept db U fs stale' g D' s') :=
      ih (fun q hq => hreads q (List.mem_cons_of_mem _ hq)) h'
    have hrest : (stale \ {p}) \ {q | q ∈ rest} = stale \ {q | q ∈ p :: rest} := by
      ext q
      simp [and_assoc]
    rw [← hrest]
    refine Failing.Follows.bind (m := fun _ s' => s' = s) (Failing.Gives.checkCancelled rfl) ?_
    rintro _ s rfl
    split
    · next howner => exact ih (h.unowned howner) _
    · next c howner =>
      have hadmits (d : Graph.Collection) (r : Record)
          (hr : db.document? fs p = some (.ok (d, r))) : db.graph.Admits r := by
        obtain ⟨-, content, ws, hcontent, -⟩ := document?_eq_ok_iff.mp hr
        exact Rebuild.admits_of_reads hG (hsource p content hcontent).1 hr
          (hreads p (List.mem_cons_self ..) d r hr)
      refine Failing.Follows.bind (m := fun _ s' => ∃ D', Kept db U fs (stale \ {p}) g D' s')
        (Failing.Follows.retrying ?_ _) ?_
      · refine (h.follows_updateOnce hG hsha howner (fun b hb => (hsource p b hb).2) hadmits).mono
          (fun _ _ hkept => hkept) ?_
        rintro _ _ rfl
        exact ⟨trivial, fun _ => rfl⟩
      · rintro x s' ⟨D', hkept⟩
        exact ih hkept _

/-- The generation that is updated is the active one. -/
theorem Kept.gives_updatable (h : Kept db U fs stale g D s) :
    db.updatable.Gives fs s fun g' s' => s' = s ∧ g' = g := by
  have hinfo : Generation.activeInfo?.Gives fs s fun i s' => s' = s ∧ ∀ x ∈ i, x.generation = g := by
    refine Failing.Follows.bind
      (m := fun (p : Option (Generation × Bytes)) s' => s' = s ∧ p.map (·.1) = some g)
      (Alone.follows_number (fun p hp hget => ⟨rfl, ?_⟩) fun _ => trivial) ?_
    · have hstored : p.map (·.2) = (some g).map Generation.toBytes := hget.symm.trans h.active
      exact (Rebuild.reads_eq hp hstored).1
    rintro p s ⟨rfl, hp⟩
    obtain ⟨⟨g', b⟩, rfl, rfl⟩ := Option.map_eq_some_iff.mp hp
    refine Failing.Follows.bind (m := fun v s' => s' = s ∧ v = s.get? (Key.info g').encode)
      (Alone.follows_get ⟨rfl, rfl⟩ fun _ => trivial) ?_
    rintro _ s ⟨rfl, rfl⟩
    obtain ⟨b, i, hb, hread, hgeneration⟩ : ∃ b i, s.get? (Key.info g').encode = some b ∧
        GenerationInfo.ofBytes? b = some i ∧ i.generation = g' := by
      obtain ⟨i, hi, hgeneration⟩ := h.info
      exact ⟨_, i, hi, GenerationInfo.ofBytes?_toBytes i, hgeneration⟩
    rw [hb]
    split
    · next heq => cases heq
    · next heq =>
      cases heq
      rw [hread]
      refine ⟨rfl, ?_⟩
      rintro _ ⟨⟩
      exact hgeneration
  refine Failing.Follows.bind (m := fun i s' => s' = s ∧ ∀ x ∈ i, x.generation = g)
    (follows_storage hinfo) ?_
  rintro i s ⟨rfl, hi⟩
  split
  · next i =>
    split
    · exact ⟨rfl, hi i rfl⟩
    · trivial
  · trivial

/-- **An update brings its paths up to date.** -/
theorem Kept.gives_update (hG : db.graph.IsCompiled) (hsha : Set.InjOn Sha256.hex U)
    (hsource : ∀ p b, fs.get? p = some b → Text.ZeroFree p ∧ b ∈ U) {paths : List String}
    (hreads : ∀ p ∈ paths, ∀ c r, db.document? fs p = some (.ok (c, r)) →
      Record.ofBytes? r.toBytes = some r)
    (h : Kept db U fs stale g D s) : (db.update paths).Gives fs s fun _ s' =>
      ∃ D', Kept db U fs (stale \ {p | p ∈ paths}) g D' s' := by
  refine Failing.Follows.bind (m := fun _ s' => s' = s) (follows_storage ?_) ?_
  · refine Failing.Follows.bind (m := fun _ s' => s' = s) (Alone.follows_get rfl fun _ => trivial) ?_
    rintro v s rfl
    exact Failing.Follows.lift follows_liveIn?
  rintro held s rfl
  split
  · trivial
  · refine Failing.Follows.bind h.gives_updatable ?_
    rintro g' s ⟨rfl, rfl⟩
    have hpaths : {p | p ∈ paths} = {p | p ∈ paths.eraseDups} := by
      ext p
      simp
    rw [hpaths]
    exact h.gives_updateAll hG hsha hsource (fun p hp => hreads p (List.mem_eraseDups.mp hp)) _

/-! ### Histories -/

/-- After a rebuild nothing is stale. -/
theorem exists_kept_of_rebuild (hG : db.graph.IsCompiled) (hlegible : db.Legible fs)
    (hused : ∀ p b, fs.get? p = some b → b ∈ U) {s' : Store} {rounds : Nat} {report : Report}
    (hs : s.Reachable) (h : (db.rebuild rounds).Succeeds fs s report s') :
    ∃ g D, Kept db U fs ∅ g D s' := by
  obtain ⟨-, hsettled, ⟨previous, -, -, hinfo⟩, hactive, -⟩ :=
    (Rebuild.gives_rebuild hG rounds hs.nextFree).of_succeeds h
  refine ⟨report.generation, {r | r ∈ Rebuild.records db fs}, hactive, ⟨_, hinfo, rfl⟩,
    Rebuild.holds_records hG hlegible hsettled, Rebuild.library_records hG hlegible, ?_, ?_⟩
  · intro r hr
    obtain ⟨p, c, hp⟩ := (Rebuild.mem_records_iff hG).mp hr
    obtain ⟨howner, content, ws, hcontent, hrecord⟩ := document?_eq_ok_iff.mp hp
    obtain rfl : r.path = p := (eq_of_record hrecord).2.1
    exact ⟨c, content, ws, howner, hused _ content hcontent, hrecord⟩
  · intro p _ r
    constructor
    · rintro ⟨hr, rfl⟩
      obtain ⟨p, c, hp⟩ := (Rebuild.mem_records_iff hG).mp hr
      obtain ⟨-, content, ws, -, hrecord⟩ := document?_eq_ok_iff.mp hp
      obtain rfl : r.path = p := (eq_of_record hrecord).2.1
      exact ⟨c, hp⟩
    · rintro ⟨c, hp⟩
      obtain ⟨-, content, ws, -, hrecord⟩ := document?_eq_ok_iff.mp hp
      exact ⟨(Rebuild.mem_records_iff hG).mpr ⟨p, c, hp⟩, (eq_of_record hrecord).2.1⟩

namespace Upkeep

/-- The paths of the documents have no zero in them, and the contents are among those that are
used. -/
theorem source (h : Upkeep db U fs s stale) :
    ∀ p b, fs.get? p = some b → Text.ZeroFree p ∧ b ∈ U := by
  induction h with
  | rebuild hs hlegible hused h =>
    intro p b hb
    exact ⟨hlegible.paths p (Files.mem_keys_of_get? hb), hused p b hb⟩
  | put h hp hused ih =>
    intro q b hb
    rw [OrderedMap.get?_insert] at hb
    split at hb
    · next heq =>
      obtain rfl := Option.some.inj hb
      exact ⟨heq ▸ hp, hused⟩
    · exact ih q b hb
  | delete h ih =>
    intro q b hb
    rw [OrderedMap.get?_erase] at hb
    split at hb
    · cases hb
    · exact ih q b hb
  | update h hreads hrun ih => exact ih

/-- The index holds records of the documents at every moment. -/
theorem exists_kept (hG : db.graph.IsCompiled) (hsha : Set.InjOn Sha256.hex U)
    (h : Upkeep db U fs s stale) : ∃ g D, Kept db U fs stale g D s := by
  induction h with
  | rebuild hs hlegible hused h => exact exists_kept_of_rebuild hG hlegible hused hs h
  | put h hp hused ih =>
    obtain ⟨g, D, hkept⟩ := ih
    exact ⟨g, D, hkept.change fun q hq => by rw [OrderedMap.get?_insert, if_neg hq]⟩
  | delete h ih =>
    obtain ⟨g, D, hkept⟩ := ih
    exact ⟨g, D, hkept.change fun q hq => by rw [OrderedMap.get?_erase, if_neg hq]⟩
  | update h hreads hrun ih =>
    obtain ⟨g, D, hkept⟩ := ih
    obtain ⟨D', hkept'⟩ := (hkept.gives_update hG hsha h.source hreads).of_succeeds hrun
    exact ⟨g, D', hkept'⟩

end Upkeep

/-- Indexes that hold the records of the same documents differ in the prefixes of their generations
only. -/
theorem Kept.get?_eq {U' : Set Bytes} {g' : Generation} {D' : Set Record} {s' : Store}
    (h : Kept db U fs ∅ g D s) (h' : Kept db U' fs ∅ g' D' s') {x : Bytes}
    (hx : x ≠ Bytes.ofText "info") :
    s.get? (Key.generationPrefix g ++ x) = s'.get? (Key.generationPrefix g' ++ x) := by
  have hsame : D = D' := by
    ext r
    have hr := h.current r.path (Set.notMem_empty _) r
    rw [← h'.current r.path (Set.notMem_empty _) r] at hr
    simpa using hr
  subst hsame
  have hinfo (n : Generation) : Key.generationPrefix n ++ x ≠ (Key.info n).encode := by
    intro heq
    exact hx (List.append_cancel_left heq)
  refine Option.ext fun v => ?_
  rw [h.holds _ v (List.prefix_append ..) (hinfo g),
    h'.holds _ v (List.prefix_append ..) (hinfo g')]
  simp only [Graph.mem_entries_append_iff g g']

namespace Upkeep

/-- **An index that is kept up has what a rebuild would write.** After a rebuild and any changes of
documents and any updates, if every path whose document has changed has been updated since, then
the active generation has the entries that a rebuild of the documents as they are now would have,
each with the same key below the prefix of the generation and with the same value. -/
theorem entries_agree_with_rebuild (hG : db.graph.IsCompiled) (hsha : Set.InjOn Sha256.hex U)
    (h : Upkeep db U fs s ∅) (hlegible : db.Legible fs) {t t' : Store} (ht : t.Reachable)
    {rounds : Nat} {report : Report} (hfresh : (db.rebuild rounds).Succeeds fs t report t') :
    ∃ g g' : Generation, s.get? Key.active.encode = some g.toBytes ∧
      t'.get? Key.active.encode = some g'.toBytes ∧
      ∀ x, x ≠ Bytes.ofText "info" →
        s.get? (Key.generationPrefix g ++ x) = t'.get? (Key.generationPrefix g' ++ x) := by
  obtain ⟨g, D, hkept⟩ := h.exists_kept hG hsha
  obtain ⟨g', D', hkept'⟩ :=
    exists_kept_of_rebuild hG hlegible (fun p b hb => (h.source p b hb).2) ht hfresh
  exact ⟨g, g', hkept.active, hkept'.active, fun x hx => hkept.get?_eq hkept' hx⟩

/-! ### A second note -/

end Upkeep

/-- No lock is found where there is none. -/
theorem succeeds_live? {seconds : Nat} (hlock : s.get? Key.lock.encode = none) :
    (Lock.live? seconds).Succeeds fs s none s := by
  refine Failing.Succeeds.bind .get ?_
  rw [hlock]
  exact .done _ _

/-- A number that is stored is read. -/
theorem succeeds_stored? {key : Key} (h : s.get? key.encode = some g.toBytes) :
    (Generation.stored? key).Succeeds fs s (some (g, g.toBytes)) s := by
  rw [Failing.Succeeds, Generation.run_stored?]
  refine .ask (.get key.encode) trivial ?_
  rw [h, Generation.told, Generation.ofStored, Generation.parse?_toBytes]
  exact .done _ _

/-- Information that is stored is read. -/
theorem succeeds_info? {i : GenerationInfo} (hinfo : s.get? (Key.info g).encode = some i.toBytes) :
    (Generation.info? g).Succeeds fs s (some i) s := by
  refine Failing.Succeeds.bind .get ?_
  obtain ⟨b, hb, hread⟩ : ∃ b, s.get? (Key.info g).encode = some b ∧
      GenerationInfo.ofBytes? b = some i := ⟨_, hinfo, GenerationInfo.ofBytes?_toBytes i⟩
  rw [hb]
  simp only [hread]
  exact .pure

/-- The active generation can be updated if it was built with the graph of the database. -/
theorem succeeds_updatable (hactive : s.get? Key.active.encode = some g.toBytes)
    {i : GenerationInfo} (hinfo : s.get? (Key.info g).encode = some i.toBytes)
    (hgeneration : i.generation = g) (hversion : i.graphVersion = db.graph.version) :
    db.updatable.Succeeds fs s g s := by
  refine Failing.Succeeds.bind
    (Failing.Succeeds.storage ((succeeds_stored? hactive).bind (succeeds_info? hinfo))) ?_
  generalize db.graph.version = version at hversion
  show Failing.Succeeds fs (if i.graphVersion = version then _ else _) s g s
  rw [if_pos hversion, hgeneration]
  exact .pure

/-- An update gets to its paths if no lock is held and the active generation was built with the graph
of the database. -/
theorem succeeds_update {paths : List String} {report : Report} {s' : Store}
    (hlock : s.get? Key.lock.encode = none) (hactive : s.get? Key.active.encode = some g.toBytes)
    {i : GenerationInfo} (hinfo : s.get? (Key.info g).encode = some i.toBytes)
    (hgeneration : i.generation = g) (hversion : i.graphVersion = db.graph.version)
    (h : (db.updateAll g paths.eraseDups { generation := g }).Succeeds fs s report s') :
    (db.update paths).Succeeds fs s report s' :=
  (succeeds_live? hlock).storage.bind
    ((succeeds_updatable hactive hinfo hgeneration hversion).bind h)

/-- An update gets to its paths in turns, too. -/
theorem exists_updating {ι : Type} [DecidableEq ι]
    {programs : ι → Program (Except IndexError Report)} {s : Store} {trace : Trace ι}
    {w : World ι (Except IndexError Report)} {i : ι} {paths : List String}
    (run : Interleaving programs s trace w) (hi : w.left i = (db.update paths).run)
    (hlock : w.store.get? Key.lock.encode = none)
    (hactive : w.store.get? Key.active.encode = some g.toBytes)
    {info : GenerationInfo} (hinfo : w.store.get? (Key.info g).encode = some info.toBytes)
    (hgeneration : info.generation = g) (hversion : info.graphVersion = db.graph.version) :
    ∃ trace', Interleaving programs s (trace ++ trace') ⟨w.store, Function.update w.left i
        (db.updateAll g paths.eraseDups { generation := g }).run⟩ ∧
      ∀ x ∈ trace', x.1 = i ∧ Files.Answers OrderedMap.empty x.2 := by
  have hlive : (liftM (Lock.live? db.settings.lockSeconds) : Failing IndexError (Option Lock)).Succeeds
      OrderedMap.empty w.store none w.store := (succeeds_live? hlock).storage
  obtain ⟨t, run₁, ht⟩ := run.exists_of_runs hlive hi
  have hupdatable : db.updatable.Succeeds OrderedMap.empty w.store g w.store :=
    succeeds_updatable hactive hinfo hgeneration hversion
  obtain ⟨t', run₂, ht'⟩ := run₁.exists_of_runs hupdatable (Function.update_self ..)
  refine ⟨t ++ t', ?_, fun x hx => ?_⟩
  · rw [Function.update_idem, List.append_assoc] at run₂
    exact run₂
  · rcases List.mem_append.mp hx with hx | hx
    · exact ht x hx
    · exact ht' x hx

namespace Upkeep

/-- The content of the second note. -/
def undone : Bytes := Bytes.ofText "\x7b\"done\":false\x7d"

/-- The documents when a second note has come. -/
def laterFiles : Files := Rebuild.noteFiles.insert "notes/b.json" undone

/-- The store after the rebuild of the first note. -/
abbrev rebuiltStore : Store :=
  (notebook.rebuild 4).leaves Rebuild.noteFiles 0 OrderedMap.empty

/-- The store after the update of the second note. -/
abbrev updatedStore : Store :=
  (notebook.updateAll 1 ["notes/b.json"] { generation := 1 }).leaves laterFiles 1
    rebuiltStore

/-- The contents that the notes have had. -/
def noteContents : List Bytes := [Bytes.ofText "\x7b\"done\":true\x7d", undone]

theorem noteContents_injOn : Set.InjOn Sha256.hex {b | b ∈ noteContents} := by
  have hpairs : ∀ a ∈ noteContents, ∀ b ∈ noteContents, Sha256.hex a = Sha256.hex b → a = b := by
    decide +kernel
  exact fun a ha b hb => hpairs a ha b hb

/-- The store after a rebuild of both notes. -/
abbrev freshStore : Store := (notebook.rebuild 4).leaves laterFiles 0 OrderedMap.empty

/-- The rebuilds and the update succeed, and each rebuild makes the first generation. -/
theorem runs :
    ((Host.run (notebook.rebuild 4).run
        ⟨OrderedMap.empty, .files Rebuild.noteFiles, 0, 0, false⟩).1.any fun r => r.isOk) ∧
      rebuiltStore.get? Key.active.encode = some (Generation.toBytes 1) ∧
      ((Host.run (notebook.updateAll 1 ["notes/b.json"] { generation := 1 }).run
        ⟨rebuiltStore, .files laterFiles, 0, 1, false⟩).1.any fun r => r.isOk) ∧
      ((Host.run (notebook.rebuild 4).run
        ⟨OrderedMap.empty, .files laterFiles, 0, 0, false⟩).1.any fun r => r.isOk) ∧
      freshStore.get? Key.active.encode = some (Generation.toBytes 1) ∧
      ∀ p ∈ laterFiles.keys, Text.ZeroFree p ∧
        (notebook.recorded? laterFiles p).all (·.isTick) := by
  decide +kernel

theorem laterFiles_legible : notebook.Legible laterFiles :=
  Rebuild.legible_of_isTick runs.2.2.2.2.2

theorem rebuiltStore_succeeds : ∃ report,
    (notebook.rebuild 4).Succeeds Rebuild.noteFiles OrderedMap.empty report rebuiltStore :=
  Failing.exists_succeeds 0 runs.1

theorem updatedStore_succeeds : ∃ report,
    (notebook.update ["notes/b.json"]).Succeeds laterFiles rebuiltStore report
      updatedStore := by
  obtain ⟨-, hone, hupdate, -⟩ := runs
  obtain ⟨report, h⟩ : ∃ report,
      (notebook.updateAll 1 ["notes/b.json"] { generation := 1 }).Succeeds laterFiles rebuiltStore
        report updatedStore :=
    Failing.exists_succeeds 1 hupdate
  obtain ⟨built, hrebuild⟩ := rebuiltStore_succeeds
  obtain ⟨-, -, ⟨previous, -, -, hinfo⟩, hactive, hlock⟩ := Failing.Gives.of_succeeds
    (Rebuild.gives_rebuild notebook_compiled 4 Store.reachable_empty.nextFree) hrebuild
  have hnumber : built.generation = 1 :=
    Generation.toBytes_injective (Option.some.inj (hactive.symm.trans hone))
  rw [hnumber] at hinfo
  have hpaths : ["notes/b.json"] = ["notes/b.json"].eraseDups := by decide
  rw [hpaths] at h
  exact ⟨report, succeeds_update hlock hone hinfo rfl rfl h⟩

/-- A rebuild of the first note, a second note, and an update of that. -/
theorem upkeep_notebook :
    Upkeep notebook {b | b ∈ noteContents} laterFiles updatedStore ∅ := by
  obtain ⟨report, hrebuild⟩ := rebuiltStore_succeeds
  obtain ⟨report', hupdate⟩ := updatedStore_succeeds
  generalize updatedStore = after at hupdate
  generalize rebuiltStore = before at hrebuild hupdate
  have hundone : undone ∈ {b | b ∈ noteContents} := List.mem_cons_of_mem _ (List.mem_singleton_self _)
  have hused : ∀ p b, Rebuild.noteFiles.get? p = some b → b ∈ {b | b ∈ noteContents} := by
    intro p b hb
    have hall : ∀ e ∈ Rebuild.noteFiles.entries, e.2 ∈ noteContents := by decide
    exact hall _ ((Entries.find?_eq_some_iff Rebuild.noteFiles.sorted).mp hb)
  have hnone : insert "notes/b.json" ∅ \ {p | p ∈ ["notes/b.json"]} = (∅ : Set String) := by
    ext p
    simp
  rw [← hnone]
  refine .update (.put (.rebuild Store.reachable_empty Rebuild.noteFiles_legible hused hrebuild)
    (by decide) hundone) ?_ hupdate
  exact fun p _ => laterFiles_legible.reads p

/-- The notes have the entries that a rebuild of them would write. -/
theorem entries_agree_with_rebuild_notebook : ∃ g : Generation, ∀ x, x ≠ Bytes.ofText "info" →
    updatedStore.get? (Key.generationPrefix g ++ x) =
      ((notebook.rebuild 4).leaves laterFiles 0 OrderedMap.empty).get?
        (Key.generationPrefix 1 ++ x) := by
  obtain ⟨-, -, -, hrun, hone, -⟩ := runs
  obtain ⟨report, hfresh⟩ : ∃ report,
      (notebook.rebuild 4).Succeeds laterFiles OrderedMap.empty report freshStore :=
    Failing.exists_succeeds 0 hrun
  obtain ⟨g, g', -, hg', hsame⟩ := entries_agree_with_rebuild notebook_compiled noteContents_injOn
    upkeep_notebook laterFiles_legible Store.reachable_empty hfresh
  obtain rfl : g' = 1 := Generation.toBytes_injective (Option.some.inj (hg'.symm.trans hone))
  exact ⟨g, hsame⟩

end Upkeep

end Database

end ContentIndex
