import ContentIndex.Proofs.Rereading
import ContentIndex.Proofs.Served
import ContentIndex.Proofs.Upkeep

/-!
# Walks through the paths of an update

An update treats its paths one after another. It reads the record of a document, it is told of the
content, and then it replaces the entries of the document or leaves them as they are. What belongs
to other documents is not touched, so what becomes of a path is told by what was stored of it when
the update began. An update that fails has walked through some of its paths and has left the
others.

## Main definitions

* `Update.Treats`: what an update does to one path
* `Update.Walk`: what an update does to one path after another
* `Store.Filed`: records are stored under the keys of their documents

## Main results

* `Update.follows_walk`: **an update is a walk through its paths**, or through the first of them
* `Update.Walk.get?_eq`: what belongs to no document of the paths is kept
* `Update.Walk.exists_treats`: what becomes of a path does not depend on the other ones
-/

namespace ContentIndex

open Text (ZeroFree)

theorem nodup_eraseDups {α : Type} [DecidableEq α] : ∀ l : List α, l.eraseDups.Nodup
  | [] => List.nodup_nil
  | a :: l => by
    rw [List.eraseDups_cons, List.nodup_cons]
    exact ⟨by simp, nodup_eraseDups _⟩
termination_by l => l.length
decreasing_by exact Nat.lt_succ_of_le (List.length_filter_le ..)

/-! ### Reports -/

/-- The reason why the document was left out. -/
def Outcome.skip? : Outcome → Option DocumentSkip
  | .skipped reason => some reason
  | _ => none

/-- The record of the document was written. -/
def Outcome.isIndexed : Outcome → Bool
  | .indexed => true
  | _ => false

/-- The second report tells of more documents than the first one, with what became of them. -/
structure Report.Counts (r r' : Report) (told : List (String × Outcome)) : Prop where
  /-- The generation is the same. -/
  generation : r'.generation = r.generation
  /-- More records were written. -/
  indexed : r'.indexed = r.indexed + (told.filter (·.2.isIndexed)).length
  /-- More documents were left out. -/
  skipped : r'.skipped = r.skipped ++ told.filterMap fun x => x.2.skip?.map (x.1, ·)

namespace Report.Counts

variable {r r' : Report} {told : List (String × Outcome)} {path : String} {outcome : Outcome}
  {notices : List Notice}

theorem refl (r : Report) : r.Counts r [] := ⟨rfl, rfl, (List.append_nil _).symm⟩

/-- A notice counts nothing. -/
theorem note {n : Notice} (h : (r.note n).Counts r' told) : r.Counts r' told :=
  ⟨h.generation, h.indexed, h.skipped⟩

/-- A document more is counted. -/
theorem add (h : (r.add path outcome notices).Counts r' told) :
    r.Counts r' ((path, outcome) :: told) := by
  refine ⟨h.generation.trans (r.generation_add path outcome notices), ?_, ?_⟩
  · rw [h.indexed]
    cases outcome <;> simp [Report.add, Outcome.isIndexed, Nat.add_assoc, Nat.add_comm]
  · rw [h.skipped]
    cases outcome <;> simp [Report.add, Outcome.skip?]

end Report.Counts

namespace Update

variable {db : Database} {told : Exchange → Prop} {g : Generation} {c : Graph.Collection}
  {p : String} {ps : List String} {os : List (String × Outcome)} {o : Outcome}
  {old : Option Record} {content : Except SourceError Bytes} {s s' : Store} {k : Bytes}

/-! ### One path -/

/-- The store after a document with the given record has got its result, if it has got one. -/
def result (g : Generation) (c : Graph.Collection) (old : Option Record) (s : Store) :
    Option (Option Record) → Store
  | none => s
  | some new =>
    (Database.replacement (entriesOf g c old) (entriesOf g c new)).foldl Store.apply s

/-- An update treats a path: it reads the record of the document, it is told of the content, and it
leaves what these two call for. -/
structure Treats (db : Database) (told : Exchange → Prop) (g : Generation) (c : Graph.Collection)
    (p : String) (old : Option Record) (content : Except SourceError Bytes) (s s' : Store) :
    Prop where
  /-- The record is read. -/
  read : Record.ofStored? (Key.document g c.name p).encode
    (s.get? (Key.document g c.name p).encode) = .ok old
  /-- The content is told. -/
  told : told ⟨.content p, content⟩
  /-- What is called for is left. -/
  left : s' = result g c old s (db.change c p old content).2.2

/-- An attempt to update a path treats it, or it changes nothing. -/
theorem follows_treats : (db.updateOnce g c p).Follows (Served.protocol told)
    (fun x s' => ∃ old content, Treats db told g c p old content s s' ∧
      x.1 = (db.change c p old content).1) (fun _ s' => s' = s) s := by
  refine Failing.Follows.bind
    (m := fun v s' => s' = s ∧ v = s.get? (Key.document g c.name p).encode)
    (follows_storage (Served.follows_get ⟨rfl, rfl⟩ fun _ => rfl)) ?_
  rintro _ s ⟨rfl, rfl⟩
  refine Failing.Follows.bind (m := fun old s' => s' = s ∧
      Record.ofStored? (Key.document g c.name p).encode
        (s.get? (Key.document g c.name p).encode) = .ok old) (follows_storage ?_) ?_
  · cases hr : Record.ofStored? (Key.document g c.name p).encode
      (s.get? (Key.document g c.name p).encode) with
    | ok r => exact ⟨rfl, rfl⟩
    | error e => rfl
  rintro old s ⟨rfl, hread⟩
  refine Failing.Follows.bind (m := fun content s' => s' = s ∧ told ⟨.content p, content⟩)
    (Served.follows_content fun r hr => ⟨rfl, hr⟩) ?_
  rintro content s ⟨rfl, htold⟩
  generalize hchange : db.change c p old content = change
  obtain ⟨outcome, notices, result⟩ := change
  cases result with
  | none =>
    refine ⟨old, content, ⟨hread, htold, ?_⟩, ?_⟩
    · rw [hchange, Update.result]
    · rw [hchange]
  | some new =>
    have htreats {s' : Store} (hs' : s' = Update.result g c old s (some new)) :
        ∃ old content, Treats db told g c p old content s s' ∧
          outcome = (db.change c p old content).1 :=
      ⟨old, content, ⟨hread, htold, by rw [hchange, hs']⟩, by rw [hchange]⟩
    show Failing.Follows _ _ _ (if _ then _ else _) _
    split
    · refine Failing.Follows.bind (m := fun _ s' => s' = Update.result g c old s (some new))
        (follows_storage (Served.follows_write (fun _ => rfl) fun _ _ => rfl)) ?_
      exact fun _ s' hs' => htreats hs'
    · next hempty =>
      have hnil : Database.replacement (entriesOf g c old) (entriesOf g c new) = [] := by
        simpa [entriesOf] using hempty
      refine htreats ?_
      rw [Update.result, hnil]
      rfl

/-! ### One path after another -/

/-- An update treats those of the paths that have owners, one after another. What becomes of them is
told in order. -/
inductive Walk (db : Database) (told : Exchange → Prop) (g : Generation) :
    List String → Store → List (String × Outcome) → Store → Prop
  /-- No path is left. -/
  | done (s : Store) : Walk db told g [] s [] s
  /-- The path has no owner. -/
  | unowned {p : String} {ps : List String} {os : List (String × Outcome)} {s s' : Store}
    (howner : db.graph.owner? p = none) (rest : Walk db told g ps s os s') :
    Walk db told g (p :: ps) s os s'
  /-- The path is treated. -/
  | treated {p : String} {ps : List String} {os : List (String × Outcome)} {c : Graph.Collection}
    {old : Option Record} {content : Except SourceError Bytes} {s s' s'' : Store}
    (howner : db.graph.owner? p = some c) (h : Treats db told g c p old content s s')
    (rest : Walk db told g ps s' os s'') :
    Walk db told g (p :: ps) s ((p, (db.change c p old content).1) :: os) s''

/-- What is told of is one of the paths. -/
theorem Walk.mem_paths (h : Walk db told g ps s os s') (ho : (p, o) ∈ os) : p ∈ ps := by
  induction h with
  | done s => cases ho
  | unowned _ _ ih => exact List.mem_cons_of_mem _ (ih ho)
  | treated _ _ _ ih =>
    rcases List.mem_cons.mp ho with heq | ho
    · obtain ⟨rfl, -⟩ := Prod.mk.inj heq
      exact List.mem_cons_self ..
    · exact List.mem_cons_of_mem _ (ih ho)

/-- Every path that has an owner is told of. -/
theorem Walk.exists_mem (h : Walk db told g ps s os s') (hp : p ∈ ps)
    (howner : db.graph.owner? p = some c) : ∃ o, (p, o) ∈ os := by
  induction h with
  | done s => cases hp
  | unowned hnone _ ih =>
    rcases List.mem_cons.mp hp with rfl | hp
    · cases hnone.symm.trans howner
    · exact ih hp
  | treated _ _ _ ih =>
    rcases List.mem_cons.mp hp with rfl | hp
    · exact ⟨_, List.mem_cons_self ..⟩
    · obtain ⟨o, ho⟩ := ih hp
      exact ⟨o, List.mem_cons_of_mem _ ho⟩

/-- An update of paths walks through them. One that fails has walked through the first ones. -/
theorem follows_walkAll {report : Report} : (db.updateAll g ps report).Follows (Served.protocol told)
    (fun report' s' => ∃ os, Walk db told g ps s os s' ∧ report.Counts report' os)
    (fun _ s' => ∃ walked os, walked <+: ps ∧ Walk db told g walked s os s') s := by
  induction ps generalizing report s with
  | nil => exact ⟨[], .done s, .refl report⟩
  | cons p ps ih =>
    refine Failing.Follows.bind (m := fun _ s' => s' = s)
      (follows_checkCancelled ⟨[], [], List.nil_prefix, .done s⟩) ?_
    rintro _ s rfl
    split
    · next howner =>
      refine ih.mono ?_ ?_
      · rintro report' s' ⟨os, hwalk, hcounts⟩
        exact ⟨os, .unowned howner hwalk, hcounts.note⟩
      · rintro _ s' ⟨walked, os, hwalked, hwalk⟩
        exact ⟨p :: walked, os, (List.prefix_cons_inj p).mpr hwalked, .unowned howner hwalk⟩
    · next c howner =>
      refine Failing.Follows.bind (m := fun x s' => ∃ old content,
          Treats db told g c p old content s s' ∧ x.1 = (db.change c p old content).1)
        (Failing.Follows.retrying (follows_treats.mono (fun _ _ h => h) ?_) _) ?_
      · rintro _ _ rfl
        exact ⟨⟨[], [], List.nil_prefix, .done _⟩, fun _ => rfl⟩
      rintro ⟨outcome, notices⟩ s' ⟨old, content, htreats, rfl⟩
      refine ih.mono ?_ ?_
      · rintro report' s'' ⟨os, hwalk, hcounts⟩
        exact ⟨_, .treated howner htreats hwalk, hcounts.add⟩
      · rintro _ s'' ⟨walked, os, hwalked, hwalk⟩
        exact ⟨p :: walked, _, (List.prefix_cons_inj p).mpr hwalked,
          .treated howner htreats hwalk⟩

/-- The generation that an update brings up to date: it is named by the information on the active
one, which was built with the graph of the database. -/
def Updates (db : Database) (s : Store) (g : Generation) : Prop :=
  ∃ a i, (s.get? Key.active.encode).bind Generation.parse? = some a ∧
    (s.get? (Key.info a).encode).bind GenerationInfo.ofBytes? = some i ∧
      i.graphVersion = db.graph.version ∧ i.generation = g

theorem follows_updates {E : IndexError → Store → Prop} (hfailed : ∀ e, E e s) :
    db.updatable.Follows (Served.protocol told) (fun g s' => s' = s ∧ Updates db s g) E s := by
  have hinfo : Generation.activeInfo?.Follows (Served.protocol told) (fun i s' => s' = s ∧
      ∀ x ∈ i, ∃ a, (s.get? Key.active.encode).bind Generation.parse? = some a ∧
        (s.get? (Key.info a).encode).bind GenerationInfo.ofBytes? = some x)
      (fun e => E (.storage e)) s := by
    refine Failing.Follows.bind (m := fun p s' => s' = s ∧ Generation.Reads p ∧
      s.get? Key.active.encode = p.map (·.2))
      (Served.follows_number (fun p hp hget => ⟨rfl, hp, hget⟩) fun _ => hfailed _) ?_
    rintro active s ⟨rfl, hreads, hactive⟩
    split
    · next a b =>
      have ha : (s.get? Key.active.encode).bind Generation.parse? = some a := by
        rw [hactive]
        exact hreads (a, b) rfl
      refine Failing.Follows.bind (m := fun v s' => s' = s ∧ v = s.get? (Key.info a).encode)
        (Served.follows_get ⟨rfl, rfl⟩ fun _ => hfailed _) ?_
      rintro _ s ⟨rfl, rfl⟩
      cases hv : s.get? (Key.info a).encode with
      | none =>
        refine ⟨rfl, ?_⟩
        rintro _ ⟨⟩
      | some b =>
        cases hi : GenerationInfo.ofBytes? b with
        | none =>
          simp only [hi]
          exact hfailed _
        | some i =>
          simp only [hi]
          refine ⟨rfl, ?_⟩
          rintro _ ⟨⟩
          exact ⟨a, ha, by rw [hv, Option.bind_some, hi]⟩
    · refine ⟨rfl, ?_⟩
      rintro _ ⟨⟩
  refine Failing.Follows.bind (follows_storage hinfo) ?_
  rintro i s ⟨rfl, hi⟩
  split
  · next i =>
    split
    · next hversion =>
      obtain ⟨a, ha, hread⟩ := hi i rfl
      exact ⟨rfl, a, i, ha, hread, hversion, rfl⟩
    · exact hfailed _
  · exact hfailed _

/-- **An update is a walk through its paths**, each once, or through the first of them. One that
fails before has changed nothing. -/
theorem follows_walk {paths : List String} : (db.update paths).Follows (Served.protocol told)
    (fun report s' => ∃ os, Updates db s report.generation ∧
      Walk db told report.generation paths.eraseDups s os s' ∧
        Report.Counts { generation := report.generation } report os)
    (fun _ s' => s' = s ∨ ∃ g walked os, Updates db s g ∧ walked <+: paths.eraseDups ∧
      Walk db told g walked s os s') s := by
  refine Failing.Follows.bind (m := fun _ s' => s' = s) (follows_storage ?_) ?_
  · refine Failing.Follows.bind (m := fun _ s' => s' = s)
      (Served.follows_get rfl fun _ => Or.inl rfl) ?_
    rintro v s rfl
    exact Failing.Follows.lift follows_liveIn?
  rintro held s rfl
  split
  · exact Or.inl rfl
  · refine Failing.Follows.bind (follows_updates fun _ => Or.inl rfl) ?_
    rintro g s ⟨rfl, hg⟩
    refine follows_walkAll.mono ?_ ?_
    · rintro report s' ⟨os, hwalk, hcounts⟩
      obtain rfl : report.generation = g := hcounts.generation
      exact ⟨os, hg, hwalk, hcounts⟩
    · rintro _ s' ⟨walked, os, hwalked, hwalk⟩
      exact Or.inr ⟨g, walked, os, hg, hwalked, hwalk⟩

/-- An update gets to its paths if no lock is held and the active generation was built with the graph
of the database. -/
theorem completes_update {i : GenerationInfo} {outcome : Except IndexError Report}
    (htold : ∀ key r, told ⟨.get key, r⟩) (hlock : s.get? Key.lock.encode = none)
    (hactive : s.get? Key.active.encode = some g.toBytes)
    (hinfo : s.get? (Key.info g).encode = some i.toBytes) (hgeneration : i.generation = g)
    (hversion : i.graphVersion = db.graph.version)
    (h : (db.updateAll g ps.eraseDups { generation := g }).run.Completes told s outcome s') :
    (db.update ps).run.Completes told s outcome s' := by
  have hlive : (Lock.live? db.settings.lockSeconds).run.Completes told s (.ok none) s := by
    refine Failing.completes_bind (Storage.completes_get (htold _)) ?_
    rw [hlock]
    exact .done _ _
  have hnumber : (Generation.stored? .active).run.Completes told s (.ok (some (g, g.toBytes)))
      s := by
    rw [Generation.run_stored?]
    refine .ask (.answers (.get _)) (htold _ _) ?_
    rw [hactive, Generation.told, Generation.ofStored, Generation.parse?_toBytes]
    exact .done _ _
  have hinformed : (Generation.info? g).run.Completes told s (.ok (some i)) s := by
    obtain ⟨b, hb, hi⟩ : ∃ b, s.get? (Key.info g).encode = some b ∧
      GenerationInfo.ofBytes? b = some i := ⟨_, hinfo, GenerationInfo.ofBytes?_toBytes i⟩
    refine Failing.completes_bind (Storage.completes_get (htold _)) ?_
    rw [hb]
    simp only [hi]
    exact .done _ _
  have hupdatable : db.updatable.run.Completes told s (.ok g) s := by
    refine Failing.completes_bind
      (Failing.completes_storage (Failing.completes_bind hnumber hinformed)) ?_
    generalize db.graph.version = version at hversion
    show Program.Completes _ (ExceptT.run (if i.graphVersion = version then _ else _)) _ _ _
    rw [if_pos hversion, hgeneration]
    exact .done _ _
  exact Failing.completes_bind (Failing.completes_storage hlive)
    (Failing.completes_bind hupdatable h)

end Update

/-! ### Records under the keys of their documents -/

/-- What is read under the key of a document of the graph is a record of the document, and what is in
its keys has no zero. -/
def Store.Filed (s : Store) (g : Generation) (G : Graph) : Prop :=
  ∀ c ∈ G.collections, ∀ p, ∀ r ∈ s.record? g c.name p,
    r.collection = c.name ∧ r.path = p ∧ G.Locates r

/-- The record that is read under the key of a document is the one that is stored there. -/
theorem Store.eq_record?_of_ofStored? {s : Store} {g : Generation} {name p : String}
    {old : Option Record} (h : Record.ofStored? (Key.document g name p).encode
      (s.get? (Key.document g name p).encode) = .ok old) : old = s.record? g name p := by
  rw [Store.record?]
  cases hv : s.get? (Key.document g name p).encode with
  | none =>
    rw [hv] at h
    cases h
    rfl
  | some v =>
    rw [hv, Record.ofStored?] at h
    rw [Option.bind_some]
    split at h
    · next r hr =>
      cases h
      exact hr.symm
    · cases h

namespace Update

variable {db : Database} {told : Exchange → Prop} {g : Generation} {c : Graph.Collection}
  {p : String} {ps : List String} {os : List (String × Outcome)} {o : Outcome}
  {old new : Option Record} {content : Except SourceError Bytes} {s s' : Store} {k : Bytes}

/-- The record that is put in the place of another one is that of the content. -/
theorem exists_of_change (h : (db.change c p old content).2.2 = some new) :
    ∀ r ∈ new, ∃ b ws, content = .ok b ∧ db.record c p b = .ok (r, ws) := by
  rintro r rfl
  unfold Database.change at h
  split at h
  · split at h <;> cases h
  · cases h
  · next b =>
    split at h
    · cases h
    · split at h
      · next r' ws hr =>
        cases h
        exact ⟨b, ws, rfl, hr⟩
      · cases h

section Frames

variable (hG : db.graph.IsCompiled)
  (hzero : ∀ p b, told ⟨.content p, .ok b⟩ → ZeroFree p) (hfiled : s.Filed g db.graph)
include hG hfiled

omit hG in
/-- The record that a path has when it is treated is one of the document. -/
theorem Treats.locates_old (hc : c ∈ db.graph.collections) (h : Treats db told g c p old content s s') :
    ∀ r ∈ old, r.collection = c.name ∧ r.path = p ∧ db.graph.Locates r := by
  intro r hr
  rw [Store.eq_record?_of_ofStored? h.read] at hr
  exact hfiled c hc p r hr

include hzero

omit hfiled in
/-- The record that a path gets is one of the document. -/
theorem Treats.locates_new (hc : c ∈ db.graph.collections) (h : Treats db told g c p old content s s')
    (hnew : (db.change c p old content).2.2 = some new) :
    ∀ r ∈ new, r.collection = c.name ∧ r.path = p ∧ db.graph.Locates r := by
  intro r hr
  obtain ⟨b, ws, rfl, hrecord⟩ := exists_of_change hnew r hr
  obtain ⟨hname, hpath, -⟩ := Database.eq_of_record hrecord
  refine ⟨hname, hpath, ?_, Database.fields_zeroFree_of_record hG hc hrecord, c, hc, hname⟩
  rw [hpath]
  exact hzero p b h.told

/-- What is stored after a path has been treated, key by key. -/
theorem Treats.get?_eq (hc : c ∈ db.graph.collections) (h : Treats db told g c p old content s s')
    (hnew : (db.change c p old content).2.2 = some new) (k : Bytes) :
    s'.get? k = (Entries.find? k (db.graph.entriesOf g new)).or
      (if k ∈ (db.graph.entriesOf g old).map (·.1) then none else s.get? k) := by
  have hentries {r : Option Record} (hr : ∀ x ∈ r, x.collection = c.name) :
      entriesOf g c r = db.graph.entriesOf g r := Database.entriesOf_eq hG hc hr
  rw [h.left, hnew, result, hentries fun x hx => (h.locates_old hfiled hc x hx).1,
    hentries fun x hx => (h.locates_new hG hzero hc hnew x hx).1]
  exact Store.get?_replacement s _ (db.graph.sorted_entriesOf g new) k

/-- What does not belong to the document is kept. -/
theorem Treats.get?_of_not_owned (hc : c ∈ db.graph.collections)
    (h : Treats db told g c p old content s s') (hk : ZeroFree p → ¬ Key.Owned g c.name p k) :
    s'.get? k = s.get? k := by
  cases hresult : (db.change c p old content).2.2 with
  | none => rw [h.left, hresult, result]
  | some new =>
    -- no record of the document has an entry under the key
    have hnot {r : Option Record}
        (hr : ∀ x ∈ r, x.collection = c.name ∧ x.path = p ∧ db.graph.Locates x) (v : Bytes) :
        (k, v) ∉ db.graph.entriesOf g r := by
      intro hmem
      obtain ⟨x, hx, hmem⟩ := Graph.mem_entriesOf.mp hmem
      obtain ⟨hname, rfl, hlocates⟩ := hr x hx
      exact hk hlocates.path (hname ▸ Graph.owned_of_mem_entries hG hlocates hmem)
    have hfind : Entries.find? k (db.graph.entriesOf g new) = none := by
      refine Option.eq_none_iff_forall_ne_some.mpr fun v hv => ?_
      exact hnot (h.locates_new hG hzero hc hresult) v
        ((Entries.find?_eq_some_iff (db.graph.sorted_entriesOf g new)).mp hv)
    rw [h.get?_eq hG hzero hfiled hc hresult, hfind, Option.none_or, if_neg]
    rintro hmem
    obtain ⟨x, hx, rfl⟩ := List.mem_map.mp hmem
    exact hnot (h.locates_old hfiled hc) x.2 hx

/-- A path that is treated leaves records under the keys of their documents. -/
theorem Treats.filed (hc : c ∈ db.graph.collections)
    (h : Treats db told g c p old content s s') : s'.Filed g db.graph := by
  intro d hd q r hr
  obtain ⟨v, hv, hread⟩ := Option.bind_eq_some_iff.mp hr
  cases hresult : (db.change c p old content).2.2 with
  | none =>
    rw [h.left, hresult, result] at hv
    exact hfiled d hd q r (Option.bind_eq_some_iff.mpr ⟨v, hv, hread⟩)
  | some new =>
    rw [h.get?_eq hG hzero hfiled hc hresult, Option.or_eq_some_iff] at hv
    rcases hv with hv | ⟨-, hv⟩
    · obtain ⟨x, hx, hmem⟩ := Graph.mem_entriesOf.mp
        ((Entries.find?_eq_some_iff (db.graph.sorted_entriesOf g new)).mp hv)
      obtain ⟨-, -, hlocates⟩ := h.locates_new hG hzero hc hresult x hx
      obtain ⟨hname, hpath, rfl⟩ := Store.eq_of_document hG hlocates hmem
      -- what is read of the new record may differ from it in its numbers only
      obtain ⟨b, ws, -, hrecord⟩ := exists_of_change hresult x hx
      have hresembles := Record.resembles_of_ofBytes? hread (Database.ordered_of_record hG hc hrecord)
      refine ⟨hresembles.collection.trans hname, hresembles.path.trans hpath, ?_, ?_, ?_⟩
      · exact hresembles.path ▸ hlocates.path
      · exact hresembles.references ▸ hlocates.fields
      · exact hresembles.collection ▸ hlocates.collection
    · split at hv
      · cases hv
      · exact hfiled d hd q r (Option.bind_eq_some_iff.mpr ⟨v, hv, hread⟩)

/-- **What belongs to no document of the paths is kept.** -/
theorem Walk.get?_eq (h : Walk db told g ps s os s')
    (hk : ∀ p ∈ ps, ∀ c, db.graph.owner? p = some c → ZeroFree p → ¬ Key.Owned g c.name p k) :
    s'.get? k = s.get? k := by
  induction h with
  | done s => rfl
  | unowned howner rest ih => exact ih hfiled fun p hp => hk p (List.mem_cons_of_mem _ hp)
  | treated howner h rest ih =>
    have hc := Graph.mem_of_owner? howner
    rw [ih (h.filed hG hzero hfiled hc) fun p hp => hk p (List.mem_cons_of_mem _ hp)]
    exact h.get?_of_not_owned hG hzero hfiled hc (hk _ (List.mem_cons_self ..) _ howner)

/-- **What becomes of a path does not depend on the other ones.** When it is treated, what belongs to
its document is as it was at the beginning, and then it stays as it is. -/
theorem Walk.exists_treats (h : Walk db told g ps s os s') (hnodup : ps.Nodup) (ho : (p, o) ∈ os) :
    ∃ c old content t t', db.graph.owner? p = some c ∧ Treats db told g c p old content t t' ∧
      t.Filed g db.graph ∧ o = (db.change c p old content).1 ∧ (ZeroFree p → ∀ k, Key.Owned g c.name p k →
        t.get? k = s.get? k ∧ s'.get? k = t'.get? k) := by
  -- a document of another path has no key in common with that of `p`
  have hne {p q : String} {c d : Graph.Collection} (hne : q ≠ p)
      (hc : db.graph.owner? p = some c) (hd : db.graph.owner? q = some d) (hp : ZeroFree p) {k : Bytes}
      (hk : Key.Owned g c.name p k) (hq : ZeroFree q) : ¬ Key.Owned g d.name q k := by
    intro hk'
    have hname {c : Graph.Collection} {p : String} (hc : db.graph.owner? p = some c) :
        ZeroFree c.name := (hG.names.1 c (Graph.mem_of_owner? hc)).1
    exact hne (hk.unique (hname hc) (hname hd) hp hq hk').2.symm
  induction h with
  | done s => cases ho
  | unowned howner rest ih => exact ih hfiled (List.nodup_cons.mp hnodup).2 ho
  | @treated q ps os d old content s s' s'' howner h rest ih =>
    obtain ⟨hq, hnodup⟩ := List.nodup_cons.mp hnodup
    have hd := Graph.mem_of_owner? howner
    have hfiled' := h.filed hG hzero hfiled hd
    rcases List.mem_cons.mp ho with heq | ho
    · obtain ⟨rfl, rfl⟩ := Prod.mk.inj heq
      refine ⟨d, old, content, s, s', howner, h, hfiled, rfl, fun hp k hk => ⟨rfl, ?_⟩⟩
      refine rest.get?_eq hG hzero hfiled' fun q' hq' d' hd' => ?_
      have hqq : q' ≠ p := fun heq => hq (heq ▸ hq')
      exact hne hqq howner hd' hp hk
    · obtain ⟨c, old', content', t, t', hc, ht, hfiled'', hout, hsame⟩ := ih hfiled' hnodup ho
      refine ⟨c, old', content', t, t', hc, ht, hfiled'', hout, fun hp k hk => ?_⟩
      obtain ⟨hbefore, hafter⟩ := hsame hp k hk
      refine ⟨hbefore.trans (h.get?_of_not_owned hG hzero hfiled hd ?_), hafter⟩
      have hpq : q ≠ p := by
        rintro rfl
        exact hq (rest.mem_paths ho)
      exact hne hpq hc howner hp hk

end Frames

end Update

end ContentIndex
