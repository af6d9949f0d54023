import ContentIndex.Proofs.Outline
import ContentIndex.Proofs.StoredDocuments

/-!
# Updates that run at the same time

Updates that run at the same time write into one generation, each batch guarded by the bytes of the
record that it replaces. A guard of bytes does not tell whether a record has been written again
meanwhile, nor does it keep another process from relying on the record. So an update may read an
older content and write its record after another update has found the last content and had nothing
to write. Apart from that, updates that all succeed leave the record of the last content.

## Main definitions

* `Update.Overtakes`: a record that was already right is replaced by one of an older content

## Main results

* `Database.Tells.account`: the history of an update that succeeds is one of visits to the index
* `Update.overtakes_of_departure`: who takes a document from the record that it had overtakes
* `Database.converges_iff_not_overtakes`: **the record of the last content is stored unless an update
  overtakes**
-/

namespace ContentIndex

open Update (Account)

variable {ι : Type} {db : Database} {U : Set Bytes} {s : Store} {g : Generation} {D : Set Record}
  {trace : Trace ι} {c : Graph.Collection} {p : String} {right : Option Bytes}

/-! ### Who overtakes -/

namespace Update

/-- A record that was already right is replaced by one of another content: an update was told of the
record, then it read the content, and then it replaced the record, and nobody has written the record
again. -/
def Overtakes (db : Database) (g : Generation) (c : Graph.Collection) (p : String)
    (right : Option Bytes) (trace : Trace ι) : Prop :=
  ∃ i x b before between later after,
    trace = before ++ (i, ⟨.get (Key.document g c.name p).encode, .ok right⟩) :: between ++
      (i, ⟨.content p, x⟩) :: later ++ (i, ⟨.write b, .ok ()⟩) :: after ∧
    b.effect? (Key.document g c.name p).encode = some (db.shown c p x) ∧
    db.shown c p x ≠ right ∧ right ∉ written after (Key.document g c.name p).encode

/-- Who is overtaken does not keep the record. -/
theorem Overtakes.valueAfter_ne (h : Overtakes db g c p right trace) :
    s.valueAfter trace (Key.document g c.name p).encode ≠ right := by
  obtain ⟨i, x, b, before, between, later, after, rfl, heffect, hne, hnot⟩ := h
  rw [List.append_cons, Store.valueAfter_append]
  cases hlast : (written after (Key.document g c.name p).encode).getLast? with
  | none =>
    rw [Option.getD_none, Store.valueAfter, written_concat, Exchange.effect?_write, heffect]
    simpa using hne
  | some y =>
    rw [Option.getD_some]
    rintro rfl
    exact hnot (List.mem_of_getLast? hlast)

variable [DecidableEq ι] {α : Type} {programs : ι → Program α} {w : World ι α} {i : ι}

/-- What a visit reads, in the trace of a run. -/
theorem exists_of_visit {h : List Exchange} {v : Visit}
    (hhistory : history i trace = h ++ [v.lookup g, v.reading]) :
    ∃ before between later, trace = before ++ (i, v.lookup g) :: between ++
      (i, v.reading) :: later := by
  have hsplit : history i trace = (h ++ [v.lookup g]) ++ [v.reading] := by
    simp [hhistory]
  obtain ⟨t, later, rfl, hlookup, -⟩ := exists_of_history_concat hsplit
  obtain ⟨before, between, rfl, -, -⟩ := exists_of_history_concat hlookup
  exact ⟨before, between, later, by simp⟩

/-- **Who takes a document from the record that it had overtakes.** -/
theorem overtakes_of_departure (hG : db.graph.IsCompiled) (run : Interleaving programs s trace w)
    (hgenuine : db.StaysGenuine U g s trace) (haccount : Account db g ∅ (history i trace))
    (howner : db.graph.owner? p = some c) {before after : Trace ι} {e : Exchange}
    {x : Option Bytes} (htrace : trace = before ++ (i, e) :: after)
    (hat : s.valueAfter before (Key.document g c.name p).encode = right)
    (heffect : e.effect? (Key.document g c.name p).encode = some x) (hne : x ≠ right)
    (hnot : right ∉ written after (Key.document g c.name p).encode) :
    Overtakes db g c p right trace := by
  obtain ⟨v, pre, new, rfl, rfl, rfl, hhistory, hstored, rfl⟩ :=
    exists_visit_of_effect? hG run hgenuine haccount howner htrace heffect
  obtain ⟨t, between, later, rfl⟩ := exists_of_visit hhistory
  -- the record that the visit was told of is the one that was right
  obtain rfl : v.stored = right := hstored.symm.trans hat
  exact ⟨i, v.content, v.batch g new, t, between, later, after, htrace, heffect, hne, hnot⟩

end Update

/-! ### Updates of an index -/

variable [DecidableEq ι] {paths : ι → List String} {w : World ι (Except IndexError Report)} {i : ι}

namespace Database.Tells

/-- What is stored of a document was made of one of the contents. -/
theorem genuine (hG : db.graph.IsCompiled) (h : db.Tells U s g D)
    (hc : c ∈ db.graph.collections) :
    db.Genuine U c p (s.get? (Key.document g c.name p).encode) := by
  intro b hb
  obtain ⟨r, hr, hname, rfl, rfl⟩ := (h.get?_document_eq_some_iff hG).mp hb
  obtain ⟨-, col, hcol, content, hused, ws, hrecord⟩ := h.makes r hr
  -- collections have different names
  obtain rfl : col = c := by
    have hfound := hG.collection?_eq hcol
    rw [← (eq_of_record hrecord).1, hname, hG.collection?_eq hc] at hfound
    exact (Option.some.inj hfound).symm
  exact ⟨content, hused, shown_of_record hrecord⟩

/-- An update of an index is told which generation it has. -/
theorem eq_of_informed {s' : Store} {D' : Set Record} {a v : Bytes} {b g' : Generation}
    {i : GenerationInfo} (h : db.Tells U s g D) (ha : s.get? Key.active.encode = some a)
    (hparse : Generation.parse? a = some b) (h' : db.Tells U s' g D')
    (hv : s'.get? (Key.info b).encode = some v) (hread : GenerationInfo.ofBytes? v = some i)
    (hgeneration : i.generation = g') : g' = g := by
  obtain rfl : a = g.toBytes := Option.some.inj (ha.symm.trans h.presents.active)
  rw [Generation.parse?_toBytes] at hparse
  obtain rfl := Option.some.inj hparse
  obtain ⟨i', hi', hnamed⟩ := h'.named
  have hbytes : v = i'.toBytes := Option.some.inj (hv.symm.trans hi')
  have hread' : GenerationInfo.ofBytes? v = some i' := by
    rw [hbytes, GenerationInfo.ofBytes?_toBytes]
  obtain rfl := Option.some.inj (hread.symm.trans hread')
  exact hgeneration.symm.trans hnamed

variable (hG : db.graph.IsCompiled) (h : db.Tells U s g D)
  (run : Interleaving (fun i => (db.update (paths i)).run) s trace w)
  (hsource : ∀ x ∈ trace, ∀ p b, x.2 = ⟨.content p, .ok b⟩ → Text.ZeroFree p ∧ b ∈ U)
include hG h run hsource

omit run in
/-- At each moment of a run the index has the outlines of records. -/
theorem at_prefix {u u' : Trace ι} {w' : World ι (Except IndexError Report)}
    (run : Interleaving (fun i => (db.update (paths i)).run) s u w') (htrace : trace = u ++ u') :
    ∃ D', db.Tells U w'.store g D' :=
  h.exists_of_interleaving hG run fun x hx =>
    hsource x (htrace ▸ List.mem_append_left _ hx)

theorem staysGenuine : db.StaysGenuine U g s trace := by
  intro u u' htrace c hc p
  obtain ⟨w', run'⟩ := (htrace ▸ run).exists_of_append
  obtain ⟨D', htells⟩ := h.at_prefix hG hsource run' htrace
  rw [← run'.get?_eq_valueAfter]
  exact htells.genuine hG hc

/-- The history of an update that succeeds is one of visits to the generation of the index. -/
theorem account (hok : ∃ report, w.left i = .done (.ok report)) :
    Account db g ∅ (history i trace) := by
  obtain ⟨report, hdone⟩ := hok
  obtain ⟨⟨first, hfirst, -, a, b, info, v, ha, hparse, hv, hread, hgeneration⟩, haccount⟩ :=
    History.of_done run (Update.follows_accounted db (paths i)) hdone
  have htold {key v : Bytes} (hmem : ⟨.get key, .ok (some v)⟩ ∈ first) :
      ∃ s' D', db.Tells U s' g D' ∧ s'.get? key = some v := by
    obtain ⟨u, u', htrace⟩ := List.append_of_mem (mem_history_iff.mp (hfirst.subset hmem))
    obtain ⟨w', _, run', _, hanswer⟩ := (htrace ▸ run).exists_at
    obtain ⟨D', htells⟩ := h.at_prefix hG hsource run' htrace
    exact ⟨_, D', htells, hanswer.reply_eq_get?.symm⟩
  obtain ⟨s₁, D₁, h₁, hactive⟩ := htold ha
  obtain ⟨s₂, D₂, h₂, hinfo⟩ := htold hv
  exact h₁.eq_of_informed hactive hparse h₂ hinfo hread hgeneration ▸ haccount

end Database.Tells

/-- **The record of the last content is stored unless an update overtakes.** Updates run in turns on
an index that was built by rebuilds and updates, and all succeed. After the last reading of the
content of a document, its record is stored in the end, or none if there is none, if and only if no
update has replaced that record by the one of another content, for good. -/
theorem Database.converges_iff_not_overtakes (hG : db.graph.IsCompiled)
    (hsha : Set.InjOn Sha256.hex U) (hs : db.Built U s)
    (hactive : s.get? Key.active.encode = some g.toBytes)
    (run : Interleaving (fun i => (db.update (paths i)).run) s trace w)
    (hok : ∀ i, ∃ report, w.left i = .done (.ok report))
    (hsource : ∀ x ∈ trace, ∀ p b, x.2 = ⟨.content p, .ok b⟩ → Text.ZeroFree p ∧ b ∈ U)
    (howner : db.graph.owner? p = some c) {before after : Trace ι}
    {content : Except SourceError Bytes}
    (htrace : trace = before ++ (i, ⟨.content p, content⟩) :: after)
    (hlast : ∀ j x, (j, ⟨.content p, x⟩) ∉ after)
    (hread : ∀ e, content = .error e → e.IsAbsence) :
    w.store.get? (Key.document g c.name p).encode = db.shown c p content ↔
      ¬ Update.Overtakes db g c p (db.shown c p content) trace := by
  obtain ⟨g', D, htells⟩ := hs.exists_tells hG
  obtain rfl : g = g' :=
    Generation.toBytes_injective (Option.some.inj (hactive.symm.trans htells.presents.active))
  have haccount (j : ι) := htells.account hG run hsource (hok j)
  have hgenuine := htells.staysGenuine hG run hsource
  have hused : ∀ b, content = .ok b → b ∈ U := by
    rintro b rfl
    exact (hsource _ (htrace ▸ List.mem_append_right _ (List.mem_cons_self ..)) p b rfl).2
  rw [run.get?_eq_valueAfter]
  constructor
  · exact fun hshown hovertakes => hovertakes.valueAfter_ne hshown
  · intro hnot
    obtain ⟨u, u', rfl, hat, -⟩ := Update.exists_shown hG hsha run hgenuine (haccount i) howner
      htrace (hlast i) hused hread
    by_contra hne
    obtain ⟨v, j, e, v', x, rfl, hleft, heffect, hx, hafter⟩ := exists_last_departure hat hne
    exact hnot (Update.overtakes_of_departure hG run hgenuine (haccount j) howner
      (List.append_assoc ..).symm hleft heffect hx hafter)

/-! ### A note that comes and goes -/

namespace Database

namespace Fleeting

open Upkeep (undone)

/-- The index of no notes at all. -/
@[irreducible] def bareStore : Store :=
  (notebook.rebuild 4).leaves OrderedMap.empty 0 OrderedMap.empty

theorem bareStore_succeeds : ∃ report,
    (notebook.rebuild 4).Succeeds OrderedMap.empty OrderedMap.empty report bareStore := by
  unfold bareStore
  exact Failing.exists_succeeds 0 (by rfl)

theorem bareStore_built : notebook.Built {undone} bareStore := by
  obtain ⟨report, h⟩ := bareStore_succeeds
  have hsource : ∀ p b, (OrderedMap.empty : Source.Files).get? p = some b →
      Text.ZeroFree p ∧ b ∈ ({undone} : Set Bytes) :=
    fun p b hb => nomatch (show none = some b from hb)
  exact .rebuild Store.reachable_empty hsource h

theorem bareStore_active : bareStore.get? Key.active.encode = some (Generation.toBytes 1) := by
  unfold bareStore
  decide

/-- The lock is free, and the information on the generation is that of a first rebuild. -/
theorem bareStore_info : bareStore.get? Key.lock.encode = none ∧ ∃ i : GenerationInfo,
    bareStore.get? (Key.info 1).encode = some i.toBytes ∧ i.generation = 1 ∧
      i.graphVersion = notebook.graph.version ∧ i.previous = none := by
  obtain ⟨report, h⟩ := bareStore_succeeds
  obtain ⟨-, -, ⟨previous, -, hprevious, hinfo⟩, hactive, hlock⟩ := Failing.Gives.of_succeeds
    (Rebuild.gives_rebuild notebook_compiled 4 Store.reachable_empty.nextFree) h
  have hone : report.generation = 1 :=
    Generation.toBytes_injective (Option.some.inj (hactive.symm.trans bareStore_active))
  have hnone : previous = none :=
    Option.map_eq_none_iff.mp (hprevious.symm.trans (show OrderedMap.empty.get? _ = none from rfl))
  rw [hone] at hinfo
  exact ⟨hlock, _, hinfo, rfl, rfl, by rw [hnone]; rfl⟩

/-- Two updates that have got to the note. -/
def arrived : Play Bool (Except IndexError Report) :=
  ⟨[], ⟨bareStore, .files OrderedMap.empty, 0, 0, false⟩,
    fun _ => (notebook.updateAll 1 ["notes/a.json"].eraseDups { generation := 1 }).run⟩

theorem exists_arrived : ∃ trace : Trace Bool,
    Interleaving (fun _ => (notebook.update ["notes/a.json"]).run) bareStore trace arrived.world ∧
      ∀ x ∈ trace, Source.Files.Answers OrderedMap.empty x.2 := by
  obtain ⟨hlock, i, hinfo, hgeneration, hversion, -⟩ := bareStore_info
  have hstart : Interleaving (fun _ : Bool => (notebook.update ["notes/a.json"]).run) bareStore []
      ⟨bareStore, fun _ => (notebook.update ["notes/a.json"]).run⟩ := .start
  obtain ⟨t, run₁, ht⟩ :=
    exists_updating (i := false) hstart rfl hlock bareStore_active hinfo hgeneration hversion
  obtain ⟨t', run₂, ht'⟩ :=
    exists_updating (i := true) run₁ rfl hlock bareStore_active hinfo hgeneration hversion
  have hleft : arrived.left = Function.update (Function.update
      (fun _ => (notebook.update ["notes/a.json"]).run) false (arrived.left false)) true
        (arrived.left true) := by
    funext i
    cases i <;> rfl
  refine ⟨[] ++ t ++ t', ?_, fun x hx => ?_⟩
  · rw [Play.world, hleft]
    exact run₂
  · rcases List.mem_append.mp hx with hx | hx
    · exact (ht x hx).2
    · exact (ht' x hx).2

/-- The second update finds that no record is stored. The note comes, the first one writes its
record, and the note goes again. -/
def turns : List (Turn Bool) :=
  .replicate 2 (.asks true) ++ [.source (note "false")] ++ .replicate 4 (.asks false) ++
    [.source (.files OrderedMap.empty)]

/-- The two updates after that. -/
@[irreducible] def waiting : Play Bool (Except IndexError Report) := arrived.go turns

/-- The second update still has to read that there is no note, and then it has nothing to do. -/
theorem facts : (waiting.left true).reads? = some "notes/a.json" ∧
    waiting.host.source.get "notes/a.json" = .error (.notFound "notes/a.json") ∧
    (∀ x ∈ waiting.trace, ∀ y ∈ x.2.content?, Text.ZeroFree y.1 ∧ y.2 = undone) ∧
    (∀ i, ((waiting.turn (.asks true)).left i).success?.isSome) ∧
    (waiting.turn (.asks true)).host.store.get? (Key.document 1 "notes" "notes/a.json").encode ≠
      none := by
  unfold waiting arrived bareStore
  decide +kernel

theorem noteOwner : notebook.graph.owner? "notes/a.json" = some notes := by
  rfl

/-- In the end a record is stored of the note, though the last reading has told that there is
none. -/
theorem exists_run : ∃ (before : Trace Bool) (w : World Bool (Except IndexError Report)),
    Interleaving (fun _ => (notebook.update ["notes/a.json"]).run) bareStore
      (before ++ [(true, ⟨.content "notes/a.json", .error (.notFound "notes/a.json")⟩)]) w ∧
    (∀ i, ∃ report, w.left i = .done (.ok report)) ∧
    (∀ x ∈ before, ∀ p b, x.2 = ⟨.content p, .ok b⟩ → Text.ZeroFree p ∧ b = undone) ∧
    w.store.get? (Key.document 1 "notes" "notes/a.json").encode ≠ none := by
  obtain ⟨hnext, hreply, hcontents, hdone, hstored⟩ := facts
  obtain ⟨t, run, ht⟩ := exists_arrived
  have hwaiting : Interleaving (fun _ => (notebook.update ["notes/a.json"]).run) bareStore
      (t ++ waiting.trace) waiting.world := by
    unfold waiting
    exact Play.interleaving_resume run turns
  have hrun := Play.interleaving_reads hwaiting hnext
  rw [hreply] at hrun
  refine ⟨t ++ waiting.trace, _, hrun, fun i => ?_, fun x hx p b heq => ?_, hstored⟩
  · obtain ⟨report, hreport⟩ := Option.isSome_iff_exists.mp (hdone i)
    exact ⟨report, Program.success?_eq_some_iff.mp hreport⟩
  · rcases List.mem_append.mp hx with hx | hx
    · -- no note is read before the two updates have got to it
      have hnone := ht x hx
      rw [heq] at hnone
      cases hnone
    · exact hcontents x hx (p, b) (by rw [heq]; rfl)

end Fleeting

/-- The second of the two updates is overtaken by the first one. -/
theorem converges_iff_not_overtakes_fleeting :
    ∃ (before : Trace Bool) (w : World Bool (Except IndexError Report)),
      Interleaving (fun _ => (notebook.update ["notes/a.json"]).run) Fleeting.bareStore
        (before ++ [(true, ⟨.content "notes/a.json", .error (.notFound "notes/a.json")⟩)]) w ∧
      Update.Overtakes notebook 1 notes "notes/a.json" none
        (before ++ [(true, ⟨.content "notes/a.json", .error (.notFound "notes/a.json")⟩)]) := by
  obtain ⟨before, w, run, hok, hsource, hstored⟩ := Fleeting.exists_run
  refine ⟨before, w, run, ?_⟩
  by_contra hnot
  refine hstored ((converges_iff_not_overtakes (U := {Upkeep.undone}) notebook_compiled
    (fun a ha b hb _ => ha.trans hb.symm) Fleeting.bareStore_built Fleeting.bareStore_active run hok
    ?_ Fleeting.noteOwner rfl nofun ?_).mpr hnot)
  · rintro x hx p b heq
    rcases List.mem_append.mp hx with hx | hx
    · exact hsource x hx p b heq
    · obtain rfl := List.mem_singleton.mp hx
      cases heq
  · rintro _ ⟨⟩
    trivial

/-- **Updates that all succeed may leave a record that is not that of the last content.** -/
theorem exists_not_converged : ∃ (db : Database) (U : Set Bytes) (s : Store) (g : Generation)
    (paths : Bool → List String) (before : Trace Bool) (w : World Bool (Except IndexError Report))
    (i : Bool) (c : Graph.Collection) (p : String) (content : Except SourceError Bytes),
    db.graph.IsCompiled ∧ Set.InjOn Sha256.hex U ∧ db.Built U s ∧
      s.get? Key.active.encode = some g.toBytes ∧
      Interleaving (fun i => (db.update (paths i)).run) s (before ++ [(i, ⟨.content p, content⟩)]) w ∧
      (∀ i, p ∈ paths i) ∧ (∀ i, ∃ report, w.left i = .done (.ok report)) ∧
      (∀ x ∈ before, ∀ p b, x.2 = ⟨.content p, .ok b⟩ → Text.ZeroFree p ∧ b ∈ U) ∧
      db.graph.owner? p = some c ∧ (∀ e, content = .error e → e.IsAbsence) ∧
      w.store.get? (Key.document g c.name p).encode ≠ db.shown c p content := by
  obtain ⟨before, w, run, hok, hsource, hstored⟩ := Fleeting.exists_run
  refine ⟨notebook, {Upkeep.undone}, Fleeting.bareStore, 1, fun _ => ["notes/a.json"], before, w, true,
    notes, "notes/a.json", _, notebook_compiled, fun a ha b hb _ => ha.trans hb.symm,
    Fleeting.bareStore_built, Fleeting.bareStore_active, run, fun _ => List.mem_singleton_self _, hok,
    hsource, Fleeting.noteOwner, ?_, hstored⟩
  rintro _ ⟨⟩
  trivial

end Database

end ContentIndex
