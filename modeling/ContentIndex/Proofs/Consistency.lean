import ContentIndex.Proofs.Exclusion
import ContentIndex.Proofs.Fingerprint
import ContentIndex.Proofs.Rewriting
import ContentIndex.Proofs.Runs
import ContentIndex.Proofs.Schedule

/-!
# Consistent indexes

Rebuilds and updates of databases whose graphs have one version share a store, and no lock is taken
over. The active generation is consistent at every moment, unless the rebuild that has swapped it in
has written a document twice and has left an entry of the first record behind. That may happen if
the source lists a path twice and its content changes in between.

## Main definitions

* `Run.Alike`: the graphs of runs index like one graph
* `Rebuild.Progress`: what a rebuild has written so far
* `ActiveHolds`: the active generation holds the entries of different documents

## Main results

* `progress_of_course`, `activeHolds_of_course`: the invariants hold in every run
* `consistent_iff_not_leavesBehind`: **the active generation is consistent unless something was left
  behind**
* `consistent_of_listsOnce`: nothing is left behind if listings name no path twice
-/

namespace ContentIndex

open Rebuild (Conditions Stage Work MetaCourse)

variable {ι : Type}

/-- Records are proper. -/
def Rebuild.Conditions.proper (distinct : Prop) : Conditions := ⟨distinct, fun _ r => r.Proper⟩

/-- The graphs of the runs index like a compiled graph. -/
structure Run.Alike (G : Graph) (runs : ι → Run) : Prop where
  /-- The graph is compiled. -/
  compiled : G.IsCompiled
  /-- Each collection of another graph has its like in it. -/
  alike : ∀ i, ∀ c ∈ (runs i).database.graph.collections, ∃ d ∈ G.collections, d.name = c.name ∧
    ∀ (r : Record) (n : Generation), r.entries n c = r.entries n d

variable {G : Graph} {runs : ι → Run} {distinct : Prop}

/-- A proper record of a collection of a run is a record of the graph. -/
theorem Run.Alike.admits (h : Run.Alike G runs) {i : ι} {c : Graph.Collection} {r : Record}
    (hc : c ∈ (runs i).database.graph.collections) (hname : r.collection = c.name)
    (hr : r.Proper) : G.Admits r := by
  obtain ⟨d, hd, hdname, -⟩ := h.alike i c hc
  exact ⟨hr, d, hd, hname.trans hdname.symm⟩

theorem Run.Alike.entries_eq (h : Run.Alike G runs) {i : ι} {c : Graph.Collection} {r : Record}
    (hc : c ∈ (runs i).database.graph.collections) (hname : r.collection = c.name)
    (n : Generation) : r.entries n c = G.entries n r := by
  obtain ⟨d, hd, hdname, hentries⟩ := h.alike i c hc
  rw [hentries, Graph.entries_eq h.compiled hd (hname.trans hdname.symm)]

variable [DecidableEq ι]

/-- The courses of runs. -/
abbrev RunCourse (runs : ι → Run) (c : Conditions) : Trace ι → Store → (ι → Stage) → Prop :=
  Course (fun i => ((runs i).protocol c).step) (fun _ => .idle) OrderedMap.empty

variable {trace : Trace ι} {s s' : Store} {stages : ι → Stage} {i j : ι} {e : Exchange}
  {stage : Stage} {c : Conditions} {g : Generation} {k : Bytes}

theorem RunCourse.metaCourse (course : RunCourse runs c trace s stages) :
    MetaCourse OrderedMap.empty trace s stages :=
  course.mono fun _ _ _ _ h => Run.metaStep h

/-- What is known of a run at each of its moments: locks exclude each other, and numbers are in
order. -/
structure Orderly (trace : Trace ι) (s : Store) (stages : ι → Stage) (n : Nat)
    (swapped : List Generation) : Prop where
  /-- One process at most holds the lock. -/
  exclusive : Rebuild.Exclusive s stages
  /-- Numbers are in order. -/
  numbering : Rebuild.Numbering trace stages n swapped
  /-- The active generation is the last that was swapped in. -/
  active : s.get? Key.active.encode = swapped.getLast?.map Generation.toBytes

theorem orderly_of_course (course : RunCourse runs c trace s stages)
    (htakeover : NoTakeover trace)
    (hcount : (written trace Key.counter.encode).length < 2 ^ 64 - 1) :
    ∃ n swapped, Orderly trace s stages n swapped := by
  obtain ⟨n, swapped, hn⟩ := Rebuild.numbering_of_course course.metaCourse hcount
  exact ⟨n, swapped, Rebuild.exclusive_of_course course.metaCourse htakeover, hn,
    Rebuild.get?_of_written course hn.active⟩

namespace Orderly

variable {n : Nat} {swapped : List Generation}

omit [DecidableEq ι]

/-- A rebuild that knows the active generation has a number above it. -/
theorem active_lt (h : Orderly trace s stages n swapped)
    (hg : s.get? Key.active.encode = some g.toBytes) {active : Option (Generation × Bytes)}
    (hactive : (stages i).active? = some active) {number : Generation}
    (hnumber : (stages i).number? = some number) :
    active.map (·.1) = some g ∧ g < number := by
  have hfound := h.exclusive.found i active hactive
  rw [hg] at hfound
  obtain ⟨p, rfl, hp⟩ := Option.map_eq_some_iff.mp hfound.symm
  obtain rfl : p.1 = g :=
    Generation.toBytes_injective ((h.numbering.found i p hactive).1.symm.trans hp)
  exact ⟨rfl, h.numbering.above i p number hactive hnumber⟩

end Orderly

/-! ### What others write -/

/-- The active generation has been handed out. -/
theorem toNat_le_of_active (course : RunCourse runs c trace s stages)
    (hcount : (written trace Key.counter.encode).length < 2 ^ 64 - 1)
    (hg : s.get? Key.active.encode = some g.toBytes) :
    g.toNat ≤ (written trace Key.counter.encode).length := by
  obtain ⟨n, swapped, h⟩ := Rebuild.numbering_of_course course.metaCourse hcount
  rw [Rebuild.get?_of_written course h.active] at hg
  obtain ⟨g', hg', heq⟩ := Option.map_eq_some_iff.mp hg
  obtain rfl := Generation.toBytes_injective heq
  rw [h.length_eq]
  exact h.counted g' (List.mem_of_getLast? hg')

/-- What is put into a generation has been put into one that was handed out. -/
theorem toNat_le_of_puts (course : RunCourse runs c trace s stages)
    (hcount : (written trace Key.counter.encode).length < 2 ^ 64 - 1) {x : ι × Exchange}
    (hx : x ∈ trace) (hk : Key.generationPrefix g <+: k) (hputs : x.2.Puts k) :
    g.toNat ≤ (written trace Key.counter.encode).length := by
  induction course with
  | start => cases hx
  | @next trace s s' stages j e stage course ha hstep ih =>
    rw [written_append, List.length_append] at hcount ⊢
    rcases List.mem_append.mp hx with hx | hx
    · exact Nat.le_add_right_of_le (ih (by omega) hx)
    · obtain rfl := List.mem_singleton.mp hx
      replace course : RunCourse runs c trace s stages := course
      refine Nat.le_add_right_of_le ?_
      obtain ⟨v, hv⟩ := hputs
      cases hj : runs j with
      | update db paths =>
        rw [hj] at hstep
        obtain ⟨g', hk', hactive⟩ := Update.Step.active_of_effect? hstep hv ha
        obtain rfl := Key.eq_of_generationPrefix hk hk'
        exact toNat_le_of_active course (by omega) hactive
      | rebuild db rounds =>
        rw [hj] at hstep
        rcases Rebuild.Step.cases_of_effect? hstep (Key.starts_of_generationPrefix hk) hv with
          ⟨_, -, -, hv, -⟩ | ⟨w, hw, hk', -⟩ | ⟨_, _, -, -, hv, -⟩
        · cases hv
        · obtain rfl := Key.eq_of_generationPrefix hk hk'
          obtain ⟨n, swapped, h⟩ := Rebuild.numbering_of_course course.metaCourse (by omega)
          rw [h.length_eq]
          exact h.number j _ (by rw [hw]; rfl)
        · cases hv

/-- Nothing is stored in a generation that has not been handed out. -/
theorem get?_eq_none_of_lt (course : RunCourse runs c trace s stages)
    (hcount : (written trace Key.counter.encode).length < 2 ^ 64 - 1)
    (hk : Key.generationPrefix g <+: k)
    (hg : (written trace Key.counter.encode).length < g.toNat) : s.get? k = none := by
  by_contra hne
  obtain ⟨v, hv⟩ := Option.ne_none_iff_exists'.mp hne
  obtain ⟨x, hx, heffect⟩ :=
    (eq_or_exists_of_written ((course.get?_eq k).symm.trans hv)).resolve_left nofun
  have := toNat_le_of_puts course hcount hx hk ⟨v, heffect⟩
  omega

namespace Orderly

variable {n : Nat} {swapped : List Generation} {db : Database}
  {active : Option (Generation × Bytes)}

omit [DecidableEq ι]

/-- An update writes nothing into the generation of a rebuild. -/
theorem effect?_of_update (h : Orderly trace s stages n swapped)
    (hactive : (stages i).active? = some active) (hnumber : (stages i).number? = some g)
    {stage stage' : Stage} (hstep : Update.Step db c stage e stage') (ha : s.Answers e s')
    (hk : Key.generationPrefix g <+: k) : e.effect? k = none := by
  by_contra hne
  obtain ⟨v, hv⟩ := Option.ne_none_iff_exists'.mp hne
  obtain ⟨g', hk', hg'⟩ := hstep.active_of_effect? hv ha
  obtain rfl := Key.eq_of_generationPrefix hk hk'
  exact Std.lt_irrefl (h.active_lt hg' hactive hnumber).2

/-- Another rebuild writes nothing inside of generations as long as a rebuild holds the lock. -/
theorem effect?_of_rebuild (h : Orderly trace s stages n swapped)
    (hlock : (stages i).lock?.isSome) (hij : j ≠ i) (hstep : Rebuild.Step db c (stages j) e stage)
    (hk : Key.generationsPrefix <+: k) : e.effect? k = none := by
  by_contra hne
  obtain ⟨v, hv⟩ := Option.ne_none_iff_exists'.mp hne
  have hj : (stages j).lock?.isSome := by
    rcases hstep.cases_of_effect? hk hv with ⟨w, hw, -⟩ | ⟨w, hw, -⟩ | ⟨l, g, hw, -⟩
    · rw [hw]
      rfl
    · rw [hw]
      rfl
    · rw [hw]
      rfl
  exact hij (h.exclusive.alone j i hj hlock)

/-- Nobody else swaps as long as a rebuild holds the lock. -/
theorem effect?_active_of_other (h : Orderly trace s stages n swapped)
    (hlock : (stages i).lock?.isSome) (hij : j ≠ i) (hstep : MetaStep (stages j) e stage) :
    e.effect? Key.active.encode = none := by
  by_contra hne
  obtain ⟨w, hw, -⟩ := Rebuild.swap_of_effect?_active hstep hne
  exact hij (h.exclusive.alone j i (by rw [hw]; rfl) hlock)

end Orderly

/-! ### What a rebuild has written -/

/-- The records that a rebuild has written. -/
def Rebuild.Work.written (w : Work) : List Record := w.records.map (·.2)

/-- The generation of a rebuild at work holds what the rebuild has written. -/
structure Rebuild.Underway (G : Graph) (distinct : Prop) (trace : Trace ι) (s : Store) (i : ι)
    (w : Work) : Prop where
  /-- The records are proper. -/
  admits : ∀ r ∈ w.written, G.Admits r
  /-- They were written one after another. -/
  settled : s.Settled w.number G w.written
  /-- That is seen in the trace. -/
  wrote : Wrote G i w.number trace w.written
  /-- They are of different documents, if listings name no path twice. -/
  once : distinct → (w.written.map (·.path)).Nodup

/-- How far a rebuild has come inside of the generations. -/
def Rebuild.Progress (G : Graph) (distinct : Prop) (trace : Trace ι) (s : Store) (i : ι) :
    Stage → Prop
  | .numbered w | .building w => Underway G distinct trace s i w
  | .complete w => Underway G distinct trace s i w ∧ s.get? (Key.info w.number).encode ≠ none
  | .dropping _ g => s.get? Key.active.encode ≠ some g.toBytes
  | _ => True

open Rebuild (Underway Progress)

omit [DecidableEq ι] in
/-- Nothing but records matters. -/
theorem Rebuild.Underway.concat {w w' : Work} (h : Underway G distinct trace s i w)
    (ha : s.Answers e s')
    (he : ∀ k, Key.generationPrefix w.number <+: k → k ≠ (Key.info w.number).encode →
      e.effect? k = none)
    (hnumber : w'.number = w.number) (hrecords : w'.records = w.records) :
    Underway G distinct (trace ++ [(j, e)]) s' i w' := by
  have hwritten : w'.written = w.written := congrArg (List.map _) hrecords
  constructor
  · rw [hwritten]
    exact h.admits
  · rw [hwritten, hnumber]
    exact h.settled.congr fun k hk hinfo => ha.get?_eq_of_effect? (he k hk hinfo)
  · rw [hwritten, hnumber]
    exact h.wrote.concat_other fun _ k hk hinfo => Exchange.not_puts_of_effect? (he k hk hinfo)
  · rw [hwritten]
    exact h.once

omit [DecidableEq ι] in
/-- A step that leaves the generation of a rebuild, and the active one, as they are. -/
theorem Rebuild.Progress.concat (h : Progress G distinct trace s i stage) (ha : s.Answers e s')
    (hinside : stage.active? ≠ none → ∀ g, stage.number? = some g →
      ∀ k, Key.generationPrefix g <+: k → e.effect? k = none)
    (hactive : stage.lock? ≠ none → e.effect? Key.active.encode = none) :
    Progress G distinct (trace ++ [(j, e)]) s' i stage := by
  cases stage with
  | numbered w => exact Underway.concat h ha (fun k hk _ => hinside nofun _ rfl k hk) rfl rfl
  | building w => exact Underway.concat h ha (fun k hk _ => hinside nofun _ rfl k hk) rfl rfl
  | complete w =>
    refine ⟨h.1.concat ha (fun k hk _ => hinside nofun _ rfl k hk) rfl rfl, ?_⟩
    rw [ha.get?_eq_of_effect? (hinside nofun _ rfl _ Key.info_starts)]
    exact h.2
  | dropping l g =>
    have : s'.get? Key.active.encode = s.get? Key.active.encode :=
      ha.get?_eq_of_effect? (hactive nofun)
    exact fun hg => h (this ▸ hg)
  | _ => trivial

omit [DecidableEq ι] in
/-- A batch with one operation outside of the generations writes nothing inside of them. -/
theorem effect?_eq_none_of_outside {key : Bytes} (hkey : ¬ Key.generationsPrefix <+: key)
    {op : WriteOp} (hop : op.key = key) {guards : List Guard}
    (hk : Key.generationPrefix g <+: k) :
    Exchange.effect? ⟨.write ⟨[op], guards⟩, .ok ()⟩ k = none := by
  refine Batch.effect?_eq_none fun op' hop' heq => ?_
  obtain rfl := List.mem_singleton.mp hop'
  exact hkey (hop ▸ heq ▸ Key.starts_of_generationPrefix hk)

omit [DecidableEq ι] in
/-- A rebuild goes on. -/
theorem progress_of_step (hG : Run.Alike G runs)
    {n : Nat} (hfresh : ∀ g : Generation, n < g.toNat → ∀ k, Key.generationPrefix g <+: k →
      s.get? k = none ∧ ∀ x ∈ trace, ¬ x.2.Puts k)
    (hprogress : Progress G distinct trace s j (stages j))
    (hcounted : ∀ l active, stages j = .pointed l active → ∀ g, stage.number? = some g →
      n < g.toNat)
    (hstep : Rebuild.Step (runs j).database (.proper distinct) (stages j) e stage)
    (ha : s.Answers e s') : Progress G distinct (trace ++ [(j, e)]) s' j stage := by
  generalize hold : stages j = old at hstep hprogress hcounted
  cases hstep with
  | quiet he =>
    exact hprogress.concat ha (fun _ _ _ k _ => Exchange.effect?_eq_none_of_applied? he k)
      fun _ => Exchange.effect?_eq_none_of_applied? he _
  | name => trivial
  | acquire => trivial
  | point => trivial
  | @count l active counter g hreads hg =>
    have hlt : n < g.toNat := hcounted l active rfl g (Rebuild.number?_counted l active g)
    have hnone : Underway G distinct (trace ++ [(j, g.counting (counter.map (·.2)))]) s' j
        ⟨l, active, g, none, []⟩ := by
      refine ⟨fun _ hr => absurd hr List.not_mem_nil, fun k hk _ => ?_, ?_, fun _ => List.nodup_nil⟩
      · rw [ha.get?_eq_of_effect? (effect?_eq_none_of_outside Key.not_starts_counter rfl hk)]
        exact (hfresh g hlt k hk).1
      · refine Wrote.concat_other (.of_not_puts fun x hx k hk => (hfresh g hlt k hk).2 x hx) ?_
        exact fun _ k hk _ => Exchange.not_puts_of_effect?
          (effect?_eq_none_of_outside Key.not_starts_counter rfl hk)
    cases active with
    | none => exact hnone
    | some p => exact hnone
  | survey _ => exact Underway.concat hprogress ha (fun _ _ _ => rfl) rfl rfl
  | @clear w keys hw hkeys =>
    refine Underway.concat hprogress ha (fun k hk _ => ?_) rfl rfl
    refine Batch.effect?_eq_none fun op hop heq => ?_
    obtain ⟨k', hk', rfl⟩ := List.mem_map.mp hop
    obtain rfl : k' = k := heq
    exact (hkeys k' hk').2 w.number (by simp [Work.kept]) hk
  | beat =>
    exact Underway.concat hprogress ha
      (fun k hk _ => effect?_eq_none_of_outside Key.not_starts_lock rfl hk) rfl rfl
  | @document w col r hcol hname hgood hfresh =>
    have h : Underway G distinct trace s j w := hprogress
    rw [hG.entries_eq hcol hname] at ha ⊢
    have hwritten :
        Work.written { w with records := w.records ++ [(col, r)] } = w.written ++ [r] := by
      simp [Work.written]
    constructor
    · rw [hwritten]
      intro r' hr'
      rcases List.mem_append.mp hr' with hr' | hr'
      · exact h.admits r' hr'
      · obtain rfl := List.mem_singleton.mp hr'
        exact hG.admits hcol hname hgood
    · rw [hwritten, ha.eq_of_write]
      exact h.settled.concat r
    · rw [hwritten]
      exact h.wrote.concat_record fun k => Batch.effect?_puts (G.sorted_entries w.number r) k
    · intro hd
      rw [hwritten, List.map_append, List.nodup_append]
      refine ⟨h.once hd, List.nodup_singleton _, ?_⟩
      intro p hp p' hp' heq
      obtain rfl := List.mem_singleton.mp hp'
      obtain ⟨r', hr', rfl⟩ := List.mem_map.mp hp
      obtain ⟨x, hx, rfl⟩ := List.mem_map.mp hr'
      exact hfresh hd x hx heq
  | @inform w =>
    refine ⟨Underway.concat hprogress ha (fun k hk hinfo => ?_) rfl rfl, ?_⟩
    · refine Batch.effect?_eq_none fun op hop heq => ?_
      obtain rfl := List.mem_singleton.mp hop
      exact hinfo heq.symm
    · rw [ha.get?_eq, Exchange.effect?_write, Batch.effect?_put]
      exact Option.some_ne_none _
  | swap => trivial
  | @giveUp _ l g active hl hg hreads hne =>
    intro hactive
    rw [ha.get?_eq_of_effect? rfl, ← ha.reply_eq_get?] at hactive
    obtain ⟨p, rfl, hp⟩ := Option.map_eq_some_iff.mp hactive
    have hread := hreads p rfl
    rw [hp, Generation.parse?_toBytes] at hread
    exact hne hread.symm
  | @drop l g keys hkeys =>
    refine Progress.concat hprogress ha (fun h => absurd rfl h) fun _ =>
      Batch.effect?_eq_none fun op hop heq => ?_
    obtain ⟨k, hk, rfl⟩ := List.mem_map.mp hop
    refine Key.not_starts_active ?_
    rw [← heq]
    exact Key.starts_of_generationPrefix (hkeys k hk)
  | release => trivial

/-- A rebuild that gets a number gets one that is above all others. -/
theorem lt_toNat_of_counted {n : Nat} {swapped : List Generation}
    (course : MetaCourse OrderedMap.empty trace s stages)
    (h : Rebuild.Numbering trace stages n swapped) (hn : n + 1 < 2 ^ 64)
    (hstep : MetaStep (stages j) e stage) (ha : s.Answers e s') {l : Lock} {active : Option (Generation × Bytes)}
    (hj : stages j = .pointed l active) (hg : stage.number? = some g) : n < g.toNat := by
  generalize hold : stages j = old at hstep
  obtain rfl := hold.symm.trans hj
  cases hstep with
  | inside _ _ _ _ hnumber _ =>
    rw [hnumber] at hg
    cases hg
  | @count _ _ counter g' hreads hg' =>
    rw [Rebuild.number?_counted] at hg
    cases hg
    rw [h.eq_ofNat course hn hj hreads hg' ha, Rebuild.toNat_ofNat hn]
    exact Nat.lt_succ_self n
  | release => cases hg

/-- **A rebuild knows what it has written into its generation**, at every moment of every run. -/
theorem progress_of_course (hG : Run.Alike G runs)
    (course : RunCourse runs (.proper distinct) trace s stages) (htakeover : NoTakeover trace)
    (hcount : (written trace Key.counter.encode).length < 2 ^ 64 - 1) (i : ι) :
    Progress G distinct trace s i (stages i) := by
  induction course with
  | start => trivial
  | @next trace s s' stages j e stage course ha hstep ih =>
    replace course : RunCourse runs (.proper distinct) trace s stages := course
    replace htakeover := htakeover.of_append
    have hbefore : (written trace Key.counter.encode).length < 2 ^ 64 - 1 := by
      rw [written_append, List.length_append] at hcount
      omega
    obtain ⟨n, swapped, h⟩ := orderly_of_course course htakeover hbefore
    have hn := h.numbering.length_eq
    replace ih := ih htakeover hbefore
    cases hj : runs j with
    | update db paths =>
      rw [hj] at hstep
      have hsame : Function.update stages j stage i = stages i := by
        by_cases hij : i = j
        · subst hij
          rw [Function.update_self, (Update.Step.staysInside hstep).2]
        · rw [Function.update_of_ne hij]
      rw [hsame]
      refine ih.concat ha (fun hne g hg k hk => ?_) fun _ =>
        (Update.Step.staysInside hstep).1.effect? Key.not_starts_active
      obtain ⟨active, hactive⟩ := Option.ne_none_iff_exists'.mp hne
      exact h.effect?_of_update hactive hg hstep ha hk
    | rebuild db rounds =>
      have hmeta := Run.metaStep hstep
      by_cases hij : i = j
      · subst hij
        rw [Function.update_self]
        have hrebuild : Rebuild.Step (runs i).database (.proper distinct) (stages i) e stage := by
          rw [hj] at hstep ⊢
          exact hstep
        refine progress_of_step hG (n := n) (fun g hg k hk => ⟨?_, fun x hx hputs => ?_⟩) ih
          (fun l active hi g hg => ?_) hrebuild ha
        · exact get?_eq_none_of_lt course hbefore hk (hn ▸ hg)
        · have := toNat_le_of_puts course hbefore hx hk hputs
          omega
        · exact lt_toNat_of_counted course.metaCourse h.numbering (by omega) hmeta ha hi hg
      · rw [hj] at hstep
        rw [Function.update_of_ne hij]
        refine ih.concat ha (fun hne g _ k hk => ?_) fun hne => ?_
        · obtain ⟨active, hactive⟩ := Option.ne_none_iff_exists'.mp hne
          exact h.effect?_of_rebuild (Rebuild.Stage.isSome_lock?_of_active? hactive) (Ne.symm hij)
            hstep (Key.starts_of_generationPrefix hk)
        · exact h.effect?_active_of_other (Option.isSome_iff_ne_none.mpr hne) (Ne.symm hij) hmeta

/-! ### The active generation -/

/-- The active generation has its information and holds the entries of different documents. -/
def ActiveHolds (G : Graph) (s : Store) : Prop :=
  ∀ g : Generation, s.get? Key.active.encode = some g.toBytes →
    ∃ D, G.Library D ∧ s.Holds g G D ∧ s.get? (Key.info g).encode ≠ none

omit [DecidableEq ι] in
/-- A step that leaves the active generation as it is. -/
theorem ActiveHolds.concat (h : ActiveHolds G s) (ha : s.Answers e s')
    (hactive : e.effect? Key.active.encode = none)
    (hinside : ∀ g : Generation, s.get? Key.active.encode = some g.toBytes → ∀ k,
      Key.generationPrefix g <+: k → e.effect? k = none) : ActiveHolds G s' := by
  intro g hg
  rw [ha.get?_eq_of_effect? hactive] at hg
  obtain ⟨D, hD, hholds, hinfo⟩ := h g hg
  refine ⟨D, hD, hholds.congr fun k hk => ha.get?_eq_of_effect? (hinside g hg k hk), ?_⟩
  rw [ha.get?_eq_of_effect? (hinside g hg _ Key.info_starts)]
  exact hinfo

omit [DecidableEq ι] in
/-- An update replaces a document of the active generation. -/
theorem ActiveHolds.update (hG : Run.Alike G runs) (h : ActiveHolds G s) {stage stage' : Stage}
    (hstep : Update.Step (runs j).database (.proper distinct) stage e stage')
    (ha : s.Answers e s') : ActiveHolds G s' := by
  cases hstep with
  | quiet he =>
    exact h.concat ha (Exchange.effect?_eq_none_of_applied? he _) fun _ _ k _ =>
      Exchange.effect?_eq_none_of_applied? he k
  | @replace g col path stored old new hcol hold hnew =>
    have hstored : s.get? (Key.document g col.name path).encode = stored :=
      ha.guard_eq (List.mem_cons_self ..)
    have hactive : s.get? Key.active.encode = some g.toBytes :=
      ha.guard_eq (List.mem_cons_of_mem _ (List.mem_singleton_self _))
    obtain ⟨D, hD, hholds, hinfo⟩ := h g hactive
    have hold' (r : Record) : old = some r ↔ r ∈ D ∧ r.collection = col.name ∧ r.path = path := by
      rw [← hholds.record?_eq_some_iff hG.compiled hD, Store.record?, hstored]
      cases stored with
      | none =>
        cases hold
        exact iff_of_false nofun nofun
      | some b =>
        cases hb : Record.ofBytes? b with
        | none => simp [Record.ofStored?, hb] at hold
        | some r' =>
          simp only [Record.ofStored?, hb, Except.ok.injEq] at hold
          simp [← hold, hb]
    have hnew' : ∀ r ∈ new, G.Admits r ∧ r.collection = col.name ∧ r.path = path :=
      fun r hr => ⟨hG.admits hcol (hnew r hr).1 (hnew r hr).2.2, (hnew r hr).1, (hnew r hr).2.1⟩
    have hentries (r : Option Record) (hr : ∀ r' ∈ r, r'.collection = col.name) :
        Update.entriesOf g col r = G.entriesOf g r := by
      cases r with
      | none => rfl
      | some r => exact hG.entries_eq hcol (hr r rfl) g
    rw [hentries old fun r hr => ((hold' r).mp hr).2.1,
      hentries new fun r hr => (hnew' r hr).2.1] at ha
    have hother (l : Bytes) (hl : ∀ c p, ¬ Key.Owned g c p l) : s'.get? l = s.get? l := by
      rw [ha.eq_of_write]
      exact Store.get?_replacement_of_not_owned hG.compiled s
        (fun r hr => (hD.admits r ((hold' r).mp hr).1).locates) (fun r hr => (hnew' r hr).1.locates) hl
    intro g' hg'
    rw [hother _ fun c p howned => Key.not_starts_active
      (Key.starts_of_generationPrefix howned.starts), hactive] at hg'
    obtain rfl := Generation.toBytes_injective (Option.some.inj hg')
    refine ⟨_, hD.replaced hnew', ?_, ?_⟩
    · rw [ha.eq_of_write]
      exact hholds.replace hG.compiled hD hold' hnew'
    · rw [hother _ fun c p howned => howned.ne_info rfl]
      exact hinfo

omit [DecidableEq ι] in
/-- A swap writes nothing inside of the generations. -/
theorem get?_of_swapping {w : Work} (ha : s.Answers w.swapping s')
    (hk : Key.generationsPrefix <+: k) : s'.get? k = s.get? k := by
  refine ha.get?_eq_of_effect? ?_
  rw [Work.effect?_swapping, if_neg, if_neg]
  · rintro rfl
    exact Key.not_starts_active hk
  · rintro rfl
    exact Key.not_starts_lock hk

omit [DecidableEq ι] in
/-- The records of a rebuild that swaps are held, if none of them has left an entry behind. -/
theorem activeHolds_of_swap (hG : Run.Alike G runs) {w : Work} (h : Underway G distinct trace s i w)
    (hinfo : s.get? (Key.info w.number).encode ≠ none) (ha : s.Answers w.swapping s')
    (hclean : ¬ LeavesBehind trace i w.number) : ActiveHolds G s' := by
  intro g hg
  rw [ha.get?_eq, Work.effect?_swapping, if_neg lock_ne_active, if_pos rfl] at hg
  obtain rfl := Generation.toBytes_injective (Option.some.inj hg)
  refine ⟨_, Graph.library_final (n := w.number) h.admits, ?_, ?_⟩
  · refine Store.Holds.congr (s := s) ?_ fun k hk =>
      get?_of_swapping ha (Key.starts_of_generationPrefix hk)
    refine Store.holds_of_settled hG.compiled h.admits h.settled fun k hk => hclean ?_
    exact (h.wrote.leavesBehind_iff hG.compiled h.admits).mpr ⟨k, hk⟩
  · rw [get?_of_swapping ha (Key.starts_of_generationPrefix Key.info_starts)]
    exact hinfo

/-- **The active generation holds the entries of different documents**, at every moment of every run
in which nothing was left behind. -/
theorem activeHolds_of_course (hG : Run.Alike G runs)
    (course : RunCourse runs (.proper distinct) trace s stages) (htakeover : NoTakeover trace)
    (hcount : (written trace Key.counter.encode).length < 2 ^ 64 - 1)
    (hclean : ∀ before i w after, trace = before ++ (i, Work.swapping w) :: after →
      ¬ LeavesBehind before i w.number) : ActiveHolds G s := by
  induction course with
  | start => exact nofun
  | @next trace s s' stages j e stage course ha hstep ih =>
    replace course : RunCourse runs (.proper distinct) trace s stages := course
    replace htakeover := htakeover.of_append
    have hbefore : (written trace Key.counter.encode).length < 2 ^ 64 - 1 := by
      rw [written_append, List.length_append] at hcount
      omega
    obtain ⟨n, swapped, h⟩ := orderly_of_course course htakeover hbefore
    have hprogress := progress_of_course hG course htakeover hbefore j
    replace ih := ih htakeover hbefore fun before i w after htrace =>
      hclean before i w (after ++ [(j, e)]) (by simp [htrace])
    have hmeta := Run.metaStep hstep
    cases hj : runs j with
    | update db paths =>
      have hupdate : Update.Step (runs j).database (.proper distinct) (stages j) e stage := by
        rw [hj] at hstep ⊢
        exact hstep
      exact ih.update hG hupdate ha
    | rebuild db rounds =>
      rw [hj] at hstep
      by_cases hactive : e.effect? Key.active.encode = none
      · refine ih.concat ha hactive fun g hg k hk => ?_
        by_contra hne
        obtain ⟨v, hv⟩ := Option.ne_none_iff_exists'.mp hne
        rcases Rebuild.Step.cases_of_effect? hstep (Key.starts_of_generationPrefix hk) hv with
          ⟨w, hw, -, -, hkept⟩ | ⟨w, hw, hk', -⟩ | ⟨l, g', hw, -, -, hk'⟩
        · have hfound := (h.active_lt (i := j) hg (by rw [hw]; rfl) (by rw [hw]; rfl)).1
          refine hkept g ?_ hk
          simp [Work.kept, hfound]
        · obtain rfl := Key.eq_of_generationPrefix hk hk'
          exact Std.lt_irrefl (h.active_lt (i := j) hg (by rw [hw]; rfl) (by rw [hw]; rfl)).2
        · obtain rfl := Key.eq_of_generationPrefix hk hk'
          rw [hw] at hprogress
          exact hprogress hg
      · obtain ⟨w, hw, rfl, -⟩ := Rebuild.swap_of_effect?_active hmeta hactive
        rw [hw] at hprogress
        exact activeHolds_of_swap hG hprogress.1 hprogress.2 ha (hclean trace j w [] rfl)

/-- A rebuild that swaps knows what is in its generation. -/
theorem exists_underway_of_swap (hG : Run.Alike G runs) {w : Work}
    (course : RunCourse runs (.proper distinct) trace s stages) (htakeover : NoTakeover trace)
    (hcount : (written trace Key.counter.encode).length < 2 ^ 64 - 1)
    (hstep : ((runs i).protocol (.proper distinct)).step (stages i) w.swapping stage) :
    ∃ w', w.number = w'.number ∧ Underway G distinct trace s i w' := by
  have hprogress := progress_of_course hG course htakeover hcount i
  obtain ⟨w', hw', hsame, -⟩ := Rebuild.swap_of_effect?_active (Run.metaStep hstep) (by simp)
  have hnumber : w.number = w'.number := by
    have := congrArg (Exchange.effect? · Key.active.encode) hsame
    simpa [Generation.toBytes_injective.eq_iff] using this
  rw [hw'] at hprogress
  exact ⟨w', hnumber, hprogress.1⟩

/-- **What a rebuild has left behind is in the generation that it swaps in.** -/
theorem not_consistent_of_leavesBehind (hG : Run.Alike G runs) {w : Work}
    (course : RunCourse runs (.proper distinct) (trace ++ [(i, w.swapping)]) s stages)
    (htakeover : NoTakeover (trace ++ [(i, w.swapping)]))
    (hcount : (written (trace ++ [(i, w.swapping)]) Key.counter.encode).length < 2 ^ 64 - 1)
    (hleaves : LeavesBehind trace i w.number) :
    s.get? Key.active.encode = some w.number.toBytes ∧ ¬ s.Consistent w.number G := by
  obtain ⟨s₁, stages₁, stage, before, ha, hstep⟩ := course.exists_of_concat
  rw [written_append, List.length_append] at hcount
  obtain ⟨w', hnumber, h⟩ :=
    exists_underway_of_swap hG before htakeover.of_append (by omega) hstep
  rw [hnumber] at hleaves ⊢
  obtain ⟨k, hk⟩ := (h.wrote.leavesBehind_iff hG.compiled h.admits).mp hleaves
  refine ⟨?_, Store.not_consistent_of_leavesEntry hG.compiled h.admits
    (h.settled.congr fun l hl _ => get?_of_swapping ha (Key.starts_of_generationPrefix hl)) hk⟩
  rw [ha.get?_eq, Work.effect?_swapping, if_neg lock_ne_active, if_pos rfl, hnumber]
  rfl

/-- A rebuild leaves nothing behind, if listings name no path twice. -/
theorem not_leavesBehind_of_distinct (hG : Run.Alike G runs) (hdistinct : distinct) {w : Work}
    {after : Trace ι}
    (course : RunCourse runs (.proper distinct) (trace ++ (i, w.swapping) :: after) s stages)
    (htakeover : NoTakeover (trace ++ (i, w.swapping) :: after))
    (hcount : (written (trace ++ (i, w.swapping) :: after) Key.counter.encode).length <
      2 ^ 64 - 1) : ¬ LeavesBehind trace i w.number := by
  obtain ⟨s₁, stages₁, s₂, stage, before, ha, hstep⟩ := course.exists_of_append rfl
  rw [written_append, List.length_append] at hcount
  obtain ⟨w', hnumber, h⟩ :=
    exists_underway_of_swap hG before htakeover.of_append (by omega) hstep
  rw [hnumber, h.wrote.leavesBehind_iff hG.compiled h.admits]
  rintro ⟨k, hk⟩
  exact Graph.not_leavesEntry_of_nodup hG.compiled h.admits (h.once hdistinct) hk

/-! ### Runs of programs -/

/-- Listings name no path twice. -/
def ListsOnce (trace : Trace ι) : Prop :=
  ∀ i d ps, (i, ⟨.paths d, .ok ps⟩) ∈ trace → ps.Nodup

/-- The paths of documents have no zero in them, and the records of their contents are read back as
they were written. -/
def ReadsProperly (runs : ι → Run) (trace : Trace ι) : Prop :=
  ∀ i path content, (i, ⟨.content path, .ok content⟩) ∈ trace → Text.ZeroFree path ∧
    ∀ c ∈ (runs i).database.graph.collections, ∀ r ws,
      (runs i).database.record c path content = .ok (r, ws) → Record.ofBytes? r.toBytes = some r

/-- Runs in turns take the course of their protocols. -/
theorem exists_runCourse {w : World ι (Except IndexError Report)}
    (run : Interleaving (fun i => (runs i).program) OrderedMap.empty trace w)
    (hcompiled : ∀ i, (runs i).database.graph.IsCompiled) (hreads : ReadsProperly runs trace) :
    ∃ stages, RunCourse runs (.proper (ListsOnce trace)) trace w.store stages := by
  refine Run.course_of_allow run (fun i _ => (hcompiled i).names.2) fun x hx => ?_
  obtain ⟨s, s', h⟩ := run.exists_answers hx
  obtain ⟨i, e⟩ := x
  refine .of_answers h ?_ ?_
  · rintro d ps rfl honce
    exact honce i d ps hx
  · rintro path content rfl c hc - r ws hr
    obtain ⟨hpath, hreads⟩ := hreads i path content hx
    refine ⟨(Database.eq_of_record hr).2.1 ▸ hpath, ?_, hreads c hc r ws hr⟩
    exact Database.fields_zeroFree_of_record (hcompiled i) hc hr

omit [DecidableEq ι] in
/-- Graphs of one version index alike. -/
theorem Run.alike_of_version (hcompiled : ∀ i, (runs i).database.graph.IsCompiled)
    (hversion : ∀ i j, (runs i).database.graph.version = (runs j).database.graph.version)
    (hapart : ∀ i j, (runs i).database.graph.VersionsApart (runs j).database.graph) (i : ι) :
    Run.Alike (runs i).database.graph runs :=
  ⟨hcompiled i, fun j _ hc => Graph.exists_alike_of_version (hversion j i) (hapart j i) hc⟩

/-- **The active generation is consistent unless something was left behind.** Whatever rebuilds and
updates of databases with graphs of one version run at the same time, if no lock is taken over, then
the active generation is consistent at every moment, by the graph of each of them, if and only if no
rebuild has swapped in a generation after it had left something behind there. -/
theorem consistent_iff_not_leavesBehind (runs : ι → Run) {trace : Trace ι}
    {w : World ι (Except IndexError Report)}
    (run : Interleaving (fun i => (runs i).program) OrderedMap.empty trace w)
    (hcompiled : ∀ i, (runs i).database.graph.IsCompiled)
    (hversion : ∀ i j, (runs i).database.graph.version = (runs j).database.graph.version)
    (hapart : ∀ i j, (runs i).database.graph.VersionsApart (runs j).database.graph)
    (hreads : ReadsProperly runs trace) (htakeover : NoTakeover trace)
    (hcount : (written trace Key.counter.encode).length < 2 ^ 64 - 1) :
    (∀ before after w', trace = before ++ after →
      Interleaving (fun i => (runs i).program) OrderedMap.empty before w' →
      ∀ g : Generation, w'.store.get? Key.active.encode = some g.toBytes →
        ∀ i, w'.store.Consistent g (runs i).database.graph) ↔
    ∀ before i work after, trace = before ++ (i, Work.swapping work) :: after →
      ¬ LeavesBehind before i work.number := by
  have hbefore {before after : Trace ι} (htrace : trace = before ++ after) :
      ReadsProperly runs before ∧ NoTakeover before ∧
        (written before Key.counter.encode).length < 2 ^ 64 - 1 := by
    subst htrace
    rw [written_append, List.length_append] at hcount
    refine ⟨fun i path content hx => ?_, htakeover.of_append, by omega⟩
    exact hreads i path content (List.mem_append_left _ hx)
  constructor
  · intro hconsistent before i work after htrace hleaves
    have htrace' : trace = (before ++ [(i, work.swapping)]) ++ after := by
      simp [htrace]
    obtain ⟨hreads', htakeover', hcount'⟩ := hbefore htrace'
    obtain ⟨w', run'⟩ := (htrace' ▸ run).exists_of_append
    obtain ⟨stages, course⟩ := exists_runCourse run' hcompiled hreads'
    obtain ⟨hactive, hnot⟩ := not_consistent_of_leavesBehind
      (Run.alike_of_version hcompiled hversion hapart i) course htakeover' hcount' hleaves
    exact hnot (hconsistent _ after w' htrace' run' _ hactive i)
  · intro hclean before after w' htrace run' g hg i
    obtain ⟨hreads', htakeover', hcount'⟩ := hbefore htrace
    obtain ⟨stages, course⟩ := exists_runCourse run' hcompiled hreads'
    have halike := Run.alike_of_version hcompiled hversion hapart i
    obtain ⟨D, hD, hholds, hinfo⟩ := activeHolds_of_course halike course htakeover' hcount'
      (fun earlier j work later hsplit => hclean earlier j work (later ++ after) (by
        rw [htrace, hsplit]
        simp)) g hg
    exact hholds.consistent (hcompiled i) hD hinfo

/-- **If listings name no path twice, then the active generation is consistent.** -/
theorem consistent_of_listsOnce (runs : ι → Run) {trace : Trace ι}
    {w : World ι (Except IndexError Report)}
    (run : Interleaving (fun i => (runs i).program) OrderedMap.empty trace w)
    (hcompiled : ∀ i, (runs i).database.graph.IsCompiled)
    (hversion : ∀ i j, (runs i).database.graph.version = (runs j).database.graph.version)
    (hapart : ∀ i j, (runs i).database.graph.VersionsApart (runs j).database.graph)
    (hreads : ReadsProperly runs trace) (hlists : ListsOnce trace) (htakeover : NoTakeover trace)
    (hcount : (written trace Key.counter.encode).length < 2 ^ 64 - 1) {g : Generation}
    (hg : w.store.get? Key.active.encode = some g.toBytes) (i : ι) :
    w.store.Consistent g (runs i).database.graph := by
  obtain ⟨stages, course⟩ := exists_runCourse run hcompiled hreads
  have halike := Run.alike_of_version hcompiled hversion hapart i
  obtain ⟨D, hD, hholds, hinfo⟩ := activeHolds_of_course halike course htakeover hcount
    (fun before j work after hsplit => by
      have course' : RunCourse runs (.proper (ListsOnce trace))
          (before ++ (j, work.swapping) :: after) w.store stages := hsplit ▸ course
      exact not_leavesBehind_of_distinct halike hlists course' (hsplit ▸ htakeover)
        (hsplit ▸ hcount)) g hg
  exact hholds.consistent (hcompiled i) hD hinfo

/-! ### A path that is listed twice -/

/-- The record has one field, which is boolean. -/
def Record.isTick (r : Record) : Bool :=
  match r.fields with
  | [(_, .boolean _)] => true
  | _ => false

/-- Such a record is read back. -/
theorem Record.reads_of_isTick {r : Record} (h : r.isTick) : ofBytes? r.toBytes = some r := by
  obtain ⟨c, p, t, fields, hash⟩ := r
  match fields, h with
  | [(n, .boolean b)], _ => exact ofBytes?_toBytes_of_fields rfl

/-- A collection of notes that are done or not. -/
def notes : Graph.Collection :=
  ⟨"notes", "notes", none, none, false, none, [⟨"notes", [⟨"done", .boolean, false, true⟩]⟩]⟩

/-- A database of notes. -/
def notebook : Database := ⟨.ofCollections [notes], {}, "body"⟩

theorem notebook_compiled : notebook.graph.IsCompiled :=
  ⟨⟨[⟨"notes", "notes", none, none, false, none,
    [.mk "done" (.mk .boolean false none [] none [] [])], []⟩]⟩, rfl⟩

/-- A note. -/
def note (done : String) : Source :=
  .files (OrderedMap.empty.insert "notes/a.json" (Bytes.ofText ("\x7b\"done\":" ++ done ++ "\x7d")))

/-- A rebuild that is told twice of a note, which is changed before it is read again. -/
def relisted : Play Unit (Except IndexError Report) :=
  ((Host.play ⟨OrderedMap.empty, note "true", 0, 0, false⟩ (fun _ => (notebook.rebuild 2).run)
    (.replicate 10 (.asks ()))).list () ["notes/a.json", "notes/a.json"]).go <|
      .replicate 4 (.asks ()) ++ [.source (note "false")] ++ .replicate 7 (.asks ())

theorem relisted_interleaving : Interleaving (fun _ => (Run.rebuild notebook 2).program)
    OrderedMap.empty relisted.trace relisted.world := by
  have hplay := Host.interleaving_play ⟨OrderedMap.empty, note "true", 0, 0, false⟩
    (fun _ : Unit => (notebook.rebuild 2).run) (.replicate 10 (.asks ()))
  exact Play.interleaving_go (Play.interleaving_list hplay () _) _

/-- The contents that are read there. -/
def Exchange.content? : Exchange → Option (String × Bytes)
  | ⟨.content path, .ok b⟩ => some (path, b)
  | _ => none

/-- The place of the note in its order as it was at first. -/
def stale : Entry :=
  ((Key.sort 1 "notes" "done" false (some (.boolean true)) "notes/a.json").encode,
    Bytes.ofText "notes/a.json")

/-- The record of the note as it is at last. -/
def noted : Record :=
  ⟨"notes", "notes/a.json", "notes", [("done", .boolean false)],
    Sha256.hex (Bytes.ofText "\x7b\"done\":false\x7d")⟩

/-- It counts once, finds no lock, and in the end its generation is active. The contents that it
reads are read properly. What it leaves of documents is the record as it is at last, but the place
of the note as it was at first is there, too. -/
theorem relisted_facts :
    (written relisted.trace Key.counter.encode = [some (Generation.toBytes 1)] ∧
      relisted.world.store.get? Key.active.encode = some (Generation.toBytes 1)) ∧
    (∀ x ∈ relisted.trace, ∀ b ∈ x.2.applied?, b.ops.length = 1 →
      ⟨Key.lock.encode, none⟩ ∈ b.guards ∨ b.guards.all (·.key ≠ Key.lock.encode)) ∧
    (∀ x ∈ relisted.trace, ∀ y ∈ x.2.content?, Text.ZeroFree y.1 ∧
      (notebook.record notes y.1 y.2).toOption.all (·.1.isTick)) ∧
    relisted.world.store.get? stale.1 = some stale.2 ∧
    (∀ x ∈ relisted.world.store.entries, Key.Family.start 1 .document <+: x.1 →
      x.2 = noted.toBytes) := by
  decide +kernel

theorem relisted_stored :
    written relisted.trace Key.counter.encode = [some (Generation.toBytes 1)] ∧
    relisted.world.store.get? Key.active.encode = some (Generation.toBytes 1) :=
  relisted_facts.1

theorem relisted_count : (written relisted.trace Key.counter.encode).length < 2 ^ 64 - 1 := by
  rw [relisted_stored.1]
  decide

theorem relisted_noTakeover : NoTakeover relisted.trace := by
  obtain ⟨-, hguards, -⟩ := relisted_facts
  intro before i l b after htrace
  exact absurd (by simp [htrace]) (not_mem_storing hguards i l b)

theorem relisted_readsProperly : ReadsProperly (fun _ => .rebuild notebook 2) relisted.trace := by
  obtain ⟨-, -, hcheck, -⟩ := relisted_facts
  intro i path content hx
  obtain ⟨hpath, hrecord⟩ := hcheck _ hx _ rfl
  refine ⟨hpath, fun c hc r ws hr => ?_⟩
  obtain rfl := List.mem_singleton.mp hc
  have hr' : notebook.record notes path content = .ok (r, ws) := hr
  rw [hr'] at hrecord
  exact Record.reads_of_isTick hrecord

/-- The place of the note as it was at first is still there, but no record has it. -/
theorem relisted_not_consistent : ¬ relisted.world.store.Consistent 1 notebook.graph := by
  obtain ⟨-, -, -, hstored, hdocuments⟩ := relisted_facts
  have hstale : stale ∉ notebook.graph.entries 1 noted := by
    decide +kernel
  have howned : Key.Owned 1 "notes" "notes/a.json" stale.1 := .sort _ _ _ (by decide)
  refine Store.not_consistent_of_orphan howned.starts howned.ne_info hstored ?_
  intro x hx hstart r hr
  rw [hdocuments x hx hstart, Record.reads_of_isTick (r := noted) rfl] at hr
  obtain rfl := Option.some.inj hr
  exact hstale

/-- A rebuild that is told twice of a note leaves something behind, and is seen to. -/
theorem consistent_iff_not_leavesBehind_relisted :
    relisted.world.store.get? Key.active.encode = some (Generation.toBytes 1) ∧
      ∃ before i work after, relisted.trace = before ++ (i, Work.swapping work) :: after ∧
        LeavesBehind before i work.number := by
  refine ⟨relisted_stored.2, ?_⟩
  have hiff := consistent_iff_not_leavesBehind (fun _ => .rebuild notebook 2)
    relisted_interleaving (fun _ => notebook_compiled) (fun _ _ => rfl) (fun _ _ _ => rfl)
    relisted_readsProperly relisted_noTakeover relisted_count
  by_contra hclean
  refine relisted_not_consistent (hiff.mpr ?_ relisted.trace [] relisted.world (by simp)
    relisted_interleaving 1 relisted_stored.2 ())
  exact fun before i work after htrace hleaves => hclean ⟨before, i, work, after, htrace, hleaves⟩

/-- Rebuilds that nobody takes the lock from may make a generation active that is not consistent. -/
theorem exists_active_inconsistent :
    ∃ (trace : Trace Unit) (w : World Unit (Except IndexError Report)),
      Interleaving (fun _ => (Run.rebuild notebook 2).program) OrderedMap.empty trace w ∧
      notebook.graph.IsCompiled ∧ ReadsProperly (fun _ => .rebuild notebook 2) trace ∧
      NoTakeover trace ∧ (written trace Key.counter.encode).length < 2 ^ 64 - 1 ∧
      w.store.get? Key.active.encode = some (Generation.toBytes 1) ∧
      ¬ w.store.Consistent 1 notebook.graph :=
  ⟨relisted.trace, relisted.world, relisted_interleaving, notebook_compiled,
    relisted_readsProperly, relisted_noTakeover, relisted_count, relisted_stored.2,
    relisted_not_consistent⟩

end ContentIndex
