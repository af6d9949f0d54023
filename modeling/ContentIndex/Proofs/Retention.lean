import ContentIndex.Proofs.QueryReads
import ContentIndex.Proofs.StoredValues
import ContentIndex.Proofs.Succession

/-!
# Retention

A rebuild keeps the generation that is active and the one which that has replaced. A query asks once
which generation is active and then reads that one only, so it may go on reading until the second
rebuild after its first question is at work.

## Main definitions

* `Store.Retains`: a generation is active, or was replaced by the active one
* `Rebuild.Mindful`: a rebuild knows which generation has to be kept
* `Call`: calls of a database

## Main results

* `retained_of_course`: **a generation stays as it was until it was replaced twice**
* `Call.run_eq_of_interleaving`: **a call is answered as at the moment when it asked for the active
  generation**
-/

namespace ContentIndex

open Rebuild (Conditions Stage Work MetaCourse)

/-! ### What is kept -/

/-- The generation that a generation has replaced, as its information says. -/
def Store.replaced? (s : Store) (g : Generation) : Option Generation :=
  ((s.get? (Key.info g).encode).bind GenerationInfo.ofBytes?).bind (·.previous)

/-- The generation is active, or was replaced by the active one. -/
def Store.Retains (s : Store) (g : Generation) : Prop :=
  s.get? Key.active.encode = some g.toBytes ∨
    ∃ a, s.get? Key.active.encode = some a.toBytes ∧ g < a ∧ s.replaced? a = some g

/-- What is active has not been replaced yet. -/
theorem Store.Retains.le {s : Store} {g a : Generation} (h : s.Retains g)
    (ha : s.get? Key.active.encode = some a.toBytes) : g ≤ a := by
  rcases h with hg | ⟨a', ha', hlt, -⟩
  · rw [ha] at hg
    rw [Generation.toBytes_injective (Option.some.inj hg)]
    exact Std.le_refl g
  · rw [ha] at ha'
    rw [Generation.toBytes_injective (Option.some.inj ha')]
    exact Std.le_of_lt hlt

theorem Store.replaced?_congr {s s' : Store} {g : Generation}
    (h : s'.get? (Key.info g).encode = s.get? (Key.info g).encode) :
    s'.replaced? g = s.replaced? g := by
  rw [replaced?, replaced?, h]

/-- A rebuild at work knows which generation the active one has replaced, and its own generation
says which one it replaces. What it removes at its end is above the active generation. -/
def Rebuild.Mindful (s : Store) : Stage → Prop
  | .building w => w.retired = (w.active.map (·.1)).bind s.replaced?
  | .complete w => s.replaced? w.number = w.active.map (·.1)
  | .dropping _ n => ∀ g : Generation, s.get? Key.active.encode = some g.toBytes → g < n
  | _ => True

open Rebuild (Mindful)

variable {ι : Type} [DecidableEq ι] {runs : ι → Run} {c : Conditions} {trace rest : Trace ι}
  {s s' : Store} {stages : ι → Stage} {i j : ι} {e : Exchange} {stage : Stage} {g : Generation}
  {k : Bytes} {n : Nat} {swapped : List Generation}

namespace Rebuild.Mindful

/-- Nothing that a rebuild has to know was written. -/
theorem congr (h : Mindful s stage)
    (hinfo : ∀ g, s'.get? (Key.info g).encode = s.get? (Key.info g).encode)
    (hactive : s'.get? Key.active.encode = s.get? Key.active.encode) : Mindful s' stage := by
  cases stage with
  | building w =>
    have hsame : s'.replaced? = s.replaced? := funext fun g => Store.replaced?_congr (hinfo g)
    show w.retired = (w.active.map (·.1)).bind s'.replaced?
    rw [hsame]
    exact h
  | complete w => exact (Store.replaced?_congr (hinfo _)).trans h
  | dropping l n => exact fun g hg => h g (hactive ▸ hg)
  | _ => trivial

/-- Without a lock there is nothing to know. -/
theorem of_lock? (h : stage.lock? = none) : Mindful s stage := by
  cases stage <;> trivial

/-- A rebuild at work leaves the information on the active generation as it is. -/
theorem building {w w' : Work} (h : Mindful s (.building w)) (ha : s.Answers e s')
    (he : ∀ p ∈ w.active, e.effect? (Key.info p.1).encode = none)
    (hactive : w'.active = w.active) (hretired : w'.retired = w.retired) :
    Mindful s' (.building w') := by
  show w'.retired = (w'.active.map (·.1)).bind s'.replaced?
  rw [hretired, hactive, show w.retired = _ from h]
  cases hw : w.active with
  | none => rfl
  | some p => exact (Store.replaced?_congr (ha.get?_eq_of_effect? (he p hw))).symm

end Rebuild.Mindful

theorem Update.exists_start_of_mem_entriesOf {col : Graph.Collection} {r : Option Record}
    {x : Entry} (h : x ∈ entriesOf g col r) : ∃ a, Key.Family.start g a <+: x.1 := by
  cases r with
  | none => cases h
  | some r => exact Record.exists_start_of_mem_entries h

/-- An update writes no information on generations. -/
theorem Update.Step.effect?_info {db : Database} {stage stage' : Stage}
    (h : Update.Step db c stage e stage') (g : Generation) :
    e.effect? (Key.info g).encode = none := by
  cases h with
  | quiet h => exact Exchange.effect?_eq_none_of_applied? h _
  | @replace g' col path stored old new hcol hold hnew =>
    refine Batch.effect?_eq_none fun op hop hkey => ?_
    obtain ⟨x, hx, hxkey⟩ := exists_mem_of_mem_replacement hop
    obtain ⟨a, ha⟩ : ∃ a, Key.Family.start g' a <+: x.1 := by
      rcases hx with hx | hx
      · exact exists_start_of_mem_entriesOf hx
      · exact exists_start_of_mem_entriesOf hx
    rw [hxkey, hkey] at ha
    -- the generation is the same, but the family is none
    obtain rfl := Key.eq_of_generationPrefix (a.starts_start.trans ha) Key.info_starts
    exact Key.not_start_info ha

namespace Orderly

omit [DecidableEq ι]

/-- Nobody else writes what a rebuild with the lock has to know. -/
theorem mindful_of_other (h : Orderly trace s stages n swapped) (hij : j ≠ i)
    (hmindful : Mindful s (stages i)) (hstep : ((runs j).protocol c).step (stages j) e stage)
    (ha : s.Answers e s') : Mindful s' (stages i) := by
  by_cases hlock : (stages i).lock?.isSome
  · refine hmindful.congr (fun g => ha.get?_eq_of_effect? ?_) (ha.get?_eq_of_effect? ?_)
    · cases hj : runs j with
      | update db paths =>
        rw [hj] at hstep
        exact Update.Step.effect?_info hstep g
      | rebuild db rounds =>
        rw [hj] at hstep
        exact h.effect?_of_rebuild hlock hij hstep
          (Key.starts_of_generationPrefix Key.info_starts)
    · exact h.effect?_active_of_other hlock hij (Run.metaStep hstep)
  · exact .of_lock? (Option.not_isSome_iff_eq_none.mp hlock)

/-- A rebuild goes on. -/
theorem mindful_of_step {db : Database} (h : Orderly trace s stages n swapped)
    (hmindful : Mindful s (stages j)) (hstep : Rebuild.Step db c (stages j) e stage)
    (ha : s.Answers e s') : Mindful s' stage := by
  have habove := h.numbering.above j
  have hlt {g : Generation} (hg : s.get? Key.active.encode = some g.toBytes)
      {active : Option (Generation × Bytes)} (hactive : (stages j).active? = some active)
      {number : Generation} (hnumber : (stages j).number? = some number) : g < number :=
    (h.active_lt hg hactive hnumber).2
  generalize stages j = old at hstep hmindful habove hlt
  cases hstep with
  | quiet he =>
    exact hmindful.congr
      (fun g => ha.get?_eq_of_effect? (Exchange.effect?_eq_none_of_applied? he _))
      (ha.get?_eq_of_effect? (Exchange.effect?_eq_none_of_applied? he _))
  | name => trivial
  | acquire => trivial
  | point => trivial
  | @count l active =>
    cases active with
    | none => rfl
    | some p => trivial
  | @survey w p v hp =>
    show (v.bind GenerationInfo.ofBytes?).bind _ = (w.active.map (·.1)).bind s'.replaced?
    rw [hp, ha.reply_eq_get?, ← ha.get?_eq_of_effect? rfl]
    rfl
  | @clear w keys hw hkeys =>
    refine hmindful.building ha (fun p hp => Batch.effect?_eq_none fun op hop hkey => ?_) rfl rfl
    obtain ⟨k, hk, rfl⟩ := List.mem_map.mp hop
    obtain rfl : k = _ := hkey
    refine (hkeys _ hk).2 p.1 ?_ Key.info_starts
    simp [Work.kept, show w.active = some p from hp]
  | @beat w t =>
    exact hmindful.building ha
      (fun p _ => effect?_eq_none_of_outside Key.not_starts_lock rfl Key.info_starts) rfl rfl
  | @document w col r hcol hname hgood hfresh =>
    refine hmindful.building ha (fun p hp => Batch.effect?_eq_none fun op hop hkey => ?_) rfl rfl
    obtain ⟨x, hx, rfl⟩ := List.mem_map.mp hop
    have hnumber : w.number = p.1 :=
      Key.eq_of_generationPrefix (Record.starts_of_mem_entries hx)
        (show Key.generationPrefix p.1 <+: x.1 from (show x.1 = _ from hkey) ▸ Key.info_starts)
    have := habove p w.number (congrArg some hp) rfl
    exact Std.lt_irrefl (hnumber ▸ this)
  | @inform w =>
    show s'.replaced? w.number = w.active.map (·.1)
    generalize db.graph.version = version at ha
    rw [Store.replaced?, ha.get?_eq, Exchange.effect?_write, Batch.effect?_put, Option.getD_some,
      Option.bind_some, GenerationInfo.ofBytes?_toBytes, Option.bind_some]
  | swap => trivial
  | @giveUp _ l g active hl hg hreads hne =>
    intro g' hg'
    rw [ha.get?_eq_of_effect? rfl] at hg'
    cases old with
    | numbered w => exact hlt hg' rfl hg
    | building w => exact hlt hg' rfl hg
    | complete w => exact hlt hg' rfl hg
    | dropping l' n =>
      obtain rfl := Option.some.inj hg
      exact hmindful g' hg'
    | swapped => cases hl
    | _ => cases hg
  | @drop l g keys hkeys =>
    intro g' hg'
    refine hmindful g' ?_
    rw [← ha.get?_eq_of_effect?]
    · exact hg'
    · refine Batch.effect?_eq_none fun op hop hkey => Key.not_starts_active ?_
      obtain ⟨k, hk, rfl⟩ := List.mem_map.mp hop
      rw [← hkey]
      exact Key.starts_of_generationPrefix (hkeys k hk)
  | release => trivial

end Orderly

/-- **Rebuilds know which generations have to be kept**, at every moment of every run without
takeovers. -/
theorem mindful_of_course (course : RunCourse runs c trace s stages) (htakeover : NoTakeover trace)
    (hcount : (written trace Key.counter.encode).length < 2 ^ 64 - 1) (i : ι) :
    Mindful s (stages i) := by
  induction course with
  | start => trivial
  | @next trace s s' stages j e stage course ha hstep ih =>
    replace htakeover := htakeover.of_append
    rw [written_append, List.length_append] at hcount
    replace ih := ih htakeover (by omega)
    obtain ⟨n, swapped, h⟩ := orderly_of_course course htakeover (by omega)
    by_cases hij : i = j
    · subst hij
      rw [Function.update_self]
      cases hi : runs i with
      | update db paths =>
        rw [hi] at hstep
        obtain ⟨-, rfl⟩ := Update.Step.staysInside hstep
        exact ih.congr (fun g => ha.get?_eq_of_effect? (Update.Step.effect?_info hstep g))
          (ha.get?_eq_of_effect? ((Update.Step.staysInside hstep).1.effect? Key.not_starts_active))
      | rebuild db rounds =>
        rw [hi] at hstep
        exact h.mindful_of_step ih hstep ha
    · rw [Function.update_of_ne hij]
      exact h.mindful_of_other (Ne.symm hij) ih hstep ha

/-! ### What stays as it was -/

namespace Orderly

variable {db : Database}

omit [DecidableEq ι]

/-- At a stage where a rebuild knows the active generation, it has a number above it. -/
theorem active_lt_of_stage (h : Orderly trace s stages n swapped)
    (hg : s.get? Key.active.encode = some g.toBytes) (hstage : stages j = stage)
    {active : Option (Generation × Bytes)} (hactive : stage.active? = some active)
    {number : Generation} (hnumber : stage.number? = some number) :
    active.map (·.1) = some g ∧ g < number := by
  subst hstage
  exact h.active_lt hg hactive hnumber

/-- A rebuild writes nothing into a generation that is retained. -/
theorem effect?_of_retains (h : Orderly trace s stages n swapped)
    (hmindful : Mindful s (stages j)) (hretains : s.Retains g)
    (hstep : Rebuild.Step db c (stages j) e stage) (hk : Key.generationPrefix g <+: k) :
    e.effect? k = none := by
  by_contra hne
  obtain ⟨v, hv⟩ := Option.ne_none_iff_exists'.mp hne
  obtain ⟨a, ha⟩ : ∃ a : Generation, s.get? Key.active.encode = some a.toBytes := by
    rcases hretains with hg | ⟨a, ha, -⟩
    · exact ⟨g, hg⟩
    · exact ⟨a, ha⟩
  have hle := hretains.le ha
  rcases hstep.cases_of_effect? (Key.starts_of_generationPrefix hk) hv with
    ⟨w, hw, -, -, hkept⟩ | ⟨w, hw, hk', -⟩ | ⟨l, m, hw, -, -, hk'⟩
  · -- it keeps the active generation and the one that was replaced by it
    have hactive := (h.active_lt_of_stage ha hw rfl rfl).1
    rw [hw] at hmindful
    refine hkept g ?_ hk
    rcases hretains with hg | ⟨a', ha', -, hreplaced⟩
    · rw [ha] at hg
      obtain rfl := Generation.toBytes_injective (Option.some.inj hg)
      simp [Work.kept, hactive]
    · rw [ha] at ha'
      obtain rfl := Generation.toBytes_injective (Option.some.inj ha')
      have hretired : w.retired = some g := by
        rw [show w.retired = _ from hmindful, hactive, Option.bind_some, hreplaced]
      simp [Work.kept, hretired]
  · -- its own generation is above the active one
    obtain rfl := Key.eq_of_generationPrefix hk hk'
    have hlt := (h.active_lt_of_stage ha hw rfl rfl).2
    exact absurd hle (Std.not_le.mpr hlt)
  · obtain rfl := Key.eq_of_generationPrefix hk hk'
    rw [hw] at hmindful
    exact absurd hle (Std.not_le.mpr (hmindful a ha))

/-- A generation that is retained is retained as long as nobody swaps. -/
theorem retains_of_step (h : Orderly trace s stages n swapped)
    (hmindful : Mindful s (stages j)) (hretains : s.Retains g)
    (hstep : Rebuild.Step db c (stages j) e stage) (ha : s.Answers e s')
    (hactive : e.effect? Key.active.encode = none) : s'.Retains g := by
  rw [Store.Retains, ha.get?_eq_of_effect? hactive]
  rcases hretains with hg | ⟨a, hstored, hlt, hreplaced⟩
  · exact Or.inl hg
  · refine Or.inr ⟨a, hstored, hlt, (Store.replaced?_congr ?_).trans hreplaced⟩
    exact ha.get?_eq_of_effect?
      (h.effect?_of_retains hmindful (Or.inl hstored) hstep Key.info_starts)

/-- The active generation is retained when another one is swapped in. -/
theorem retains_of_swap (h : Orderly trace s stages n swapped)
    (hmindful : Mindful s (stages j)) (hg : s.get? Key.active.encode = some g.toBytes)
    (hstep : Rebuild.Step db c (stages j) e stage) (ha : s.Answers e s')
    (hactive : e.effect? Key.active.encode ≠ none) : s'.Retains g := by
  obtain ⟨w, hw, rfl, -⟩ := Rebuild.swap_of_effect?_active hstep.metaStep hactive
  obtain ⟨hfound, hlt⟩ := h.active_lt_of_stage hg hw rfl rfl
  rw [hw] at hmindful
  refine Or.inr ⟨w.number, ?_, hlt, ?_⟩
  · rw [ha.get?_eq, Work.effect?_swapping, if_neg lock_ne_active, if_pos rfl]
    rfl
  · have hsame : s'.replaced? w.number = s.replaced? w.number :=
      Store.replaced?_congr (get?_of_swapping ha (Key.starts_of_generationPrefix Key.info_starts))
    rw [hsame, show s.replaced? w.number = _ from hmindful, hfound]

end Orderly

/-- The process whose turn it is rebuilds, and everything is in order for its step. -/
theorem exists_orderly_of_heldToEnd (course : RunCourse runs c trace s stages)
    (hheld : HeldToEnd (trace ++ (j, e) :: rest))
    (hcount : (written trace Key.counter.encode).length < 2 ^ 64 - 1) :
    ∃ trace' stages' n swapped, Orderly trace' s stages' n swapped ∧ stages' j = stages j ∧
      Mindful s (stages' j) := by
  obtain ⟨trace', stages', h⟩ := exists_retold_of_course course hheld
  have hcount' : (written trace' Key.counter.encode).length < 2 ^ 64 - 1 := by
    rw [h.written _ (by simp)]
    exact hcount
  obtain ⟨n, swapped, horderly⟩ := orderly_of_course h.course h.alone hcount'
  exact ⟨trace', stages', n, swapped, horderly, h.stage_eq,
    mindful_of_course h.course h.alone hcount' j⟩

/-- A generation has stayed as it was while the exchanges of a trace happened. -/
structure Retained (g : Generation) (since : Trace ι) (s₁ s : Store) : Prop where
  /-- It is still kept. -/
  retains : s.Retains g
  /-- It is active if nobody has swapped. -/
  active : written since Key.active.encode = [] → s.get? Key.active.encode = some g.toBytes
  /-- Its keys have their values. -/
  same : ∀ k, Key.generationPrefix g <+: k → s.get? k = s₁.get? k

/-- **A generation stays as it was until it was replaced twice**, if only rebuilds write meanwhile
and each of them holds its lock to its end. -/
theorem retained_of_course {before since : Trace ι} {s₁ : Store} {stages₁ : ι → Stage}
    (course₁ : RunCourse runs c before s₁ stages₁)
    (hg : s₁.get? Key.active.encode = some g.toBytes)
    (course : RunCourse runs c (before ++ since) s stages)
    (hheld : HeldToEnd (before ++ since ++ rest))
    (hcount : (written (before ++ since) Key.counter.encode).length < 2 ^ 64 - 1)
    (hrebuilds : ∀ x ∈ since, x.2.applied? ≠ none → ∃ db rounds, runs x.1 = .rebuild db rounds)
    (hswaps : (written since Key.active.encode).length < 2) : Retained g since s₁ s := by
  induction since using List.reverseRecOn generalizing s stages rest with
  | nil =>
    have hsame (k : Bytes) : s.get? k = s₁.get? k := by
      rw [course.get?_eq, course₁.get?_eq, List.append_nil]
    exact ⟨Or.inl ((hsame _).trans hg), fun _ => (hsame _).trans hg, fun k _ => hsame k⟩
  | append_singleton since x ih =>
    obtain ⟨j, e⟩ := x
    rw [← List.append_assoc] at course hheld hcount
    obtain ⟨s₀, stages₀, stage, course₀, ha, hstep⟩ := course.exists_of_concat
    rw [List.append_assoc _ [(j, e)]] at hheld
    rw [written_append, List.length_append] at hcount
    rw [written_concat, List.length_append] at hswaps
    have h : Retained g since s₁ s₀ := ih course₀ hheld (by omega)
      (fun x hx => hrebuilds x (List.mem_append_left _ hx)) (by omega)
    by_cases he : e.applied? = none
    · -- nothing is written
      obtain rfl : s = s₀ := Store.eq_of_get? fun k =>
        ha.get?_eq_of_effect? (Exchange.effect?_eq_none_of_applied? he k)
      refine ⟨h.retains, fun hnone => h.active ?_, h.same⟩
      exact (List.append_eq_nil_iff.mp ((written_concat ..).symm.trans hnone)).1
    · obtain ⟨db, rounds, hrun⟩ :=
        hrebuilds (j, e) (List.mem_append_right _ (List.mem_singleton_self _)) he
      rw [show runs j = _ from hrun] at hstep
      obtain ⟨trace', stages', n, swapped, horderly, hstage, hmindful⟩ :=
        exists_orderly_of_heldToEnd course₀ hheld (by omega)
      rw [← hstage] at hstep
      by_cases hactive : e.effect? Key.active.encode = none
      · refine ⟨horderly.retains_of_step hmindful h.retains hstep ha hactive, fun hnone => ?_,
          fun k hk => ?_⟩
        · rw [ha.get?_eq_of_effect? hactive]
          exact h.active (List.append_eq_nil_iff.mp ((written_concat ..).symm.trans hnone)).1
        · rw [ha.get?_eq_of_effect? (horderly.effect?_of_retains hmindful h.retains hstep hk)]
          exact h.same k hk
      · -- this is the first swap, so the generation was active before it
        obtain ⟨v, hv⟩ := Option.ne_none_iff_exists'.mp hactive
        rw [hv, Option.toList_some, List.length_singleton] at hswaps
        have hfirst : s₀.get? Key.active.encode = some g.toBytes :=
          h.active (List.eq_nil_of_length_eq_zero (by omega))
        refine ⟨horderly.retains_of_swap hmindful hfirst hstep ha hactive, fun hnone => ?_,
          fun k hk => ?_⟩
        · rw [written_concat, hv] at hnone
          simp at hnone
        · rw [ha.get?_eq_of_effect? (horderly.effect?_of_retains hmindful h.retains hstep hk)]
          exact h.same k hk

/-! ### Programs that read while others go on -/

/-- Storage has failed to reply. -/
def Exchange.fails : Exchange → Bool
  | ⟨.get _, .error _⟩ | ⟨.scan _ _ _, .error _⟩ => true
  | _ => false

/-- What storage replies lies in the range that was asked for. -/
theorem Store.Answers.sound {q : Question} {r : q.Reply} (h : s.Answers ⟨q, r⟩ s') :
    q.Sound r := by
  cases h with
  | scan => exact fun x hx => (Store.mem_scan hx).2
  | _ => trivial

/-- If storage does not fail, then it replies as the store does. -/
theorem Access.Asks.reply?_eq {A : Access} {q : Question} {r : q.Reply} (h : A.Asks q)
    (ha : s.Answers ⟨q, r⟩ s') (hfails : ¬ Exchange.fails ⟨q, r⟩) : q.reply? s = some r := by
  cases ha with
  | get => rfl
  | scan => rfl
  | getFails => exact absurd rfl hfails
  | scanFails => exact absurd rfl hfails
  | _ => exact h.elim

/-- What is left of a program that is read on by another one. -/
theorem Program.exists_of_bind {α β : Type} {t : Program β} {f : β → α} {q : Question}
    {next : q.Reply → Program α} (h : (t.bind fun b => .done (f b)) = .ask q next) :
    ∃ next' : q.Reply → Program β, t = .ask q next' ∧
      next = fun r => (next' r).bind fun b => .done (f b) := by
  cases t with
  | done b => cases h
  | cut => cases h
  | ask q' next' =>
    cases h
    exact ⟨next', rfl, rfl⟩

section Reading

variable {α β : Type} {programs : ι → Program α} {store : Store} {w : World ι α} {t : Program β}
  {f : β → α}

/-- A process that queries has not asked anything, or it knows which generation is active. -/
theorem asked_of_interleaving (run : Interleaving programs store trace w)
    (hi : programs i = t.bind fun b => .done (f b)) (ht : t.ReadsActive) :
    w.left i = programs i ∨ ∃ r p, w.left i = Program.bind p (fun b => .done (f b)) ∧
      p.Within (.told r) fun _ => True := by
  induction run with
  | start => exact Or.inl rfl
  | @step trace w j q next r store' run hj ha ih =>
    dsimp only
    by_cases hij : i = j
    · subst hij
      rw [Function.update_self]
      right
      rcases ih with hleft | ⟨r', p, hleft, hp⟩
      · -- this is the first question
        rw [hleft, hi] at hj
        obtain ⟨next', rfl, rfl⟩ := Program.exists_of_bind hj
        cases ht with
        | ask h => exact ⟨r, _, rfl, h r⟩
      · rw [hleft] at hj
        obtain ⟨next', rfl, rfl⟩ := Program.exists_of_bind hj
        exact ⟨r', next' r, rfl, hp.2 r ha.sound⟩
    · rw [Function.update_of_ne hij]
      exact ih

/-- A process that has asked for the active generation goes on as if the store had not changed, as
long as all that it may look at has not. -/
theorem on_of_interleaving {before after : Trace ι} {r : Except StorageError (Option Bytes)}
    {w₁ : World ι α}
    (run₁ : Interleaving programs store before w₁)
    (run : Interleaving programs store (before ++ (i, ⟨.get Key.active.encode, r⟩) :: after) w)
    (hi : programs i = t.bind fun b => .done (f b)) (ht : t.ReadsActive)
    (hfails : ∀ x ∈ (i, ⟨.get Key.active.encode, r⟩) :: after, x.1 = i → ¬ x.2.fails)
    (hsame : ∀ since rest w', after = since ++ rest →
      Interleaving programs store (before ++ (i, ⟨.get Key.active.encode, r⟩) :: since) w' →
      ∀ k, (Access.told r).keys k → w₁.store.get? k = w'.store.get? k) :
    ∃ p, w.left i = Program.bind p (fun b => .done (f b)) ∧
      p.Within (.told r) (fun _ => True) ∧ p.on w₁.store = t.on w₁.store := by
  induction after using List.reverseRecOn generalizing w with
  | nil =>
    obtain ⟨w', next, run', hask, ha, hleft⟩ := run.exists_of_concat
    have hstore : w'.store = w₁.store := Store.eq_of_get? fun k => by
      rw [run'.get?_eq, run₁.get?_eq]
    rcases asked_of_interleaving run' hi ht with hfirst | ⟨r', p, hlater, hp⟩
    · rw [hfirst, hi] at hask
      obtain ⟨next', rfl, rfl⟩ := Program.exists_of_bind hask
      have hreply : Question.reply? w₁.store (.get Key.active.encode) = some r := by
        rw [← hstore]
        exact Access.Asks.reply?_eq (A := ⟨fun _ => True, True⟩) trivial ha
          (hfails _ (List.mem_cons_self ..) rfl)
      cases ht with
      | ask h =>
        refine ⟨next' r, ?_, h r, (Program.on_ask _ hreply next').symm⟩
        rw [hleft, Function.update_self]
    · -- a query asks for the active generation only once
      rw [hlater] at hask
      obtain ⟨next', rfl, -⟩ := Program.exists_of_bind hask
      obtain ⟨b, g, -, -, hk⟩ := hp.1
      exact absurd (Key.starts_of_generationPrefix hk) Key.not_starts_active
  | append_singleton after x ih =>
    obtain ⟨j, q, r'⟩ := x
    rw [← List.cons_append, ← List.append_assoc] at run
    obtain ⟨w', next, run', hask, ha, hleft⟩ := run.exists_of_concat
    obtain ⟨p, hp, hwithin, hon⟩ := ih run'
      (fun x hx => hfails x (by
        rw [← List.cons_append]
        exact List.mem_append_left _ hx))
      fun since rest w'' hsplit => hsame since (rest ++ [(j, ⟨q, r'⟩)]) w'' (by
        rw [hsplit, List.append_assoc])
    rw [hleft]
    by_cases hij : i = j
    · subst hij
      rw [hp] at hask
      obtain ⟨next', rfl, rfl⟩ := Program.exists_of_bind hask
      have hreply : q.reply? w₁.store = some r' := by
        rw [hwithin.1.reply?_congr (hsame after [(i, ⟨q, r'⟩)] w' rfl run')]
        exact hwithin.1.reply?_eq ha (hfails (i, ⟨q, r'⟩) (by simp) rfl)
      refine ⟨next' r', by rw [Function.update_self], hwithin.2 r' ha.sound, ?_⟩
      rw [← hon, Program.on_ask _ hreply]
    · rw [Function.update_of_ne hij]
      exact ⟨p, hp, hwithin, hon⟩

end Reading

/-! ### Calls -/

/-- A call of a database that reads its index. -/
inductive Call
  /-- A request; a loop is cut off after so many rounds. -/
  | resolve (rounds : Nat) (r : Request)
  /-- The references to a document. -/
  | referencedBy (rounds : Nat) (collection path : String)

namespace Call

/-- What the call returns. -/
abbrev Result : Call → Type
  | resolve _ _ => Except QueryError Answer
  | referencedBy _ _ _ => Except QueryError (List Backlink)

/-- The program of the call. -/
def program (db : Database) : (call : Call) → Program call.Result
  | resolve rounds r => (db.resolve rounds r).run
  | referencedBy rounds collection path => (db.referencedBy rounds collection path).run

theorem readsActive (db : Database) (call : Call) : (call.program db).ReadsActive := by
  cases call with
  | resolve rounds r => exact db.reads_resolve rounds r
  | referencedBy rounds collection path => exact db.reads_referencedBy rounds collection path

/-- The call and the runs that go on at the same time. -/
def among (call : Call) (db : Database) (runs : ι → Run) :
    Option ι → Program (call.Result ⊕ Except IndexError Report)
  | none => (call.program db).bind fun a => .done (.inl a)
  | some i => (runs i).program.bind fun a => .done (.inr a)

variable {call : Call} {db : Database} {trace : Trace (Option ι)}
  {w : World (Option ι) (call.Result ⊕ Except IndexError Report)}

/-- The call takes the course of a rebuild that does nothing. -/
theorem exists_runCourse (run : Interleaving (call.among db runs) OrderedMap.empty trace w) :
    ∃ stages, RunCourse (fun x : Option ι => x.elim (.rebuild db 0) runs) .none trace w.store
      stages := by
  have hfollows (x : Option ι) : (call.among db runs x).Follows
      ((x.elim (.rebuild db 0) runs : Run).protocol .none) (fun _ _ => True) .idle := by
    cases x with
    | none =>
      refine Program.Follows.bind ((call.readsActive db).within.follows trivial) ?_
      exact fun _ _ _ => trivial
    | some i =>
      exact Program.Follows.bind (Run.follows .none (runs i) False.elim) fun _ _ _ => trivial
  obtain ⟨stages, course, -⟩ := run.exists_course hfollows fun x hx _ => by
    obtain ⟨s, s', h⟩ := run.exists_answers hx
    generalize (x.1.elim (.rebuild db 0) runs : Run) = r
    cases r with
    | rebuild db rounds => exact Rebuild.allow_none h
    | update db paths => exact Rebuild.allow_none h
  exact ⟨stages, course⟩

/-- What the call may look at stays as it was. -/
theorem get?_eq_of_interleaving {before since rest : Trace (Option ι)}
    {r : Except StorageError (Option Bytes)}
    {w₁ : World (Option ι) (call.Result ⊕ Except IndexError Report)}
    (run₁ : Interleaving (call.among db runs) OrderedMap.empty before w₁)
    (run : Interleaving (call.among db runs) OrderedMap.empty
      (before ++ (none, ⟨.get Key.active.encode, r⟩) :: since) w)
    (hrebuilds : ∀ x ∈ since, ∀ i, x.1 = some i → ∃ db rounds, runs i = .rebuild db rounds)
    (hheld : HeldToEnd (before ++ (none, ⟨.get Key.active.encode, r⟩) :: since ++ rest))
    (hcount : (written (before ++ (none, ⟨.get Key.active.encode, r⟩) :: since)
      Key.counter.encode).length < 2 ^ 64 - 1)
    (hswaps : (written since Key.active.encode).length < 2)
    (hk : (Access.told r).keys k) : w₁.store.get? k = w.store.get? k := by
  obtain ⟨b, g, rfl, hb, hk⟩ := hk
  obtain ⟨stages₁, course₁⟩ := exists_runCourse run₁
  obtain ⟨stages, course⟩ := exists_runCourse run
  have hbefore : (written before Key.counter.encode).length < 2 ^ 64 - 1 := by
    rw [written_append, List.length_append] at hcount
    omega
  -- the call was told the number that was swapped in last
  have hg : w₁.store.get? Key.active.encode = some g.toBytes := by
    obtain ⟨s₀, stages₀, s₀', stage, course₀, ha, -⟩ := course.exists_of_append rfl
    have hstored : w₁.store.get? Key.active.encode = some b := by
      rw [course₁.get?_eq, ← course₀.get?_eq]
      exact ha.reply_eq_get?.symm
    obtain ⟨n, swapped, hn⟩ := Rebuild.numbering_of_course course₁.metaCourse hbefore
    have hlast := Rebuild.get?_of_written course₁ hn.active
    rw [hstored] at hlast
    obtain ⟨g', -, rfl⟩ := Option.map_eq_some_iff.mp hlast.symm
    rw [Generation.parse?_toBytes] at hb
    rw [hstored, Option.some.inj hb]
  have hretained := retained_of_course course₁ hg course hheld hcount ?_ hswaps
  · exact (hretained.same k hk).symm
  · rintro ⟨i, e⟩ hx -
    cases i with
    | none => exact ⟨db, 0, rfl⟩
    | some i =>
      rcases List.mem_cons.mp hx with hx | hx
      · cases hx
      · exact hrebuilds _ hx i rfl

/-- **A call is answered as at the moment when it asked for the active generation.** Whatever
rebuilds and updates have run before, if only rebuilds go on after that, each of which holds its
lock to its end, and if fewer than two of them swap, then the answer is the one that the call gets
if it runs alone on the store as it was. -/
theorem run_eq_of_interleaving (db : Database) (call : Call) (runs : ι → Run)
    {before after : Trace (Option ι)} {r : Except StorageError (Option Bytes)}
    {w₁ w : World (Option ι) (call.Result ⊕ Except IndexError Report)}
    (run₁ : Interleaving (call.among db runs) OrderedMap.empty before w₁)
    (run : Interleaving (call.among db runs) OrderedMap.empty
      (before ++ (none, ⟨.get Key.active.encode, r⟩) :: after) w)
    (hfails : ∀ x ∈ (none, ⟨.get Key.active.encode, r⟩) :: after, x.1 = none → ¬ x.2.fails)
    (hrebuilds : ∀ x ∈ after, ∀ i, x.1 = some i → ∃ db rounds, runs i = .rebuild db rounds)
    (hheld : HeldToEnd (before ++ (none, ⟨.get Key.active.encode, r⟩) :: after))
    (hcount : (written (before ++ (none, ⟨.get Key.active.encode, r⟩) :: after)
      Key.counter.encode).length < 2 ^ 64 - 1)
    (hswaps : (written after Key.active.encode).length < 2)
    {a : call.Result} (hdone : w.left none = .done (.inl a)) {host : Host}
    (hhost : host.store = w₁.store) : Host.run (call.program db) host = (some a, host) := by
  have hreads := call.readsActive db
  have hsame (since rest : Trace (Option ι))
      (w' : World (Option ι) (call.Result ⊕ Except IndexError Report))
      (hsplit : after = since ++ rest)
      (run' : Interleaving (call.among db runs) OrderedMap.empty
        (before ++ (none, ⟨.get Key.active.encode, r⟩) :: since) w')
      (k : Bytes) (hk : (Access.told r).keys k) : w₁.store.get? k = w'.store.get? k := by
    subst hsplit
    rw [← List.cons_append, ← List.append_assoc] at hheld hcount
    rw [written_append, List.length_append] at hcount hswaps
    exact get?_eq_of_interleaving run₁ run'
      (fun x hx => hrebuilds x (List.mem_append_left _ hx)) hheld (by omega) (by omega) hk
  obtain ⟨p, hp, -, hon⟩ := on_of_interleaving run₁ run (t := call.program db) (f := Sum.inl)
    rfl hreads hfails hsame
  rw [hdone] at hp
  cases p with
  | done b =>
    obtain rfl : a = b := Sum.inl.inj (Program.done.inj hp)
    rw [hreads.run_eq, hhost, ← hon]
    rfl
  | ask => cases hp
  | cut => cases hp

/-! ### An answer from before the first generation -/

/-- A request for the note. -/
abbrev early : Call := .resolve 2 (.get "notes" "notes/a.json" .empty)

/-- The first rebuild is at work. -/
def working : Play (Option Unit) (early.Result ⊕ Except IndexError Report) :=
  Host.play ⟨OrderedMap.empty, note "true", 0, 0, false⟩
    (early.among notebook fun _ => .rebuild notebook 2) (.replicate 5 (.asks (some ())))

/-- The note is asked for, and then the rebuild comes to its end. -/
def overtaken : Play (Option Unit) (early.Result ⊕ Except IndexError Report) :=
  Play.go ⟨[], working.host, working.left⟩ (.asks none :: .replicate 13 (.asks (some ())))

/-- There is no active generation when the request is made. -/
theorem overtaken_trace :
    overtaken.trace = (none, ⟨.get Key.active.encode, .ok none⟩) :: overtaken.trace.tail := rfl

/-- There is one at the end. -/
theorem overtaken_active :
    overtaken.host.store.get? Key.active.encode = some (Generation.toBytes 1) := by
  rfl

theorem working_interleaving : Interleaving (early.among notebook fun _ => .rebuild notebook 2)
    OrderedMap.empty working.trace working.world :=
  Host.interleaving_play ⟨OrderedMap.empty, note "true", 0, 0, false⟩
    (early.among notebook fun _ => .rebuild notebook 2) (.replicate 5 (.asks (some ())))

theorem overtaken_interleaving :
    Interleaving (early.among notebook fun _ => .rebuild notebook 2) OrderedMap.empty
      (working.trace ++ (none, ⟨.get Key.active.encode, .ok none⟩) :: overtaken.trace.tail)
      overtaken.world := by
  rw [← overtaken_trace]
  exact Play.interleaving_append working_interleaving _

/-- A note is asked for before the first generation is active. It is not found, though it is there
when the answer comes. -/
theorem run_eq_of_interleaving_early :
    Host.run (early.program notebook) working.host =
      (some (.error (.notFound "notes" "notes/a.json")), working.host) ∧
    overtaken.host.store.get? Key.active.encode = some (Generation.toBytes 1) := by
  have hfails : ∀ x ∈ overtaken.trace, x.1 = none → ¬ x.2.fails := by decide +kernel
  have hguards : ∀ x ∈ working.trace ++ overtaken.trace, ∀ b ∈ x.2.applied?,
      b.ops.length = 1 →
        ⟨Key.lock.encode, none⟩ ∈ b.guards ∨ b.guards.all (·.key ≠ Key.lock.encode) := by
    decide +kernel
  have hcount : (written (working.trace ++ overtaken.trace) Key.counter.encode).length = 1 := by
    decide +kernel
  have hswaps : (written overtaken.trace.tail Key.active.encode).length = 1 := by
    decide
  rw [overtaken_trace] at hfails hguards hcount
  refine ⟨run_eq_of_interleaving notebook early (fun _ => .rebuild notebook 2)
    working_interleaving overtaken_interleaving hfails (fun _ _ _ _ => ⟨_, _, rfl⟩) ?_
    (by omega) (by omega) rfl rfl, overtaken_active⟩
  intro before i l b after htrace
  exact absurd (by simp [htrace]) (not_mem_storing hguards i l b)

end Call

end ContentIndex
