import ContentIndex.Proofs.SwapSafety

/-!
# Stale clearing

A rebuild clears old generations without looking at its lock. If the lock was taken over in the
meantime, then the active generation may be one that the rebuild does not know, and it is cleared
like an old one. Nothing else damages an active generation.

## Main definitions

* `LastWrites`: what a process left under a key
* `Rebuild.Intact`: an index still has what a rebuild wrote into it
* `Rebuild.Damaged`: an index was cleared by a rebuild that had lost its lock
* `Rebuild.Tidy`: what a rebuild has done so far inside of generations

## Main results

* `Rebuild.intact_iff_not_damaged`: **an active generation is intact unless a stale rebuild has
  cleared it**
* `Rebuild.exists_active_without_info`: that may happen
-/

namespace ContentIndex

open Rebuild (Conditions Stage Step Work MetaCourse)

variable {ι : Type}

/-! ### What a process left under a key -/

/-- The process has left the value under the key when it wrote the key last. -/
def LastWrites (trace : Trace ι) (i : ι) (key : Bytes) (v : Option Bytes) : Prop :=
  ∃ before e after, trace = before ++ (i, e) :: after ∧ e.effect? key = some v ∧
    ∀ x ∈ after, x.1 = i → x.2.effect? key = none

/-- A process that has written a key has left something there. -/
theorem exists_lastWrites {trace : Trace ι} {i : ι} {key : Bytes}
    (h : ∃ x ∈ trace, x.1 = i ∧ x.2.effect? key ≠ none) : ∃ v, LastWrites trace i key v := by
  classical
  induction trace with
  | nil =>
    obtain ⟨x, hx, -⟩ := h
    cases hx
  | cons y trace ih =>
    by_cases hlater : ∃ x ∈ trace, x.1 = i ∧ x.2.effect? key ≠ none
    · obtain ⟨v, before, e, after, rfl, he⟩ := ih hlater
      exact ⟨v, y :: before, e, after, rfl, he⟩
    · obtain ⟨x, hx, rfl, hne⟩ := h
      rcases List.mem_cons.mp hx with rfl | hx
      · obtain ⟨v, hv⟩ := Option.ne_none_iff_exists'.mp hne
        refine ⟨v, [], x.2, trace, rfl, hv, fun z hz hzi => ?_⟩
        by_contra hz'
        exact hlater ⟨z, hz, hzi, hz'⟩
      · exact absurd ⟨x, hx, rfl, hne⟩ hlater

theorem LastWrites.concat {trace : Trace ι} {i j : ι} {key : Bytes} {v : Option Bytes}
    {e : Exchange} (h : LastWrites trace i key v) (he : j = i → e.effect? key = none) :
    LastWrites (trace ++ [(j, e)]) i key v := by
  obtain ⟨before, e', after, rfl, he', hafter⟩ := h
  refine ⟨before, e', after ++ [(j, e)], by simp, he', fun x hx hxi => ?_⟩
  rcases List.mem_append.mp hx with hx | hx
  · exact hafter x hx hxi
  · obtain rfl := List.mem_singleton.mp hx
    exact he hxi

namespace Rebuild

variable {db : Database} {c : Conditions} {s s' : Stage} {e : Exchange}

/-! ### Steps inside of generations -/

/-- Only work in a generation and dropping it write inside of generations. -/
theorem Step.effect?_eq_none (h : Step db c s e s') (hb : ∀ w, s ≠ .building w)
    (hd : ∀ l g, s ≠ .dropping l g) {k : Bytes} (hk : Key.generationsPrefix <+: k) :
    e.effect? k = none := by
  by_contra hne
  obtain ⟨v, hv⟩ := Option.ne_none_iff_exists'.mp hne
  rcases h.cases_of_effect? hk hv with ⟨w, hw, -⟩ | ⟨w, hw, -⟩ | ⟨l, g, hw, -⟩
  · exact hb w hw
  · exact hb w hw
  · exact hd l g hw

/-- A rebuild at work removes nothing from its own generation. -/
theorem Step.effect?_ne_delete {w : Work} (h : Step db c (.building w) e s') {k : Bytes}
    (hk : Key.generationPrefix w.number <+: k) : e.effect? k ≠ some none := by
  intro he
  rcases h.cases_of_effect? (Key.starts_of_generationPrefix hk) he with
    ⟨_, ⟨⟩, -, -, hkept⟩ | ⟨_, -, -, hne⟩ | ⟨_, _, ⟨⟩, -⟩
  · exact hkept w.number (by simp [Work.kept]) hk
  · exact hne rfl

/-! ### What a rebuild has done -/

/-- The process has removed nothing from the generation. -/
def Keeps (trace : Trace ι) (i : ι) (g : Generation) : Prop :=
  ∀ x ∈ trace, x.1 = i → ∀ k, Key.generationPrefix g <+: k → x.2.effect? k ≠ some none

/-- What a rebuild has done so far inside of generations: nothing before it has a number, and then
it has removed nothing from its own generation, where it writes the information last. -/
def Tidy (trace : Trace ι) (i : ι) : Stage → Prop
  | .idle | .named _ | .locked _ | .pointed _ _ =>
    ∀ x ∈ trace, x.1 = i → ∀ k, Key.generationsPrefix <+: k → x.2.effect? k = none
  | .numbered w | .building w => Keeps trace i w.number
  | .complete w | .swapped w => Keeps trace i w.number ∧ ∃ info : GenerationInfo,
      info.generation = w.number ∧
        LastWrites trace i (Key.info w.number).encode (some info.toBytes)
  | .dropping _ _ | .ended => True

variable {trace : Trace ι} {i j : ι} {g : Generation}

theorem forall_mem_concat {P : ι × Exchange → Prop} (h : ∀ x ∈ trace, x.1 = i → P x)
    (he : j = i → P (j, e)) : ∀ x ∈ trace ++ [(j, e)], x.1 = i → P x := by
  intro x hx hxi
  rcases List.mem_append.mp hx with hx | hx
  · exact h x hx hxi
  · obtain rfl := List.mem_singleton.mp hx
    exact he hxi

theorem Keeps.concat (h : Keeps trace i g)
    (he : j = i → ∀ k, Key.generationPrefix g <+: k → e.effect? k ≠ some none) :
    Keeps (trace ++ [(j, e)]) i g :=
  forall_mem_concat h he

/-- What others do does not count, and neither does what stays outside of generations. -/
theorem Tidy.concat {stage : Stage} (h : Tidy trace i stage)
    (he : j = i → ∀ k, Key.generationsPrefix <+: k → e.effect? k = none) :
    Tidy (trace ++ [(j, e)]) i stage := by
  have hkeeps {g : Generation} (hg : Keeps trace i g) : Keeps (trace ++ [(j, e)]) i g :=
    hg.concat fun hj k hk => by simp [he hj k (Key.starts_of_generationPrefix hk)]
  have hinfo {g : Generation} (hj : j = i) : e.effect? (Key.info g).encode = none :=
    he hj _ (Key.starts_of_generationPrefix (List.prefix_append _ _))
  cases stage with
  | idle => exact forall_mem_concat h he
  | named => exact forall_mem_concat h he
  | locked => exact forall_mem_concat h he
  | pointed => exact forall_mem_concat h he
  | numbered => exact hkeeps h
  | building => exact hkeeps h
  | complete =>
    obtain ⟨hg, info, hnumber, hlast⟩ := h
    exact ⟨hkeeps hg, info, hnumber, hlast.concat hinfo⟩
  | swapped =>
    obtain ⟨hg, info, hnumber, hlast⟩ := h
    exact ⟨hkeeps hg, info, hnumber, hlast.concat hinfo⟩
  | dropping => trivial
  | ended => trivial

variable [DecidableEq ι] {dbs : ι → Database} {store st : Store} {stages : ι → Stage}

/-- Rebuilds of databases in turns. -/
abbrev RebuildCourse (dbs : ι → Database) (c : Conditions) (store : Store) :
    Trace ι → Store → (ι → Stage) → Prop :=
  Course (fun i => Step (dbs i) c) (fun _ => .idle) store

theorem tidy_of_course (course : RebuildCourse dbs c store trace st stages) (i : ι) :
    Tidy trace i (stages i) := by
  induction course with
  | start => exact nofun
  | @next trace s s' stages j e stage course ha hstep ih =>
    by_cases hij : i = j
    · subst hij
      rw [Function.update_self]
      generalize stages i = old at hstep ih
      have houtside (hb : ∀ w, old ≠ .building w) (hd : ∀ l g, old ≠ .dropping l g) :
          i = i → ∀ k, Key.generationsPrefix <+: k → e.effect? k = none :=
        fun _ k hk => hstep.effect?_eq_none hb hd hk
      have hkeeps (w : Work) (hold : old = .building w) :
          i = i → ∀ k, Key.generationPrefix w.number <+: k → e.effect? k ≠ some none := by
        subst hold
        exact fun _ k hk => hstep.effect?_ne_delete hk
      cases hstep with
      | quiet h => exact ih.concat fun _ k _ => Exchange.effect?_eq_none_of_applied? h k
      | name => exact Tidy.concat ih (houtside nofun nofun)
      | acquire => exact Tidy.concat ih (houtside nofun nofun)
      | point => exact Tidy.concat ih (houtside nofun nofun)
      | @count l active counter g _ _ =>
        have hnothing : Keeps trace i g := fun x hx hxi k hk => by
          simp [ih x hx hxi k (Key.starts_of_generationPrefix hk)]
        refine Tidy.concat ?_ (houtside nofun nofun)
        cases active with
        | none => exact hnothing
        | some p => exact hnothing
      | survey => exact Tidy.concat ih (houtside nofun nofun)
      | @clear w => exact Keeps.concat ih (hkeeps w rfl)
      | @beat w => exact Keeps.concat ih (hkeeps w rfl)
      | @document w => exact Keeps.concat ih (hkeeps w rfl)
      | @inform w =>
        refine ⟨Keeps.concat ih (hkeeps w rfl), ⟨w.number, (dbs i).graph.version,
          (dbs i).graph.typeText, w.active.map (·.1)⟩, rfl, trace, _, [], rfl, ?_, nofun⟩
        exact Batch.effect?_put _ _
      | swap => exact Tidy.concat ih (houtside nofun nofun)
      | giveUp => trivial
      | drop => trivial
      | release => trivial
    · rw [Function.update_of_ne hij]
      exact ih.concat fun hji => absurd hji.symm hij

theorem RebuildCourse.metaCourse (course : RebuildCourse dbs c store trace st stages) :
    MetaCourse store trace st stages :=
  course.mono fun _ _ _ _ h => h.metaStep

/-- Who has written the active generation has swapped, and is done with it. -/
theorem swapped_of_course (course : RebuildCourse dbs c store trace st stages) {x : ι × Exchange}
    (hx : x ∈ trace) (he : x.2.effect? Key.active.encode ≠ none) :
    ∃ w, stages x.1 = .swapped w ∧ x.2 = w.swapping := by
  induction course with
  | start => cases hx
  | @next trace s s' stages j e stage course ha hstep ih =>
    rcases List.mem_append.mp hx with hx | hx
    · obtain ⟨w, hw, hxw⟩ := ih hx
      refine ⟨w, ?_, hxw⟩
      by_cases hxj : x.1 = j
      · subst hxj
        rw [Function.update_self]
        rw [hw] at hstep
        cases hstep with
        | quiet => rfl
        | giveUp hl => cases hl
        | release hl => cases hl
      · rw [Function.update_of_ne hxj, hw]
    · obtain rfl := List.mem_singleton.mp hx
      obtain ⟨w, -, he, rfl⟩ := swap_of_effect?_active hstep.metaStep he
      exact ⟨w, Function.update_self .., he⟩

/-- The active generation that a rebuild has found is the one that was active at some moment after
the rebuild took its lock. -/
theorem found_of_course (course : MetaCourse OrderedMap.empty trace st stages)
    (hd : OwnersDistinct trace) {i : ι} {active : Option (Generation × Bytes)}
    (h : (stages i).active? = some active) :
    ∃ before since, trace = before ++ since ∧
      (∃ x ∈ before, x.1 = i ∧ x.2.effect? Key.lock.encode ≠ none) ∧
      active.map (·.2) = (written before Key.active.encode).getLast?.getD none := by
  induction course with
  | start => cases h
  | @next trace s s' stages j e stage course ha hstep ih =>
    replace hd := hd.of_append
    suffices (stages i).active? = some active ∨
        ∃ l, (stages i).lock? = some l ∧ active.map (·.2) = s.get? Key.active.encode by
      rcases this with h | ⟨l, hl, h⟩
      · obtain ⟨before, since, rfl, hbefore⟩ := ih hd h
        exact ⟨before, since ++ [(j, e)], by simp, hbefore⟩
      · obtain ⟨before, since, first, current, htrace, -⟩ := acquired_of_course course hd hl
        refine ⟨trace, [(j, e)], rfl, ⟨(i, first.storing current), ?_, rfl, by simp⟩, ?_⟩
        · simp [htrace]
        · rw [h, course.get?_eq]
          rfl
    by_cases hij : i = j
    · subst hij
      rw [Function.update_self] at h
      generalize stages i = old at hstep
      cases hstep with
      | inside _ _ _ _ _ hactive =>
        rcases hactive with hactive | hactive
        · exact Or.inl (hactive ▸ h)
        · rw [hactive] at h
          cases h
      | @point l found _ =>
        cases h
        exact Or.inr ⟨l, rfl, ha.reply_eq_get?⟩
      | count =>
        rw [Stage.active?_counted] at h
        exact Or.inl h
      | beat => exact Or.inl h
      | _ => cases h
    · rw [Function.update_of_ne hij] at h
      exact Or.inl h

/-! ### The rebuild that has swapped in the active generation -/

omit [DecidableEq ι] in
/-- What is left under a key only once, one exchange has left there. -/
theorem eq_of_nodup_written {key : Bytes} (h : (written trace key).Nodup) {x y : ι × Exchange}
    (hx : x ∈ trace) (hy : y ∈ trace) {v : Option Bytes} (hxv : x.2.effect? key = some v)
    (hyv : y.2.effect? key = some v) : x = y := by
  have hmem {z : ι × Exchange} {trace : Trace ι} (hz : z ∈ trace)
      (hzv : z.2.effect? key = some v) : v ∈ written trace key :=
    List.mem_filterMap.mpr ⟨z, hz, hzv⟩
  induction trace with
  | nil => cases hx
  | cons z trace ih =>
    have hwritten : written (z :: trace) key = (z.2.effect? key).toList ++ written trace key := by
      cases hz : z.2.effect? key <;> simp [written, hz]
    rw [hwritten, List.nodup_append] at h
    rcases List.mem_cons.mp hx with rfl | hx' <;> rcases List.mem_cons.mp hy with rfl | hy'
    · rfl
    · exact absurd rfl (h.2.2 v (by simp [hxv]) v (hmem hy' hyv))
    · exact absurd rfl (h.2.2 v (by simp [hyv]) v (hmem hx' hxv))
    · exact ih h.2.1 hx' hy'

omit [DecidableEq ι] in
/-- A number that is written once is written by one process. -/
theorem Increases.eq {key : Bytes} (h : Increases trace key) {x y : ι × Exchange}
    (hx : x ∈ trace) (hy : y ∈ trace) {v : Option Bytes} (hxv : x.2.effect? key = some v)
    (hyv : y.2.effect? key = some v) : x = y := by
  obtain ⟨gs, hgs, hlt⟩ := h
  refine eq_of_nodup_written ?_ hx hy hxv hyv
  rw [hgs]
  refine hlt.imp_of_mem ?_ |>.map _ fun _ _ h => h
  intro a b _ _ hab heq
  exact absurd (Generation.toBytes_injective (Option.some.inj heq) ▸ hab) Std.lt_irrefl

/-- The rebuild `i` has swapped in the active generation. -/
structure Swapper (dbs : ι → Database) (trace : Trace ι) (st : Store) (stages : ι → Stage) (i : ι)
    (w : Work) : Prop where
  /-- The run so far. -/
  course : RebuildCourse dbs .none OrderedMap.empty trace st stages
  /-- Names are given once. -/
  owners : OwnersDistinct trace
  /-- Numbers are not used up. -/
  count : (written trace Key.counter.encode).length < 2 ^ 64 - 1
  /-- It has swapped. -/
  stage : stages i = .swapped w
  /-- That was then. -/
  mem : (i, w.swapping) ∈ trace
  /-- Its generation is active. -/
  active : st.get? Key.active.encode = some w.number.toBytes

theorem exists_swapper (course : RebuildCourse dbs .none OrderedMap.empty trace st stages)
    (howners : OwnersDistinct trace)
    (hcount : (written trace Key.counter.encode).length < 2 ^ 64 - 1)
    (hg : st.get? Key.active.encode = some g.toBytes) :
    ∃ i w, Swapper dbs trace st stages i w ∧ w.number = g := by
  obtain ⟨x, hx, hxg⟩ :=
    (eq_or_exists_of_written ((course.get?_eq _).symm.trans hg)).resolve_left nofun
  obtain ⟨w, hstage, hw⟩ := swapped_of_course course hx (by simp [hxg])
  rw [hw, Work.effect?_swapping, if_neg lock_ne_active, if_pos rfl] at hxg
  have hnumber : w.number = g :=
    Generation.toBytes_injective (Option.some.inj (Option.some.inj hxg))
  refine ⟨x.1, w, ⟨course, howners, hcount, hstage, hw ▸ hx, hnumber ▸ hg⟩, hnumber⟩

namespace Swapper

variable {w : Work}

theorem exists_numbering (h : Swapper dbs trace st stages i w) :
    ∃ n swapped, Numbering trace stages n swapped ∧ n < 2 ^ 64 := by
  obtain ⟨n, swapped, hn⟩ := numbering_of_course h.course.metaCourse h.count
  refine ⟨n, swapped, hn, ?_⟩
  have := hn.length_eq
  have := h.count
  omega

/-- It has its number, and the lock was its own from when it took it until it swapped. -/
theorem alone (h : Swapper dbs trace st stages i w) :
    ∃ earlier first current since after,
      trace = (earlier ++ (i, Lock.storing first current) :: since) ++ (i, w.swapping) :: after ∧
      (∀ x ∈ earlier, x.1 = i → x.2.effect? Key.lock.encode = none) ∧
      (∃ x ∈ since, x.1 = i ∧ x.2.effect? Key.counter.encode = some (some w.number.toBytes)) ∧
      ∀ x ∈ since, x.1 ≠ i → x.2.effect? Key.lock.encode = none := by
  obtain ⟨before, after, htrace⟩ := List.append_of_mem h.mem
  obtain ⟨active, g, lock, he, earlier, since, first, current, rfl, -, hearlier, hcounted,
      halone⟩ :=
    swapsAlone_of_course h.course.metaCourse h.owners before i _ after htrace (by simp)
  have hg : w.number.toBytes = g.toBytes := by
    have := congrArg (Exchange.effect? · Key.active.encode) he
    simpa [Exchange.effect?_write, Database.swap, Batch.effect?, WriteOp.key, WriteOp.value?]
      using this
  exact ⟨earlier, first, current, since, after, htrace, hearlier, hg ▸ hcounted,
    fun x hx hxi => (halone x hx hxi).1⟩

/-- Nobody else has its number. -/
theorem eq_of_counted (h : Swapper dbs trace st stages i w) {x : ι × Exchange} (hx : x ∈ trace)
    (hxw : x.2.effect? Key.counter.encode = some (some w.number.toBytes)) : x.1 = i := by
  obtain ⟨n, swapped, hn, hlt⟩ := h.exists_numbering
  obtain ⟨earlier, first, current, since, after, rfl, -, ⟨y, hy, rfl, hyw⟩, -⟩ := h.alone
  rw [(hn.increases_counter hlt).eq hx (by simp [hy]) hxw hyw]

/-- What is at work in its generation, or drops it, is the rebuild itself. -/
theorem eq_of_number (h : Swapper dbs trace st stages i w) {before : Trace ι} {s : Store}
    {stages' : ι → Stage} (course : RebuildCourse dbs .none OrderedMap.empty before s stages')
    (hbefore : before <+: trace) {j : ι} {l : Lock} (hl : (stages' j).lock? = some l)
    (hg : (stages' j).number? = some w.number) : j = i := by
  obtain ⟨after, rfl⟩ := hbefore
  obtain ⟨earlier, since, first, current, rfl, -, -, hcounted, -⟩ :=
    acquired_of_course course.metaCourse h.owners.of_append hl
  obtain ⟨x, hx, rfl, hxg⟩ := hcounted w.number hg
  exact h.eq_of_counted (by simp [hx]) hxg

/-- Only the rebuild itself puts something into its generation. -/
theorem eq_of_put (h : Swapper dbs trace st stages i w) {x : ι × Exchange} (hx : x ∈ trace)
    {k : Bytes} (hk : Key.generationPrefix w.number <+: k) {v : Bytes}
    (hv : x.2.effect? k = some (some v)) : x.1 = i := by
  obtain ⟨before, after, htrace⟩ := List.append_of_mem hx
  obtain ⟨s₁, stages₁, s₂, stage, course, -, hstep⟩ := h.course.exists_of_append htrace
  rcases hstep.cases_of_effect? (Key.starts_of_generationPrefix hk) hv with
    ⟨_, -, -, hv, -⟩ | ⟨w', hw', hk', -⟩ | ⟨_, _, -, -, hv, -⟩
  · cases hv
  · refine h.eq_of_number course ⟨x :: after, htrace.symm⟩ (l := w'.lock) (hw' ▸ rfl) ?_
    rw [hw', Key.eq_of_generationPrefix hk hk']
    rfl
  · cases hv

end Swapper

/-- The process `i` has taken the lock after `j` did. -/
def TookAfter (trace : Trace ι) (i j : ι) : Prop :=
  ∃ before first current after, trace = before ++ (i, Lock.storing first current) :: after ∧
    (∀ x ∈ before, x.1 = i → x.2.effect? Key.lock.encode = none) ∧
    ∃ x ∈ before, x.1 = j ∧ x.2.effect? Key.lock.encode ≠ none

namespace Swapper

variable {w : Work}

/-- The active generation as it was read after the swap is still the active one. -/
theorem read_eq (h : Swapper dbs trace st stages i w) {before : Trace ι}
    (hbefore : before <+: trace) (hmem : (i, w.swapping) ∈ before) :
    (written before Key.active.encode).getLast?.getD none = some w.number.toBytes := by
  obtain ⟨since, rfl⟩ := hbefore
  obtain ⟨n, swapped, hn, -⟩ := h.exists_numbering
  have hactive := hn.active
  have hlast := get?_of_written h.course hn.active
  rw [h.active] at hlast
  obtain ⟨last, hlast, hbytes⟩ := Option.map_eq_some_iff.mp hlast.symm
  obtain rfl := Generation.toBytes_injective hbytes
  -- the numbers that became active until then are the first ones, and `w.number` is among them
  rw [written_append, stored] at hactive
  obtain ⟨first, rest, rfl, hfirst, -⟩ := List.map_eq_append_iff.mp hactive.symm
  have hnumber : w.number ∈ first := by
    have : some w.number.toBytes ∈ written before Key.active.encode :=
      List.mem_filterMap.mpr ⟨_, hmem, by simp⟩
    rw [← hfirst] at this
    obtain ⟨g, hg, heq⟩ := List.mem_map.mp this
    exact Generation.toBytes_injective (Option.some.inj heq) ▸ hg
  have hrest : rest = [] := by
    by_contra hne
    rw [List.getLast?_append_of_ne_nil _ hne] at hlast
    have := (List.pairwise_append.mp hn.increases).2.2 _ hnumber _ (List.mem_of_getLast? hlast)
    exact Std.lt_irrefl this
  subst hrest
  rw [List.append_nil] at hlast
  rw [← hfirst, List.getLast?_map, hlast]
  rfl

/-- Whoever removes something from its generation took the lock before it. -/
theorem tookAfter_of_delete (h : Swapper dbs trace st stages i w) {x : ι × Exchange}
    (hx : x ∈ trace) {k : Bytes} (hk : Key.generationPrefix w.number <+: k)
    (hv : x.2.effect? k = some none) : x.1 ≠ i ∧ TookAfter trace i x.1 := by
  have hne : x.1 ≠ i := by
    intro hxi
    have htidy := tidy_of_course h.course i
    rw [h.stage] at htidy
    exact htidy.1 x hx hxi k hk hv
  refine ⟨hne, ?_⟩
  obtain ⟨before, after, htrace⟩ := List.append_of_mem hx
  obtain ⟨s₁, stages₁, s₂, stage, course, -, hstep⟩ := h.course.exists_of_append htrace
  replace course : RebuildCourse dbs .none OrderedMap.empty before s₁ stages₁ := course
  have hprefix : before <+: trace := ⟨x :: after, htrace.symm⟩
  have howners : OwnersDistinct before := (htrace ▸ h.owners).of_append
  rcases hstep.cases_of_effect? (Key.starts_of_generationPrefix hk) hv with
    ⟨w', hw', -, -, hkept⟩ | ⟨_, -, -, hv⟩ | ⟨l, g, hw', -, -, hk'⟩
  · have hactive : (stages₁ x.1).active? = some w'.active := by
      rw [hw']
      rfl
    obtain ⟨found, since, rfl, ⟨y, hy, hyx, hylock⟩, hfound⟩ :=
      found_of_course course.metaCourse howners hactive
    obtain ⟨earlier, first, current, since', after', htrace', hearlier, -, halone⟩ := h.alone
    have hfoundPrefix : found <+: trace := (List.prefix_append found since).trans hprefix
    have hswapPrefix : (earlier ++ (i, Lock.storing first current) :: since') ++
        [(i, w.swapping)] <+: trace :=
      ⟨after', by simp [htrace']⟩
    rcases List.prefix_or_prefix_of_prefix hfoundPrefix hswapPrefix with hle | hle
    · refine ⟨earlier, first, current, since' ++ (i, w.swapping) :: after', by simp [htrace'],
        hearlier, y, ?_, hyx, hylock⟩
      have hy' := hle.subset hy
      simp only [List.mem_append, List.mem_cons, List.not_mem_nil, or_false] at hy'
      rcases hy' with (hy' | rfl | hy') | rfl
      · exact hy'
      · exact absurd hyx.symm hne
      · exact absurd (halone y hy' (hyx ▸ hne)) hylock
      · exact absurd hyx.symm hne
    · have hread := h.read_eq hfoundPrefix (hle.subset (by simp))
      rw [← hfound] at hread
      obtain ⟨p, hp, hbytes⟩ := Option.map_eq_some_iff.mp hread
      have hcount := h.count
      rw [htrace, written_append, List.length_append] at hcount
      obtain ⟨n, swapped, hn⟩ := numbering_of_course course.metaCourse (by omega)
      have hp' := (hn.found x.1 p (by rw [hw', ← hp]; rfl)).1
      refine absurd hk (hkept w.number ?_)
      rw [← Generation.toBytes_injective (hp'.symm.trans hbytes)]
      simp [Work.kept, hp]
  · exact absurd rfl hv
  · refine absurd (h.eq_of_number course hprefix (l := l) (hw' ▸ rfl) ?_) hne
    rw [hw', Key.eq_of_generationPrefix hk hk']
    rfl

end Swapper

/-! ### Damage -/

/-- The process has made the generation the active one. -/
def SwappedIn (trace : Trace ι) (i : ι) (g : Generation) : Prop :=
  ∃ active lock, (i, ⟨.write (Database.swap active g lock), .ok ()⟩) ∈ trace

/-- What the process has put into the generation is there. -/
def Intact (trace : Trace ι) (st : Store) (i : ι) (g : Generation) : Prop :=
  ∀ k v, Key.generationPrefix g <+: k → LastWrites trace i k (some v) → st.get? k = some v

/-- After the process had written into the generation for the last time, someone who had taken the
lock before it removed that. -/
def Damaged (trace : Trace ι) (i : ι) (g : Generation) : Prop :=
  ∃ j e k before after, trace = before ++ (j, e) :: after ∧ Key.generationPrefix g <+: k ∧
    e.effect? k = some none ∧ (∃ x ∈ before, x.1 = i ∧ x.2.effect? k ≠ none) ∧
    (∀ x ∈ after, x.1 = i → x.2.effect? k = none) ∧ TookAfter trace i j

namespace Swapper

variable {w : Work}

/-- Nobody else has made its generation the active one. -/
theorem eq_of_swappedIn (h : Swapper dbs trace st stages i w) (j : ι)
    (hj : SwappedIn trace j w.number) : j = i := by
  obtain ⟨active, lock, hj⟩ := hj
  obtain ⟨n, swapped, hn, -⟩ := h.exists_numbering
  have heffect (work : Work) (hwork : work.number = w.number) :
      work.swapping.effect? Key.active.encode = some (some w.number.toBytes) := by
    simp [hwork]
  have := hn.increases_active.eq hj h.mem (heffect ⟨lock, active, w.number, none, []⟩ rfl)
    (heffect w rfl)
  exact congrArg Prod.fst this

/-- Others leave nothing in its generation. -/
theorem effect?_of_ne (h : Swapper dbs trace st stages i w) {x : ι × Exchange} (hx : x ∈ trace)
    (hne : x.1 ≠ i) {k : Bytes} (hk : Key.generationPrefix w.number <+: k) :
    x.2.effect? k = none ∨ x.2.effect? k = some none := by
  cases hv : x.2.effect? k with
  | none => exact Or.inl rfl
  | some v =>
    cases v with
    | none => exact Or.inr rfl
    | some v => exact absurd (h.eq_of_put hx hk hv) hne

/-- What was removed after it was written for the last time is gone. -/
theorem not_intact_of_damaged (h : Swapper dbs trace st stages i w)
    (hdamaged : Damaged trace i w.number) : ¬ Intact trace st i w.number := by
  obtain ⟨j, e, k, before, after, rfl, hk, he, hwritten, hafter, -⟩ := hdamaged
  intro hintact
  have hj : j ≠ i := (h.tookAfter_of_delete (x := (j, e)) (by simp) hk he).1
  obtain ⟨v, hlast⟩ := exists_lastWrites hwritten
  obtain ⟨earlier, e', between, rfl, he', hbetween⟩ := hlast
  cases v with
  | none => exact (h.tookAfter_of_delete (x := (i, e')) (by simp) hk he').1 rfl
  | some v =>
    have hstored : st.get? k = some v := by
      refine hintact k v hk ⟨earlier, e', between ++ (j, e) :: after, by simp, he', ?_⟩
      intro x hx hxi
      rcases List.mem_append.mp hx with hx | hx
      · exact hbetween x hx hxi
      · rcases List.mem_cons.mp hx with rfl | hx
        · exact absurd hxi hj
        · exact hafter x hx hxi
    have hgone : ∀ u ∈ written after k, u = none := by
      intro u hu
      obtain ⟨x, hx, hxu⟩ := List.mem_filterMap.mp hu
      by_cases hxi : x.1 = i
      · rw [hafter x hx hxi] at hxu
        cases hxu
      · rcases h.effect?_of_ne (x := x) (by simp [hx]) hxi hk with hnone | hnone
        · rw [hnone] at hxu
          cases hxu
        · exact (Option.some.inj (hnone.symm.trans hxu)).symm
    have hsplit : written ((earlier ++ (i, e') :: between) ++ (j, e) :: after) k =
        written (earlier ++ (i, e') :: between) k ++ none :: written after k := by
      rw [written_append]
      simp [written, he]
    rw [h.course.get?_eq, hsplit,
      List.getLast?_append_of_ne_nil _ (List.cons_ne_nil _ _)] at hstored
    have hnone : ∀ u ∈ none :: written after k, u = none := by
      simpa using hgone
    obtain ⟨u, hu⟩ := List.getLast?_isSome.mpr (List.cons_ne_nil none (written after k)) |>
      Option.isSome_iff_exists.mp
    rw [hu, hnone u (List.mem_of_getLast? hu)] at hstored
    cases hstored

/-- What was not removed is there. -/
theorem intact_of_not_damaged (h : Swapper dbs trace st stages i w)
    (hdamaged : ¬ Damaged trace i w.number) : Intact trace st i w.number := by
  rintro k v hk ⟨before, e, after, rfl, he, hafter⟩
  have hkept : ∀ x ∈ after, x.2.effect? k = none := by
    intro x hx
    by_cases hxi : x.1 = i
    · exact hafter x hx hxi
    · rcases h.effect?_of_ne (x := x) (by simp [hx]) hxi hk with hnone | hdelete
      · exact hnone
      · obtain ⟨between, rest, rfl⟩ := List.append_of_mem hx
        refine absurd ⟨x.1, x.2, k, before ++ (i, e) :: between, rest, by simp, hk, hdelete,
          ⟨(i, e), by simp, rfl, by simp [he]⟩, fun y hy hyi => hafter y (by simp [hy]) hyi, ?_⟩
          hdamaged
        exact (h.tookAfter_of_delete (x := x) (by simp) hk hdelete).2
  have hnil : written after k = [] := List.filterMap_eq_nil_iff.mpr hkept
  have hsplit : written (before ++ (i, e) :: after) k =
      written before k ++ some v :: written after k := by
    rw [written_append]
    simp [written, he]
  rw [h.course.get?_eq, hsplit, hnil]
  simp

end Swapper

/-- **An active generation is intact unless a stale rebuild has cleared it.** Whatever rebuilds run
at the same time, one has swapped in the active generation, with its information. What it has put
there is still there, unless a rebuild that took the lock earlier, and so has lost it to this one,
has removed it since. -/
theorem intact_iff_not_damaged (dbs : ι → Database) (rounds : ι → Nat) {trace : Trace ι}
    {w : World ι (Except IndexError Report)}
    (run : Interleaving (fun i => ((dbs i).rebuild (rounds i)).run) OrderedMap.empty trace w)
    (howners : OwnersDistinct trace)
    (hcount : (written trace Key.counter.encode).length < 2 ^ 64 - 1) {g : Generation}
    (hg : w.store.get? Key.active.encode = some g.toBytes) :
    ∃ i, SwappedIn trace i g ∧ (∀ j, SwappedIn trace j g → j = i) ∧
      (∃ info : GenerationInfo, info.generation = g ∧
        LastWrites trace i (Key.info g).encode (some info.toBytes)) ∧
      (Intact trace w.store i g ↔ ¬ Damaged trace i g) := by
  obtain ⟨stages, course⟩ := exists_course run
  obtain ⟨i, work, h, rfl⟩ := exists_swapper course howners hcount hg
  refine ⟨i, ⟨work.active, work.lock, h.mem⟩, h.eq_of_swappedIn, ?_, ?_⟩
  · have htidy := tidy_of_course h.course i
    rw [h.stage] at htidy
    exact htidy.2
  · constructor
    · exact fun hintact hdamaged => h.not_intact_of_damaged hdamaged hintact
    · exact h.intact_of_not_damaged

/-- After the takeover an index is active, but there is no information on it. -/
theorem takeover_stored :
    takeover.world.store.get? Key.active.encode = some (Generation.toBytes 2) ∧
      takeover.world.store.get? (Key.info 2).encode = none := by
  decide +kernel

/-- In the takeover the first rebuild clears what the second one has swapped in. -/
theorem intact_iff_not_damaged_takeover :
    ∃ i, SwappedIn takeover.trace i 2 ∧ ¬ Intact takeover.trace takeover.world.store i 2 ∧
      Damaged takeover.trace i 2 := by
  obtain ⟨i, hi, -, ⟨info, -, hinfo⟩, hiff⟩ := intact_iff_not_damaged (fun _ => hasty) (fun _ => 2)
    takeover_interleaving takeover_written.1 takeover_count takeover_stored.1
  have hnot : ¬ Intact takeover.trace takeover.world.store i 2 := by
    intro hintact
    have := hintact (Key.info 2).encode _ (List.prefix_append _ _) hinfo
    rw [takeover_stored.2] at this
    cases this
  exact ⟨i, hi, hnot, not_not.mp fun h => hnot (hiff.mpr h)⟩

/-- Rebuilds may take turns in such a way that the active generation has no information. -/
theorem exists_active_without_info :
    ∃ (trace : Trace Bool) (w : World Bool (Except IndexError Report)),
      Interleaving (fun _ => (hasty.rebuild 2).run) OrderedMap.empty trace w ∧
      OwnersDistinct trace ∧ (written trace Key.counter.encode).length < 2 ^ 64 - 1 ∧
      w.store.get? Key.active.encode = some (Generation.toBytes 2) ∧
      w.store.get? (Key.info 2).encode = none :=
  ⟨takeover.trace, takeover.world, takeover_interleaving, takeover_written.1, takeover_count,
    takeover_stored⟩

end Rebuild

end ContentIndex
