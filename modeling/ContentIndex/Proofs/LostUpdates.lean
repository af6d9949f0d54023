import ContentIndex.Proofs.Convergence
import ContentIndex.Proofs.FailedRebuild
import ContentIndex.Proofs.FirstRebuild
import ContentIndex.Proofs.RebuildHistory
import ContentIndex.Proofs.Retention

/-!
# Updates during rebuilds

An update looks for a rebuild once, when it begins. What it writes after that is guarded by the
active generation, and a rebuild that has begun meanwhile makes its own generation active at last.
So the update writes into a generation that is on its way out, and what it has found of a document
is kept only if the rebuild has found the same. If the update begins when the rebuild has swapped,
then both work on one generation, and what the update leaves there stays.

## Main definitions

* `Store.Names`: the information on a generation names it
* `Database.both`: a rebuild and an update
* `Database.Loses`: the rebuild has made another generation active than the update has written into,
  and has found something else of the document

## Main results

* `Database.swapped_of_done`: the rebuild swaps in the next number, with what it has found
* `Database.get?_of_apart`, `Database.get?_of_together`: what is stored of a document in the end
* `Database.keeps_update_iff_not_loses`: **a rebuild keeps an update unless it loses it**
* `Database.exists_lost_update`: that may happen
-/

namespace ContentIndex

open Generation (Reads)
open Rebuild (Conditions Copies Stage)
open Source (Files)
open Update (Account)

/-! ### Information on generations -/

/-- The information on a generation names it. -/
def Store.Names (s : Store) : Prop :=
  ∀ g b i, s.get? (Key.info g).encode = some b → GenerationInfo.ofBytes? b = some i →
    i.generation = g

/-- No record has an entry for the information on a generation. -/
theorem Rebuild.Conditions.Enters.ne_info {c : Conditions} {db : Database} {x : Entry}
    (h : c.Enters db x) (g : Generation) : x.1 ≠ (Key.info g).encode := by
  obtain ⟨col, -, r, n, -, -, hx⟩ := h
  obtain ⟨a, ha⟩ := Record.exists_start_of_mem_entries hx
  intro hkey
  rw [hkey] at ha
  obtain rfl := Key.eq_of_generationPrefix (a.starts_start.trans ha) Key.info_starts
  exact Key.not_start_info ha

/-- Runs keep to that. -/
theorem Store.Names.of_interleaving {ι : Type} [DecidableEq ι] {runs : ι → Run} {s : Store}
    {trace : Trace ι} {w : World ι (Except IndexError Report)} (hs : s.Names)
    (run : Interleaving (fun i => (runs i).program) s trace w) : w.store.Names := by
  obtain ⟨stages, course⟩ := Run.exists_course run
  intro g b i hb hread
  rcases eq_or_exists_of_written ((run.get?_eq _).symm.trans hb) with hstored | ⟨x, hx, hput⟩
  · exact hs g b i hstored hread
  · obtain ⟨before, after, htrace⟩ := List.append_of_mem hx
    obtain ⟨_, stages', _, _, -, -, hstep⟩ := course.exists_of_append htrace
    have hstarts : Key.generationsPrefix <+: (Key.info g).encode :=
      Key.starts_of_generationPrefix Key.info_starts
    rcases Run.cases_of_put hstep hstarts hput with henters | ⟨i', hkey, hvalue⟩
    · exact absurd rfl (henters.ne_info g)
    · rw [hvalue, GenerationInfo.ofBytes?_toBytes] at hread
      obtain rfl := Option.some.inj hread
      refine Key.eq_of_generationPrefix Key.info_starts ?_
      rw [← hkey]
      exact Key.info_starts

theorem Store.Reachable.names {s : Store} (h : s.Reachable) : s.Names := by
  obtain ⟨ι, _, runs, trace, w, run, -, rfl⟩ := h
  have hempty : Store.Names OrderedMap.empty :=
    fun _ b _ hb => nomatch (show none = some b from hb)
  exact hempty.of_interleaving run

/-! ### A rebuild and an update -/

/-- A member of a list is there for the last time. -/
theorem exists_last_of_mem {α : Type} {a : α} {l : List α} (h : a ∈ l) :
    ∃ before after, l = before ++ a :: after ∧ a ∉ after := by
  obtain ⟨after, before, hreverse, hnot⟩ := List.eq_append_cons_of_mem (List.mem_reverse.mpr h)
  refine ⟨before.reverse, after.reverse, ?_, fun hmem => hnot (List.mem_reverse.mp hmem)⟩
  rw [← List.reverse_reverse l, hreverse]
  simp

namespace Database

/-- A rebuild of a database and an update of paths. -/
def both (db : Database) (rounds : Nat) (paths : List String) : Bool → Run
  | true => .rebuild db rounds
  | false => .update db paths

section Both

variable {db : Database} {rounds : Nat} {paths : List String} {s : Store} {trace : Trace Bool}
  {w : World Bool (Except IndexError Report)} {r u : Report}

/-- The contents that were read. -/
def contents (trace : Trace Bool) : Set Bytes := {b | ∃ x ∈ trace, ∃ p, x.2 = ⟨.content p, .ok b⟩}

/-- A number that was read is stored. -/
theorem number?_eq_of_reads {key : Key} {stored : Option (Generation × Bytes)} (h : Reads stored)
    (hstored : s.get? key.encode = stored.map (·.2)) : s.number? key = stored.map (·.1) := by
  rw [Store.number?, hstored]
  cases stored with
  | none => rfl
  | some p => exact h p rfl

variable (hG : db.graph.IsCompiled)
  (run : Interleaving (fun i => (db.both rounds paths i).program) s trace w)
include run

theorem update_accounted (hu : w.left false = .done (.ok u)) :
    Update.Accounted db u.generation (history false trace) := by
  have hfollows : (db.both rounds paths false).program.Follows History.protocol
      (Ends (fun report => Update.Accounted db report.generation) fun _ _ => True) [] :=
    Update.follows_accounted db paths
  have hpost := History.of_done run hfollows hu
  exact hpost

theorem rebuild_accounted (hG : db.graph.IsCompiled) (hr : w.left true = .done (.ok r)) :
    Rebuild.Accounted db r.generation (ledger true trace) := by
  have hfollows : (db.both rounds paths true).program.Follows Ledger.protocol
      (Ends (fun report => Rebuild.Accounted db report.generation) Rebuild.Unsaid) [] :=
    Rebuild.follows_accounted hG rounds
  have hpost := Ledger.of_done run hfollows hr
  exact hpost

/-- What the update writes lies in the generation that it reports. -/
theorem starts_of_effect?_update (hu : w.left false = .done (.ok u)) {x : Bool × Exchange}
    (hx : x ∈ trace) (hfalse : x.1 ≠ true) {k : Bytes} (hk : x.2.effect? k ≠ none) :
    Key.generationPrefix u.generation <+: k := by
  obtain ⟨v, heffect⟩ := Option.ne_none_iff_exists'.mp hk
  obtain ⟨b, happlied, hb⟩ := Option.bind_eq_some_iff.mp heffect
  have hmem : ⟨.write b, .ok ()⟩ ∈ history false trace := by
    rw [mem_history_iff, ← Exchange.applied?_eq_some_iff.mp happlied,
      ← Bool.eq_false_of_not_eq_true hfalse]
    exact hx
  obtain ⟨pre, post, hhistory⟩ := List.append_of_mem hmem
  obtain ⟨visit, new, -, -, -, -, rfl⟩ := (update_accounted run hu).account.batches hhistory
  exact Update.Visit.starts_of_effect? hb

/-- Outside of the generations only the rebuild writes. -/
theorem written_eq_outside (hu : w.left false = .done (.ok u)) {t t' : Trace Bool}
    (htrace : trace = t ++ t') {key : Bytes} (hkey : ¬ Key.generationsPrefix <+: key) :
    written t key = (ledger true t).filterMap (·.effect? key) := by
  refine written_eq_of_sole fun x hx hfalse => ?_
  by_contra hne
  exact hkey (Key.starts_of_generationPrefix
    (starts_of_effect?_update run hu (htrace ▸ List.mem_append_left _ hx) hfalse hne))

/-- The guards of a batch of the rebuild tell what was stored at first, where it has not written. -/
theorem get?_of_guard (hu : w.left false = .done (.ok u)) {h h' : List Exchange} {b : Batch}
    (hledger : ledger true trace = h ++ ⟨.write b, .ok ()⟩ :: h') {g : Guard} (hg : g ∈ b.guards)
    (hkey : ¬ Key.generationsPrefix <+: g.key) (hh : ∀ e ∈ h, e.effect? g.key = none) :
    s.get? g.key = g.expected := by
  obtain ⟨t, t', htrace, rfl, -⟩ := exists_of_ledger_cons hledger
  obtain ⟨w₁, _, run₁, -, ha⟩ := (htrace ▸ run).exists_at
  rw [← ha.guard_eq hg, run₁.get?_eq, written_eq_outside run hu htrace hkey,
    List.filterMap_eq_nil_iff.mpr hh]
  rfl

include hG

/-- The rebuild has swapped in the next generation, where it has written what it has found. -/
theorem swapped_of_done (hr : w.left true = .done (.ok r)) (hu : w.left false = .done (.ok u)) :
    r.generation = s.nextNumber ∧ ∃ (active : Option (Generation × Bytes)) (lock : Lock)
      (work : List Exchange), ledger true trace =
          work ++ [⟨.write (swap active r.generation lock), .ok ()⟩] ∧
        (∀ e ∈ work, e.effect? Key.active.encode = none) ∧
        ∀ c p, db.graph.owner? p = some c →
          work.filterMap (·.effect? (Key.document r.generation c.name p).encode) =
            (work.filterMap (·.shows? db c p)).map some := by
  obtain ⟨taken, lock, current, active, counter, work, hactive, hcounter, hg, hwork, hledger⟩ :=
    rebuild_accounted run hG hr
  have hfirst : ∀ e ∈ [taken.storing current, r.generation.counting (counter.map (·.2))],
      ∀ key, key ≠ Key.lock.encode → key ≠ Key.counter.encode → e.effect? key = none := by
    simp +contextual [eq_comm]
  have hwrites : ∀ e ∈ [taken.storing current, r.generation.counting (counter.map (·.2))] ++ work,
      e.effect? Key.active.encode = none := by
    intro e he
    rcases List.mem_append.mp he with he | he
    · exact hfirst e he _ active_ne_lock active_ne_counter
    · exact hwork.active e he
  have hcounted : s.get? Key.counter.encode = counter.map (·.2) := by
    refine get?_of_guard run hu (h := [taken.storing current]) hledger
      (g := ⟨Key.counter.encode, counter.map (·.2)⟩) (List.mem_singleton_self _)
      Key.not_starts_counter ?_
    simp
  have hpointed : s.get? Key.active.encode = active.map (·.2) :=
    get?_of_guard run hu hledger (g := ⟨Key.active.encode, active.map (·.2)⟩)
      (List.mem_cons_self ..) Key.not_starts_active hwrites
  refine ⟨?_, active, lock, _, hledger, hwrites, fun c p howner => ?_⟩
  · rw [hg, Store.nextNumber, number?_eq_of_reads hcounter hcounted,
      number?_eq_of_reads hactive hpointed]
  · have hstarts : Key.generationPrefix r.generation <+:
        (Key.document r.generation c.name p).encode := Key.generation_starts_document
    obtain ⟨hlock, hcounter⟩ := Rebuild.Ongoing.ne_of_starts (Key.starts_of_generationPrefix hstarts)
    rw [List.filterMap_append, List.filterMap_append, hwork.documents c p howner,
      List.filterMap_eq_nil_iff.mpr fun e he => hfirst e he _ hlock hcounter]
    rfl

/-- The generation of the rebuild is active in the end. -/
theorem active_of_done (hr : w.left true = .done (.ok r)) (hu : w.left false = .done (.ok u)) :
    w.store.get? Key.active.encode = some r.generation.toBytes := by
  obtain ⟨-, active, lock, work, hledger, hwrites, -⟩ := swapped_of_done hG run hr hu
  rw [run.get?_eq, written_eq_outside run hu (List.append_nil _).symm Key.not_starts_active,
    hledger, List.filterMap_append, List.filterMap_eq_nil_iff.mpr hwrites]
  simp

variable (hs : s.Reachable) (hr : w.left true = .done (.ok r)) (hu : w.left false = .done (.ok u))
include hs hr hu

/-- Nothing was stored in the generation of the rebuild before. -/
theorem get?_eq_none_before {k : Bytes} (hk : Key.generationPrefix r.generation <+: k) :
    s.get? k = none :=
  hs.numbered.free k ((swapped_of_done hG run hr hu).1 ▸ hk)

/-- If the update has written into another generation, then what the rebuild has found of a document
is what is stored of it. -/
theorem get?_of_apart (hapart : u.generation ≠ r.generation) {c : Graph.Collection} {p : String}
    (howner : db.graph.owner? p = some c) :
    w.store.get? (Key.document r.generation c.name p).encode =
      db.found c p (history true trace) := by
  obtain ⟨-, active, lock, work, hledger, -, hdocuments⟩ := swapped_of_done hG run hr hu
  have hstarts : Key.generationPrefix r.generation <+:
      (Key.document r.generation c.name p).encode := Key.generation_starts_document
  have hsole : ∀ x ∈ trace, x.1 ≠ true →
      x.2.effect? (Key.document r.generation c.name p).encode = none := by
    intro x hx hfalse
    by_contra hne
    have hupdated := starts_of_effect?_update run hu hx hfalse hne
    exact hapart (Key.eq_of_generationPrefix hupdated hstarts)
  obtain ⟨hlock, -⟩ := Rebuild.Ongoing.ne_of_starts (Key.starts_of_generationPrefix hstarts)
  have hpointer : (Key.document r.generation c.name p).encode ≠ Key.active.encode := by
    intro heq
    refine Key.not_starts_active ?_
    rw [← heq]
    exact Key.starts_of_generationPrefix hstarts
  have hswap : Exchange.effect? ⟨.write (swap active r.generation lock), .ok ()⟩
      (Key.document r.generation c.name p).encode = none := by
    simp [hlock.symm, hpointer.symm]
  have hwritten : (ledger true trace).filterMap
      (·.effect? (Key.document r.generation c.name p).encode) =
        (work.filterMap (·.shows? db c p)).map some := by
    rw [hledger, List.filterMap_append, hdocuments c p howner]
    simp [hswap]
  have hshown : (ledger true trace).filterMap (·.shows? db c p) =
      work.filterMap (·.shows? db c p) := by
    simp [hledger, List.filterMap_cons]
  rw [run.get?_eq, written_eq_of_sole hsole, get?_eq_none_before hG run hs hr hu hstarts, hwritten,
    ← found_ledger, found, hshown, List.getLast?_map]
  cases (work.filterMap (·.shows? db c p)).getLast? <;> rfl

/-- What is stored of a document in the generation of the rebuild was made of a content that was
read, in the collection that the path belongs to. -/
theorem exists_content_of_get? {t t' : Trace Bool} (htrace : trace = t ++ t')
    {c : Graph.Collection} (hc : c ∈ db.graph.collections) {p : String} {b : Bytes}
    (hb : s.valueAfter t (Key.document r.generation c.name p).encode = some b) :
    db.graph.owner? p = some c ∧ ∃ content ∈ contents trace,
      db.shown c p (.ok content) = some b := by
  obtain ⟨w', run'⟩ := (htrace ▸ run).exists_of_append
  have hdatabase (i : Bool) : (db.both rounds paths i).database = db := by
    cases i <;> rfl
  have hallow : ∀ x ∈ t, Conditions.Allow ⟨False, fun c r => db.graph.owner? r.path = some c ∧
      ∃ content ∈ contents trace, db.shown c r.path (.ok content) = some r.toBytes⟩
      (db.both rounds paths x.1).database x.2 := by
    rintro ⟨i, e⟩ hx
    obtain ⟨s₁, s₂, ha⟩ := run'.exists_answers hx
    refine .of_answers ha (fun _ _ _ => False.elim) ?_
    rintro path content rfl col hcol howns r' ws hrecord
    rw [hdatabase] at hcol howns hrecord
    obtain ⟨-, rfl, -⟩ := eq_of_record hrecord
    exact ⟨howns.owner? hG hcol, content, ⟨_, htrace ▸ List.mem_append_left _ hx, _, rfl⟩,
      shown_of_record hrecord⟩
  obtain ⟨stages, course⟩ := Run.course_of_allow run' (fun _ => False.elim) hallow
  obtain ⟨x, hx, heffect⟩ := (eq_or_exists_of_written hb).resolve_left fun hstored => by
    rw [get?_eq_none_before hG run hs hr hu Key.generation_starts_document] at hstored
    cases hstored
  obtain ⟨r', rfl, rfl, hgood⟩ := Run.exists_good_of_put hG (fun i => by rw [hdatabase]) course hc
    hx heffect
  exact hgood

omit hs in
/-- After it has written the pointer, the rebuild writes no more. -/
theorem ledger_eq_nil_of_pointed {t t' : Trace Bool} (htrace : trace = t ++ t') {e : Exchange}
    (he : (true, e) ∈ t) (heffect : e.effect? Key.active.encode ≠ none) : ledger true t' = [] := by
  obtain ⟨-, active, lock, work, hledger, hwrites, -⟩ := swapped_of_done hG run hr hu
  have hnoted : e ∈ ledger true t := by
    refine mem_ledger_iff.mpr ⟨he, Exchange.counts_of_applied? fun hnone => heffect ?_⟩
    exact Exchange.effect?_eq_none_of_applied? hnone _
  rw [htrace, ledger_append] at hledger
  rcases List.eq_nil_or_concat (ledger true t') with hnil | ⟨rest, y, hconcat⟩
  · exact hnil
  · -- otherwise it has written the pointer before its last exchange
    rw [hconcat, List.concat_eq_append, ← List.append_assoc] at hledger
    obtain ⟨hwork, -⟩ := List.append_inj' hledger rfl
    exact absurd (hwrites e (hwork ▸ List.mem_append_left _ hnoted)) heffect

/-- Once the update was told that the generation of the rebuild is active, the rebuild writes no
more. -/
theorem applied?_eq_none_of_told {t t' : Trace Bool} {a : Bytes}
    (htrace : trace = t ++ (false, ⟨.get Key.active.encode, .ok (some a)⟩) :: t')
    (hparse : Generation.parse? a = some r.generation) :
    ∀ e, (true, e) ∈ t' → e.applied? = none := by
  obtain ⟨w₁, _, run₁, -, ha⟩ := (htrace ▸ run).exists_at
  rcases eq_or_exists_of_written ((run₁.get?_eq _).symm.trans ha.reply_eq_get?.symm) with
    hstored | ⟨⟨i, e'⟩, hx, heffect⟩
  · -- before the runs only smaller numbers were active
    have hbelow := hs.numbered.above r.generation <| Or.inr <| by
      rw [Store.number?, hstored]
      exact hparse
    rw [← (swapped_of_done hG run hr hu).1] at hbelow
    exact absurd hbelow (UInt64.lt_irrefl _)
  · have hpointed : e'.effect? Key.active.encode ≠ none := by
      rw [heffect]
      exact Option.some_ne_none _
    obtain rfl : i = true := by
      by_contra hfalse
      have hmem : (i, e') ∈ trace := htrace ▸ List.mem_append_left _ hx
      exact Key.not_starts_active (Key.starts_of_generationPrefix
        (starts_of_effect?_update run hu hmem hfalse hpointed))
    rw [List.append_cons] at htrace
    have hnil := ledger_eq_nil_of_pointed hG run hr hu htrace (List.mem_append_left _ hx) hpointed
    intro e he
    by_contra hne
    have hcounted := mem_ledger_iff.mpr ⟨he, Exchange.counts_of_applied? hne⟩
    rw [hnil] at hcounted
    cases hcounted

/-- If the update has written into the generation of the rebuild, then what it has found of a
document last is what is stored of it. -/
theorem get?_of_together (hsame : u.generation = r.generation)
    (hsha : Set.InjOn Sha256.hex (contents trace)) {c : Graph.Collection} {p : String}
    (howner : db.graph.owner? p = some c) {before after : Trace Bool} {x : Except SourceError Bytes}
    (htrace : trace = before ++ (false, ⟨.content p, x⟩) :: after)
    (hlast : ∀ y, (false, ⟨.content p, y⟩) ∉ after) (hread : ∀ e, x = .error e → e.IsAbsence) :
    w.store.get? (Key.document r.generation c.name p).encode = db.shown c p x := by
  obtain ⟨⟨first, hfirst, hidle, a, b, i, v, hactive, hparse, hinfo, hinforms, hgeneration⟩,
    haccount⟩ := update_accounted run hu
  rw [hsame] at haccount
  -- the pointer that the update has read names the generation of the rebuild
  have hnamed : b = r.generation := by
    obtain ⟨t, t', ht⟩ := List.append_of_mem (mem_history_iff.mp (hfirst.subset hinfo))
    obtain ⟨w₁, _, run₁, -, ha⟩ := (ht ▸ run).exists_at
    have hnames := hs.names.of_interleaving run₁
    exact (hnames b v i ha.reply_eq_get?.symm hinforms).symm.trans (hgeneration.trans hsame)
  -- and it has read it before the content
  have hbefore : first <+: history false before := by
    have hwhole : history false before ++ [⟨.content p, x⟩] <+: history false trace := by
      simp [htrace]
    have hnot : ⟨.content p, x⟩ ∉ first := fun hmem => (hidle _ hmem).2 p x rfl
    rcases List.prefix_or_prefix_of_prefix hfirst hwhole with hle | hle
    · rcases List.prefix_concat_iff.mp hle with heq | hle
      · exact absurd (heq ▸ by simp) hnot
      · exact hle
    · exact absurd (hle.subset (by simp)) hnot
  have hused : ∀ content, x = .ok content → content ∈ contents trace := by
    rintro content rfl
    exact ⟨_, htrace ▸ List.mem_append_right _ (List.mem_cons_self ..), p, rfl⟩
  obtain ⟨u₁, u₂, rfl, hat, hpast, hrest⟩ := Update.exists_shown hG hsha run
    (fun t t' ht c hc p b hb => (exists_content_of_get? hG run hs hr hu ht hc hb).2) haccount howner
    htrace hlast hused hread
  obtain ⟨t, t', rfl⟩ :=
    List.append_of_mem (mem_history_iff.mp ((hbefore.trans hpast).subset hactive))
  have hquiet : ∀ e, (true, e) ∈ t' ++ u₂ → e.applied? = none :=
    applied?_eq_none_of_told (t := t) hG run hs hr hu (by simp) (hnamed ▸ hparse)
  rw [run.get?_eq_valueAfter]
  by_contra hne
  obtain ⟨t₁, i, e, t₂, y, rfl, -, heffect, hy, -⟩ := exists_last_departure hat hne
  cases i with
  | false => exact hy (hrest t₁ e t₂ y rfl heffect)
  | true =>
    rw [Exchange.effect?_eq_none_of_applied? (hquiet e (by simp))] at heffect
    cases heffect

end Both

/-- The update is lost: the rebuild has swapped in another generation than the one that the update
has written into, and it has not found there what the update has found. -/
def Loses (db : Database) (c : Graph.Collection) (p : String) (x : Except SourceError Bytes)
    (trace : Trace Bool) (r u : Report) : Prop :=
  u.generation ≠ r.generation ∧ db.found c p (history true trace) ≠ db.shown c p x

/-- **A rebuild keeps an update unless it loses it.** A rebuild and an update run in turns and both
succeed. Then the generation of the rebuild is active, and of a document that the update has read
and that has not changed for it since, the record of the content is stored there, or none if there
is none, if and only if the update is not lost. In collections that the path does not belong to
nothing is stored. -/
theorem keeps_update_iff_not_loses {db : Database} {rounds : Nat} {paths : List String} {s : Store}
    {trace : Trace Bool} {w : World Bool (Except IndexError Report)} {r u : Report}
    (hG : db.graph.IsCompiled) (hs : s.Reachable)
    (run : Interleaving (fun i => (db.both rounds paths i).program) s trace w)
    (hr : w.left true = .done (.ok r)) (hu : w.left false = .done (.ok u))
    (hsha : Set.InjOn Sha256.hex (contents trace)) (p : String) :
    w.store.get? Key.active.encode = some r.generation.toBytes ∧
      (∀ c ∈ db.graph.collections, db.graph.owner? p ≠ some c →
        w.store.get? (Key.document r.generation c.name p).encode = none) ∧
      ∀ c, db.graph.owner? p = some c → ∀ before x after,
        trace = before ++ (false, ⟨.content p, x⟩) :: after →
        (∀ y, (false, ⟨.content p, y⟩) ∈ after → y = x) → (∀ e, x = .error e → e.IsAbsence) →
        (w.store.get? (Key.document r.generation c.name p).encode = db.shown c p x ↔
          ¬ db.Loses c p x trace r u) := by
  refine ⟨active_of_done hG run hr hu, fun c hc hne => ?_, ?_⟩
  · refine Option.eq_none_iff_forall_ne_some.mpr fun b hb => hne ?_
    rw [run.get?_eq_valueAfter] at hb
    exact (exists_content_of_get? hG run hs hr hu (List.append_nil _).symm hc hb).1
  · intro c howner before x after htrace hstable hread
    by_cases hsame : u.generation = r.generation
    · -- the last reading of the update has told the same
      obtain ⟨earlier, later, hsplit, hlater⟩ := exists_last_of_mem
        (List.mem_cons_self (a := (false, (⟨.content p, x⟩ : Exchange))) (l := after))
      have hlast (y : Except SourceError Bytes) : (false, ⟨.content p, y⟩) ∉ later := by
        intro hy
        have hmem : (false, ⟨.content p, y⟩) ∈ (false, ⟨.content p, x⟩) :: after :=
          hsplit ▸ List.mem_append_right _ (List.mem_cons_of_mem _ hy)
        obtain rfl : y = x := by
          rcases List.mem_cons.mp hmem with heq | hmem
          · cases heq
            rfl
          · exact hstable y hmem
        exact hlater hy
      have hkept := get?_of_together hG run hs hr hu hsame hsha howner
        (by rw [htrace, hsplit, List.append_assoc]) hlast hread
      exact iff_of_true hkept fun hloses => hloses.1 hsame
    · rw [get?_of_apart hG run hs hr hu hsame howner, Loses, and_iff_right hsame, not_not]

/-! ### A rebuild of no documents -/

section Alone

variable {fs : Files} {db : Database} {s : Store} {g n : Generation} {rounds : Nat}

/-- A number is handed out. -/
theorem succeeds_prepare {counter : Generation}
    (hactive : s.get? Key.active.encode = some g.toBytes)
    (hcounter : s.get? Key.counter.encode = some counter.toBytes)
    (hn : Generation.successor (some counter) (some g) = n) :
    prepare.Succeeds fs s (some (g, g.toBytes), n) (s.insert Key.counter.encode n.toBytes) := by
  subst hn
  refine Failing.Succeeds.bind (succeeds_stored? hactive) ?_
  refine Failing.Succeeds.bind (a := Generation.successor (some counter) (some g)) ?_ .pure
  refine Failing.Succeeds.bind
    (.outcome (Failing.Succeeds.bind (succeeds_stored? hcounter) ?_)) .pure
  refine Failing.Succeeds.bind (.write ?_) .pure
  intro guard hguard
  obtain rfl := List.mem_singleton.mp hguard
  exact hcounter

/-- A generation without documents is built. -/
theorem succeeds_build {l : Lock} {i : GenerationInfo}
    (hinfo : s.get? (Key.info g).encode = some i.toBytes)
    (hclear : ∀ range ∈ Generation.rangesExcept ([g] ++ i.previous.toList ++ [n]),
      s.scan range .forward Scan.defaultChunk = [])
    (hdocuments : db.documents.Succeeds fs s [] s) :
    Building.Succeeds fs (db.build (rounds + 1) (some g) n) l s { generation := n }
      (s.insert (Key.info n).encode
        (GenerationInfo.mk n db.graph.version db.graph.typeText (some g)).toBytes) := by
  refine Building.Succeeds.bind (.lift (.storage ((succeeds_info? hinfo).bind .pure))) ?_
  refine Building.Succeeds.bind (.lift (.storage (succeeds_clearExcept hclear))) ?_
  refine Building.Succeeds.bind (.lift hdocuments) ?_
  refine Building.Succeeds.bind .pure ?_
  refine Building.Succeeds.bind (.lift .checkCancelled) ?_
  exact Building.Succeeds.bind (.lift (.storage (.write nofun))) .pure

/-- What is left of a rebuild that has built its generation: the generation becomes active. -/
def finish (rounds : Nat) (active : Option (Generation × Bytes)) (l : Lock) (report : Report) :
    Program (Except IndexError Report) :=
  ExceptT.run do
    match ← (Storage.write (swap active report.generation l)).outcome with
    | .ok () => return report
    | .error e =>
      ExceptT.lift (abandon rounds report.generation l)
      throw (swapFailure l e)

/-- The store when a rebuild has taken the lock and a number. -/
def begunOn (s : Store) (n : Generation) (l : Lock) : Store :=
  (s.apply (.put Key.lock.encode l.toBytes)).apply (.put Key.counter.encode n.toBytes)

/-- The store when it has built its generation and found no documents. -/
def builtOn (db : Database) (s : Store) (g n : Generation) (l : Lock) : Store :=
  (begunOn s n l).apply (.put (Key.info n).encode
    (GenerationInfo.mk n db.graph.version db.graph.typeText (some g)).toBytes)

/-- A rebuild of no documents gets to its swap in turns, too. -/
theorem exists_finishing {ι : Type} [DecidableEq ι]
    {programs : ι → Program (Except IndexError Report)} {s : Store} {trace : Trace ι}
    {w : World ι (Except IndexError Report)} {i : ι}
    (run : Interleaving programs s trace w) (hi : w.left i = (db.rebuild (rounds + 1)).run)
    (hlock : w.store.get? Key.lock.encode = none)
    (hactive : w.store.get? Key.active.encode = some g.toBytes) {counter : Generation}
    (hcounter : w.store.get? Key.counter.encode = some counter.toBytes)
    (hn : Generation.successor (some counter) (some g) = n) {info : GenerationInfo}
    (hinfo : w.store.get? (Key.info g).encode = some info.toBytes) (l : Lock)
    (hclear : ∀ range ∈ Generation.rangesExcept ([g] ++ info.previous.toList ++ [n]),
      (begunOn w.store n l).scan range .forward Scan.defaultChunk = [])
    (hdocuments : ∀ s, db.documents.Succeeds fs s [] s) :
    ∃ trace', Interleaving programs s (trace ++ trace') ⟨db.builtOn w.store g n l,
        Function.update w.left i
          (finish (rounds + 1) (some (g, g.toBytes)) l { generation := n })⟩ ∧
      ∀ x ∈ trace', x.1 = i ∧ fs.Answers x.2 := by
  have hacquire : (Lock.acquire db.settings.lockSeconds).Succeeds fs w.store l
      (w.store.insert Key.lock.encode l.toBytes) := succeeds_acquire hlock l
  obtain ⟨t, run₁, ht⟩ := run.exists_of_runs hacquire hi
  have hprepare : Failing.Succeeds fs
      (Failing.outcome prepare : Failing IndexError (Except StorageError _))
      (w.store.insert Key.lock.encode l.toBytes) (.ok (some (g, g.toBytes), n))
      (begunOn w.store n l) := by
    refine .outcome (succeeds_prepare ?_ ?_ hn)
    · rw [OrderedMap.get?_insert, if_neg lock_ne_active.symm, hactive]
    · rw [OrderedMap.get?_insert, if_neg lock_ne_counter.symm, hcounter]
  obtain ⟨t', run₂, ht'⟩ := run₁.exists_of_runs hprepare (Function.update_self ..)
  have hinfo' : (begunOn w.store n l).get? (Key.info g).encode = some info.toBytes := by
    obtain ⟨hlock, hcounter⟩ :=
      Rebuild.Ongoing.ne_of_starts (Key.starts_of_generationPrefix (Key.info_starts (g := g)))
    rw [begunOn, Store.apply, OrderedMap.get?_insert, if_neg hcounter, Store.apply,
      OrderedMap.get?_insert, if_neg hlock, hinfo]
  have hbuild : Failing.Succeeds fs
      (ExceptT.lift ((db.build (rounds + 1) (some g) n).run.run l) : Failing IndexError _)
      (begunOn w.store n l) (.ok { generation := n }, l) (db.builtOn w.store g n l) :=
    .program (succeeds_build hinfo' hclear (hdocuments _))
  obtain ⟨t'', run₃, ht''⟩ := run₂.exists_of_runs hbuild (Function.update_self ..)
  refine ⟨t ++ t' ++ t'', ?_, fun x hx => ?_⟩
  · rw [Function.update_idem, Function.update_idem, List.append_assoc, List.append_assoc] at run₃
    rw [List.append_assoc]
    exact run₃
  · rcases List.mem_append.mp hx with hx | hx
    · rcases List.mem_append.mp hx with hx | hx
      · exact ht x hx
      · exact ht' x hx
    · exact ht'' x hx

end Alone

/-! ### A note that comes late -/

/-- A rebuild that is the first to run, and alone with documents, is a run that counts once. -/
theorem exists_interleaving_of_succeeds {db : Database} {fs : Files} {rounds : Nat}
    {report : Report} {s : Store} (hG : db.graph.IsCompiled)
    (h : (db.rebuild rounds).Succeeds fs OrderedMap.empty report s) :
    ∃ trace w, Interleaving (fun _ : Unit => (Run.rebuild db rounds).program) OrderedMap.empty trace w ∧
      (written trace Key.counter.encode).length < 2 ^ 64 - 1 ∧ (∀ x ∈ trace, fs.Answers x.2) ∧
        w.store = s := by
  have hstart : Interleaving (fun _ : Unit => (db.rebuild rounds).run) OrderedMap.empty []
      ⟨OrderedMap.empty, fun _ => (db.rebuild rounds).run⟩ := .start
  obtain ⟨trace, run, htold⟩ := hstart.exists_of_runs (i := ()) h (Program.bind_done _).symm
  have hfollows : (db.rebuild rounds).run.Follows Ledger.protocol
      (Ends (fun report => Rebuild.Accounted db report.generation) Rebuild.Unsaid) [] :=
    Rebuild.follows_accounted hG rounds
  have hpost := Ledger.of_done (i := ()) (a := .ok report) run hfollows (by simp)
  obtain ⟨taken, lock, current, active, counter, work, -, -, -, hwork, hledger⟩ :
      Rebuild.Accounted db report.generation (ledger () ([] ++ trace)) := hpost
  refine ⟨_, _, run, ?_, fun x hx => (htold x hx).2, rfl⟩
  rw [written_eq_of_sole (i := ()) fun _ _ hne => absurd rfl hne, hledger]
  simp [List.filterMap_eq_nil_iff.mpr hwork.counter]

/-- What a rebuild leaves that is the first to run can be left. -/
theorem reachable_of_succeeds {db : Database} {fs : Files} {rounds : Nat} {report : Report}
    {s : Store} (hG : db.graph.IsCompiled)
    (h : (db.rebuild rounds).Succeeds fs OrderedMap.empty report s) : s.Reachable := by
  obtain ⟨trace, w, run, hcount, -, hstore⟩ := exists_interleaving_of_succeeds hG h
  exact ⟨Unit, inferInstance, _, trace, w, run, hcount, hstore⟩

namespace Late

open Fleeting (bareStore bareStore_succeeds bareStore_active bareStore_info noteOwner)
open Upkeep (undone)

/-- The lock that the rebuild takes. -/
def taken : Lock := ⟨Host.name 0, .ofNanoseconds 0⟩

/-- The rebuild has found no notes. Then a note has come, and the update has got to it. -/
def arrived : Play Bool (Except IndexError Report) :=
  ⟨[], ⟨notebook.builtOn bareStore 1 2 taken, note "false", 0, 0, false⟩, fun
    | true => finish 4 (some (1, Generation.toBytes 1)) taken { generation := 2 }
    | false => (notebook.updateAll 1 ["notes/a.json"].eraseDups { generation := 1 }).run⟩

theorem counted_cleared : bareStore.get? Key.counter.encode = some (Generation.toBytes 1) ∧
    ∀ range ∈ Generation.rangesExcept [1, 2],
      (begunOn bareStore 2 taken).scan range .forward Scan.defaultChunk = [] := by
  unfold bareStore
  decide

theorem exists_arrived : ∃ trace : Trace Bool,
    Interleaving (fun i => (notebook.both 4 ["notes/a.json"] i).program) bareStore trace
      arrived.world ∧ ∀ x ∈ trace, Files.Answers OrderedMap.empty x.2 := by
  obtain ⟨hlock, i, hinfo, hgeneration, hversion, hprevious⟩ := bareStore_info
  obtain ⟨hcounter, hclear⟩ := counted_cleared
  have hstart : Interleaving (fun i => (notebook.both 4 ["notes/a.json"] i).program) bareStore []
      ⟨bareStore, fun i => (notebook.both 4 ["notes/a.json"] i).program⟩ := .start
  obtain ⟨t, run₁, ht⟩ :=
    exists_updating (i := false) hstart rfl hlock bareStore_active hinfo hgeneration hversion
  have hdocuments (s : Store) : notebook.documents.Succeeds OrderedMap.empty s [] s :=
    Host.runs (h := ⟨s, .files OrderedMap.empty, 0, 0, false⟩) rfl rfl
  obtain ⟨t', run₂, ht'⟩ := exists_finishing (i := true) (n := 2) run₁ rfl hlock bareStore_active
    hcounter rfl hinfo taken (by rw [hprevious]; exact hclear) hdocuments
  have hleft : arrived.left = Function.update (Function.update
      (fun i => (notebook.both 4 ["notes/a.json"] i).program) false (arrived.left false)) true
        (arrived.left true) := by
    funext i
    cases i <;> rfl
  refine ⟨[] ++ t ++ t', ?_, fun x hx => ?_⟩
  · rw [Play.world, hleft]
    exact run₂
  · rcases List.mem_append.mp hx with hx | hx
    · exact (ht x hx).2
    · exact (ht' x hx).2

/-- The update asks for the content of the note. -/
@[irreducible] def asking : Play Bool (Except IndexError Report) :=
  arrived.go (.replicate 2 (.asks false))

/-- The update writes the record of the note, and the rebuild makes its generation active. -/
@[irreducible] def ended : Play Bool (Except IndexError Report) :=
  Play.go ⟨[], (asking.turn (.asks false)).host, (asking.turn (.asks false)).left⟩
    [.asks false, .asks true]

theorem facts : (asking.left false).reads? = some "notes/a.json" ∧
    asking.host.source.get "notes/a.json" = .ok undone ∧
    (∀ x ∈ asking.trace, x.2.content? = none) ∧ (∀ x ∈ ended.trace, x.2.applied?.isSome) ∧
    (∀ i, (ended.left i).success?.isSome) ∧
    ended.host.store.get? Key.active.encode = some (Generation.toBytes 2) ∧
    ended.host.store.get? (Key.document 2 "notes" "notes/a.json").encode = none := by
  unfold ended asking arrived bareStore
  decide +kernel

/-- In the end there is no record of the note, though the update has read its content. -/
theorem exists_run : ∃ (before after : Trace Bool) (w : World Bool (Except IndexError Report))
    (r u : Report),
    Interleaving (fun i => (notebook.both 4 ["notes/a.json"] i).program) bareStore
      (before ++ (false, ⟨.content "notes/a.json", .ok undone⟩) :: after) w ∧
    w.left true = .done (.ok r) ∧ w.left false = .done (.ok u) ∧
    contents (before ++ (false, ⟨.content "notes/a.json", .ok undone⟩) :: after) ⊆ {undone} ∧
    (∀ i y, (i, ⟨.content "notes/a.json", y⟩) ∉ after) ∧
    w.store.get? Key.active.encode = some (Generation.toBytes 2) ∧
    w.store.get? (Key.document 2 "notes" "notes/a.json").encode = none := by
  obtain ⟨hnext, hreply, hsilent, happlied, hdone, hactive, hstored⟩ := facts
  obtain ⟨t, run, ht⟩ := exists_arrived
  have hasking : Interleaving (fun i => (notebook.both 4 ["notes/a.json"] i).program) bareStore
      (t ++ asking.trace) asking.world := by
    unfold asking
    exact Play.interleaving_resume run _
  have hread := Play.interleaving_reads hasking hnext
  rw [hreply] at hread
  have hended : Interleaving (fun i => (notebook.both 4 ["notes/a.json"] i).program) bareStore
      (t ++ asking.trace ++ [(false, ⟨.content "notes/a.json", .ok undone⟩)] ++ ended.trace)
      ended.world := by
    unfold ended
    exact Play.interleaving_resume hread _
  obtain ⟨r, hr⟩ := Option.isSome_iff_exists.mp (hdone true)
  obtain ⟨u, hu⟩ := Option.isSome_iff_exists.mp (hdone false)
  refine ⟨t ++ asking.trace, ended.trace, _, r, u, by simpa using hended,
    Program.success?_eq_some_iff.mp hr, Program.success?_eq_some_iff.mp hu, ?_, ?_, hactive,
    hstored⟩
  · rintro b ⟨⟨i, e⟩, hx, p, rfl⟩
    rcases List.mem_append.mp hx with hx | hx
    · rcases List.mem_append.mp hx with hx | hx
      · cases ht _ hx
      · cases hsilent _ hx
    · rcases List.mem_cons.mp hx with hx | hx
      · cases hx
        rfl
      · cases happlied _ hx
  · intro i y hy
    have := happlied _ hy
    cases y <;> cases this

/-- The note has a record. -/
theorem shown_ne_none : notebook.shown notes "notes/a.json" (.ok undone) ≠ none := by
  decide

end Late

/-- The update of a note that comes while the rebuild is at work is lost. -/
theorem keeps_update_iff_not_loses_late : ∃ (before after : Trace Bool)
    (w : World Bool (Except IndexError Report)) (r u : Report),
    Interleaving (fun i => (notebook.both 4 ["notes/a.json"] i).program) Fleeting.bareStore
      (before ++ (false, ⟨.content "notes/a.json", .ok Upkeep.undone⟩) :: after) w ∧
    w.left true = .done (.ok r) ∧ w.left false = .done (.ok u) ∧
    notebook.Loses notes "notes/a.json" (.ok Upkeep.undone)
      (before ++ (false, ⟨.content "notes/a.json", .ok Upkeep.undone⟩) :: after) r u := by
  obtain ⟨before, after, w, r, u, run, hr, hu, hcontents, hafter, hactive, hstored⟩ :=
    Late.exists_run
  obtain ⟨report, hbare⟩ := Fleeting.bareStore_succeeds
  have hsha : Set.InjOn Sha256.hex
      (contents (before ++ (false, ⟨.content "notes/a.json", .ok Upkeep.undone⟩) :: after)) :=
    fun a ha b hb _ => (hcontents ha).trans (hcontents hb).symm
  obtain ⟨hswapped, -, hiff⟩ := keeps_update_iff_not_loses notebook_compiled
    (reachable_of_succeeds notebook_compiled hbare) run hr hu hsha "notes/a.json"
  have htwo : r.generation = 2 :=
    Generation.toBytes_injective (Option.some.inj (hswapped.symm.trans hactive))
  refine ⟨before, after, w, r, u, run, hr, hu, ?_⟩
  by_contra hkeeps
  have hshown := (hiff notes Fleeting.noteOwner before _ after rfl
    (fun y hy => absurd hy (hafter _ y)) nofun).mpr hkeeps
  rw [htwo] at hshown
  exact Late.shown_ne_none (hshown.symm.trans hstored)

/-- **A rebuild and an update may both succeed and the update be lost.** The content that the update
has read is never read with another result, and still its record is missing in the end. -/
theorem exists_lost_update : ∃ (db : Database) (rounds : Nat) (paths : List String) (s : Store)
    (before after : Trace Bool) (w : World Bool (Except IndexError Report)) (r u : Report)
    (c : Graph.Collection) (p : String) (x : Except SourceError Bytes) (g : Generation),
    db.graph.IsCompiled ∧ s.Reachable ∧
      Interleaving (fun i => (db.both rounds paths i).program) s
        (before ++ (false, ⟨.content p, x⟩) :: after) w ∧
      w.left true = .done (.ok r) ∧ w.left false = .done (.ok u) ∧
      Set.InjOn Sha256.hex (contents (before ++ (false, ⟨.content p, x⟩) :: after)) ∧
      p ∈ paths ∧ db.graph.owner? p = some c ∧
      (∀ i y, (i, ⟨.content p, y⟩) ∈ after → y = x) ∧ (∀ e, x = .error e → e.IsAbsence) ∧
      w.store.get? Key.active.encode = some g.toBytes ∧
      w.store.get? (Key.document g c.name p).encode ≠ db.shown c p x := by
  obtain ⟨before, after, w, r, u, run, hr, hu, hcontents, hafter, hactive, hstored⟩ :=
    Late.exists_run
  obtain ⟨report, hbare⟩ := Fleeting.bareStore_succeeds
  refine ⟨notebook, 4, ["notes/a.json"], Fleeting.bareStore, before, after, w, r, u, notes,
    "notes/a.json", _, 2, notebook_compiled, reachable_of_succeeds notebook_compiled hbare, run, hr,
    hu, fun a ha b hb _ => (hcontents ha).trans (hcontents hb).symm, List.mem_singleton_self _,
    Fleeting.noteOwner, fun i y hy => absurd hy (hafter i y), nofun, hactive, fun heq => ?_⟩
  exact Late.shown_ne_none (heq.symm.trans hstored)

end Database

end ContentIndex
