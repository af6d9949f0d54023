import ContentIndex.Proofs.Names
import ContentIndex.Proofs.RebuildProtocol
import Mathlib.Data.List.Nodup
import Mathlib.Data.List.TakeWhile

/-!
# The documents of a source

Of the paths that a source lists for a collection, a rebuild works through those that the collection
owns. A path that has an owner is listed for it, so all owned paths are worked through, each once.

## Main definitions

* `Database.document?`: what a run makes of the document at a path
* `Database.recorded?`, `Database.skip?`: the record of a document, or the reason to leave it out
* `Database.work`: what a rebuild works through

## Main results

* `Database.mem_work_iff`, `Database.work_perm`: **the work is every owned path, each once**
-/

namespace ContentIndex

open Source (Files)

/-! ### Listings -/

namespace Source

/-- Only slashes are trimmed. -/
theorem exists_eq_trimSlashes_append (cs : List Char) :
    ∃ n, cs = trimSlashes cs ++ List.replicate n '/' := by
  have hall : ∀ c ∈ cs.reverse.takeWhile (· = '/'), c = '/' := by
    intro c hc
    simpa using List.mem_takeWhile_imp hc
  obtain ⟨n, hn⟩ : ∃ n, cs.reverse.takeWhile (· = '/') = List.replicate n '/' :=
    ⟨_, List.eq_replicate_iff.mpr ⟨rfl, hall⟩⟩
  refine ⟨n, ?_⟩
  calc cs = (cs.reverse.takeWhile (· = '/') ++ cs.reverse.dropWhile (· = '/')).reverse := by
        rw [List.takeWhile_append_dropWhile, List.reverse_reverse]
    _ = trimSlashes cs ++ List.replicate n '/' := by
        rw [List.reverse_append, hn, List.reverse_replicate, trimSlashes]

/-- What has the directory and a slash before it lies below the directory. -/
theorem isBelow_of_prefix {directory path : String}
    (h : directory.toList ++ ['/'] <+: path.toList) : isBelow directory path := by
  obtain ⟨n, hn⟩ := exists_eq_trimSlashes_append directory.toList
  suffices hdir : trimSlashes directory.toList ++ ['/'] <+: path.toList by
    rw [isBelow, Bool.or_eq_true, List.isPrefixOf_iff_prefix]
    exact Or.inr hdir
  refine List.IsPrefix.trans ?_ h
  conv_rhs => rw [hn, List.append_assoc, ← List.replicate_succ', List.replicate_succ]
  exact (List.prefix_append_right_inj _).mpr (List.prefix_append ['/'] _)

end Source

namespace Graph

/-- A path that belongs to a collection is listed for it. -/
theorem Collection.isBelow_of_containsPath {c : Collection} {path : String}
    (h : c.containsPath path) : Source.isBelow c.path path := by
  refine Source.isBelow_of_prefix ?_
  unfold containsPath at h
  split at h
  · cases h
  · next rest hrest =>
    simp only [below?] at hrest
    split at hrest
    · next hdir =>
      rw [Bool.and_eq_true, List.isPrefixOf_iff_prefix] at hdir
      exact hdir.1
    · cases hrest

theorem mem_of_owner? {g : Graph} {c : Collection} {path : String} (h : g.owner? path = some c) :
    c ∈ g.collections :=
  List.mem_of_find?_eq_some h

end Graph

/-! ### Documents -/

theorem Source.Files.nodup_keys (fs : Files) : fs.keys.Nodup := by
  rw [OrderedMap.keys, List.Nodup, List.pairwise_map]
  refine fs.sorted.imp fun {a b} h heq => ?_
  rw [heq] at h
  exact Std.lt_irrefl h

theorem Source.Files.exists_get?_of_mem {fs : Files} {path : String} (h : path ∈ fs.keys) :
    ∃ content, fs.get? path = some content := by
  obtain ⟨e, he, rfl⟩ := List.mem_map.mp h
  exact ⟨e.2, (Entries.find?_eq_some_iff fs.sorted).mpr he⟩

theorem Source.Files.mem_keys_of_get? {fs : Files} {path : String} {content : Bytes}
    (h : fs.get? path = some content) : path ∈ fs.keys :=
  List.mem_map.mpr ⟨_, (Entries.find?_eq_some_iff fs.sorted).mp h, rfl⟩

namespace Database

variable {db : Database} {fs : Files} {path : String}

/-- What a run makes of the document at a path: its collection and its record, or the reason to
leave it out. There is none if there is no document, or no collection that owns it. -/
def document? (db : Database) (fs : Files) (path : String) :
    Option (Except DocumentSkip (Graph.Collection × Record)) := do
  let c ← db.graph.owner? path
  let content ← fs.get? path
  return (db.record c path content).map fun x => (c, x.1)

/-- The record of the document at a path, if it has one. -/
def recorded? (db : Database) (fs : Files) (path : String) : Option Record :=
  match db.document? fs path with
  | some (.ok x) => some x.2
  | _ => none

/-- The reason to leave the document at a path out, if there is one. -/
def skip? (db : Database) (fs : Files) (path : String) : Option (String × DocumentSkip) :=
  match db.document? fs path with
  | some (.error reason) => some (path, reason)
  | _ => none

/-- What a rebuild works through: the paths that the source lists for a collection and that the
collection owns, for one collection after another. -/
def work (db : Database) (fs : Files) : List (Graph.Collection × String) :=
  db.graph.collections.flatMap fun c =>
    ((fs.list c.path).filter fun p => (db.graph.owner? p).any (·.name = c.name)).map (c, ·)

theorem document?_eq_ok_iff {c : Graph.Collection} {r : Record} :
    db.document? fs path = some (.ok (c, r)) ↔ db.graph.owner? path = some c ∧
      ∃ content ws, fs.get? path = some content ∧ db.record c path content = .ok (r, ws) := by
  unfold document?
  cases db.graph.owner? path with
  | none => simp
  | some d =>
    cases fs.get? path with
    | none => simp
    | some content =>
      simp only [Option.pure_def, Option.bind_eq_bind, Option.bind_some, Option.some.injEq]
      cases hr : db.record d path content with
      | error e =>
        simp only [Except.map, reduceCtorEq, false_iff, not_and, not_exists]
        rintro rfl _ _ rfl h
        rw [hr] at h
        cases h
      | ok x =>
        simp only [Except.map, Except.ok.injEq, Prod.mk.injEq]
        constructor
        · rintro ⟨rfl, rfl⟩
          exact ⟨rfl, content, x.2, rfl, hr⟩
        · rintro ⟨rfl, _, ws, rfl, h⟩
          rw [hr] at h
          cases h
          exact ⟨rfl, rfl⟩

theorem recorded?_eq_some_iff {r : Record} :
    db.recorded? fs path = some r ↔ ∃ c, db.document? fs path = some (.ok (c, r)) := by
  unfold recorded?
  split
  · next x hx =>
    rw [hx, Option.some.injEq]
    constructor
    · rintro rfl
      exact ⟨x.1, rfl⟩
    · rintro ⟨c, hc⟩
      rw [Except.ok.inj (Option.some.inj hc)]
  · next hne =>
    simp only [reduceCtorEq, false_iff, not_exists]
    exact fun c hc => hne _ hc

/-- Every owned path of the source has a record, or else a reason to leave it out. -/
theorem length_recorded?_add_skip? {ps : List String}
    (h : ∀ p ∈ ps, p ∈ fs.keys) : (ps.filterMap (db.recorded? fs)).length +
      (ps.filterMap (db.skip? fs)).length =
        (ps.filter fun p => (db.graph.owner? p).isSome).length := by
  induction ps with
  | nil => rfl
  | cons p ps ih =>
    replace ih := ih fun q hq => h q (List.mem_cons_of_mem _ hq)
    obtain ⟨content, hcontent⟩ := Files.exists_get?_of_mem (h p (List.mem_cons_self ..))
    cases howner : db.graph.owner? p with
    | none =>
      have hnone : db.document? fs p = none := by
        simp [document?, howner]
      simp [recorded?, skip?, hnone, howner, ih]
    | some c =>
      have hsome : db.document? fs p = some ((db.record c p content).map fun x => (c, x.1)) := by
        simp [document?, howner, hcontent]
      cases hr : db.record c p content with
      | error e =>
        simp only [recorded?, skip?, hsome, hr, Except.map, List.filterMap_cons, howner,
          Option.isSome_some, List.filter_cons, ↓reduceIte, List.length_cons]
        omega
      | ok x =>
        simp only [recorded?, skip?, hsome, hr, Except.map, List.filterMap_cons, howner,
          Option.isSome_some, List.filter_cons, ↓reduceIte, List.length_cons]
        omega

/-! ### The work of a rebuild -/

/-- **A rebuild works through the owned paths, each for its owner.** -/
theorem mem_work_iff (hG : db.graph.IsCompiled) {x : Graph.Collection × String} :
    x ∈ db.work fs ↔ db.graph.owner? x.2 = some x.1 ∧ x.2 ∈ fs.keys := by
  obtain ⟨c, p⟩ := x
  simp only [work, List.mem_flatMap, List.mem_map, List.mem_filter, Option.any_eq_true,
    decide_eq_true_eq, Prod.mk.injEq, Files.list]
  constructor
  · rintro ⟨c, hc, p, ⟨⟨hp, -⟩, o, ho, hname⟩, rfl, rfl⟩
    obtain rfl := List.inj_on_of_nodup_map hG.names.2 (Graph.mem_of_owner? ho) hc hname
    exact ⟨ho, hp⟩
  · rintro ⟨ho, hp⟩
    have hcontains : c.containsPath p :=
      List.find?_some (p := fun d : Graph.Collection => d.containsPath p) ho
    exact ⟨c, Graph.mem_of_owner? ho, p,
      ⟨⟨hp, Graph.Collection.isBelow_of_containsPath hcontains⟩, c, ho, rfl⟩, rfl, rfl⟩

theorem nodup_work (hG : db.graph.IsCompiled) : ((db.work fs).map (·.2)).Nodup := by
  have hworks : List.Forall₂ (Rebuild.IsWorkOf db ⟨True, fun _ _ => True⟩) db.graph.collections
      (db.graph.collections.map fun c =>
        ((fs.list c.path).filter fun p => (db.graph.owner? p).any (·.name = c.name)).map (c, ·)) := by
    rw [List.forall₂_map_right_iff, List.forall₂_same]
    intro c _
    refine ⟨fun _ => ?_, fun x hx => ?_⟩
    · rw [List.map_map]
      show (List.map id _).Nodup
      rw [List.map_id]
      exact (fs.nodup_keys.filter (Source.isBelow c.path)).filter _
    · obtain ⟨p, hp, rfl⟩ := List.mem_map.mp hx
      exact ⟨rfl, by simpa [Graph.Owns, Option.any_eq_true] using (List.mem_filter.mp hp).2⟩
  have hnodup := (Rebuild.nodup_flatten hworks fun _ => hG.names.2).1 trivial
  rwa [← List.flatMap_def] at hnodup

/-- **Every owned path is in the work once.** -/
theorem work_perm (hG : db.graph.IsCompiled) :
    ((db.work fs).map (·.2)).Perm (fs.keys.filter fun p => (db.graph.owner? p).isSome) := by
  rw [List.perm_ext_iff_of_nodup (nodup_work hG) (fs.nodup_keys.filter _)]
  intro p
  rw [List.mem_map, List.mem_filter, Option.isSome_iff_exists]
  constructor
  · rintro ⟨x, hx, rfl⟩
    obtain ⟨ho, hp⟩ := (mem_work_iff hG).mp hx
    exact ⟨hp, x.1, ho⟩
  · rintro ⟨hp, c, ho⟩
    exact ⟨(c, p), (mem_work_iff hG).mpr ⟨ho, hp⟩, rfl⟩

/-- What the paths without an owner would add to is nothing. -/
theorem filterMap_work_perm (hG : db.graph.IsCompiled) {α : Type} {f : String → Option α}
    (hf : ∀ p, db.graph.owner? p = none → f p = none) :
    (((db.work fs).map (·.2)).filterMap f).Perm (fs.keys.filterMap f) := by
  refine ((work_perm hG).filterMap f).trans ?_
  rw [List.filterMap_filter]
  refine .of_eq (List.filterMap_congr fun p _ => ?_)
  cases ho : db.graph.owner? p with
  | none => exact (hf p ho).symm
  | some c => rfl

end Database

end ContentIndex
