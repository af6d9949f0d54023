import Mathlib.Data.List.Nodup
import ContentIndex.Proofs.Reading

/-!
# Scans of a store that changes

A scan fetches its entries in chunks, and between two chunks the store may change in any way. What a
scan has yielded is then no picture of the store at any one time, but it is in order, it was all there
when it was fetched, and a key that was there all the time is not missed: each chunk begins right
behind the last one, and it is the last one itself only if nothing of its part of the range is left
out.

## Main definitions

* `Program.Sees`: a run whose questions are answered by one store after another
* `Scan.Ahead`: the keys that a scan can still yield
* `Scan.Ordered`: what is fetched is in order and lies before what is not
* `Scan.Yields`: what a scan yields of the stores that its chunks come from

## Main results

* `Scan.exists_refilled`: one more chunk, and what it takes from the range
* `Scan.yields_of_sees`: the scan goes on as it should, from any place
* `Scan.on_entries`: on a store that stays as it is, all that is left is yielded
* `Scan.entries_of_sees`: **a scan of a range yields what is there all the time, once and in order**
-/

namespace ContentIndex

variable {α β : Type}

/-! ### One store after another -/

/-- The program comes to its end with a result when its questions are answered by the stores, each of
which answers one. -/
inductive Program.Sees : Program α → List Store → α → Prop
  /-- It is at its end. -/
  | done (a : α) : Sees (.done a) [] a
  /-- It puts a question and goes on with what the next store replies. -/
  | ask {q : Question} {next : q.Reply → Program α} {r : q.Reply} {s : Store} {stores : List Store}
    {a : α} (hr : q.reply? s = some r) (h : (next r).Sees stores a) :
    Sees (.ask q next) (s :: stores) a

/-- One program after another sees the stores of both. -/
theorem Program.Sees.exists_of_bind {t : Program α} {f : α → Program β} {stores : List Store}
    {b : β} (h : (t.bind f).Sees stores b) :
    ∃ front rest a, stores = front ++ rest ∧ t.Sees front a ∧ (f a).Sees rest b := by
  induction t generalizing stores with
  | done a => exact ⟨[], stores, a, rfl, .done a, h⟩
  | ask q next ih =>
    cases h with
    | ask hr h =>
      obtain ⟨front, rest, a, rfl, hfront, hrest⟩ := ih _ h
      exact ⟨_ :: front, rest, a, rfl, .ask hr hfront, hrest⟩
  | cut => cases h

namespace Scan

variable {x y : Scan} {s : Store} {stores : List Store} {es : List Entry} {e : Entry}

/-! ### What is ahead of a scan -/

/-- The scan can still yield the key: it has been fetched, or can be. -/
def Ahead (x : Scan) (k : Bytes) : Prop :=
  k ∈ x.fetched.map (·.1) ∨ x.exhausted = false ∧ x.range.contains k

/-- What is fetched is in order, and lies before what is not. -/
structure Ordered (x : Scan) : Prop where
  /-- The fetched entries are in order. -/
  fetched : x.fetched.Pairwise fun a b => x.direction.Before a.1 b.1
  /-- The part of the range that is not fetched comes after them. -/
  before : ∀ e ∈ x.fetched, ∀ k, x.range.contains k → x.direction.Before e.1 k

/-- What the scan yields if its chunks come from the stores, one from each. -/
structure Yields (x : Scan) (stores : List Store) (es : List Entry) : Prop where
  /-- It yields entries in order. -/
  ordered : es.Pairwise fun a b => x.direction.Before a.1 b.1
  /-- They had been fetched, or one of the stores has them in the range. -/
  stored : ∀ e ∈ es, e ∈ x.fetched ∨ x.range.contains e.1 ∧ ∃ s ∈ stores, s.get? e.1 = some e.2
  /-- It misses no key ahead of it that all stores have. -/
  complete : ∀ k, x.Ahead k → (∀ s ∈ stores, (s.get? k).isSome) → k ∈ es.map (·.1)

/-- The scan behind its next entry. -/
def behind (x : Scan) (rest : List Entry) : Scan := { x with fetched := rest }

/-! ### One more chunk -/

/-- The scan with one chunk more, from a store. -/
def refilled (x : Scan) (s : Store) : Scan :=
  let entries := s.scan x.range x.direction x.chunk
  { x with
    range := (entries.getLast?.map fun e => x.range.past e.1 x.direction).getD x.range
    fetched := x.fetched ++ entries
    exhausted := entries.length < x.chunk }

/-- A chunk is fetched from one store. -/
theorem exists_eq_refilled {r : Except StorageError Scan} (h : Program.Sees x.fetch.run stores r) :
    ∃ s, stores = [s] ∧ r = .ok (x.refilled s) := by
  change Program.Sees (.ask (.scan x.range x.direction x.chunk) _) stores r at h
  cases h with
  | ask hr h =>
    cases hr
    cases h with
    | done => exact ⟨_, rfl, rfl⟩

section Refilled

variable (hfetched : x.fetched = [])

include hfetched

theorem fetched_refilled : (x.refilled s).fetched = (s.within x.range x.direction).take x.chunk := by
  rw [refilled, hfetched, List.nil_append, Store.scan_eq_take]

theorem stored_of_mem_refilled (he : e ∈ (x.refilled s).fetched) :
    x.range.contains e.1 ∧ s.get? e.1 = some e.2 := by
  rw [fetched_refilled hfetched] at he
  exact (Store.mem_within.mp (List.mem_of_mem_take he)).symm

/-- What is not fetched yet is what lies behind the chunk. -/
theorem contains_refilled_iff {k : Bytes} : (x.refilled s).range.contains k ↔
    x.range.contains k ∧ ∀ e ∈ (x.refilled s).fetched, x.direction.Before e.1 k := by
  have hstored := fun e he => (stored_of_mem_refilled (s := s) (e := e) hfetched he).1
  have hsorted : (x.refilled s).fetched.Pairwise fun a b => x.direction.Before a.1 b.1 := by
    rw [fetched_refilled hfetched]
    exact (Store.pairwise_within ..).sublist (List.take_sublist ..)
  have hrange : (x.refilled s).range =
      ((x.refilled s).fetched.getLast?.map fun e => x.range.past e.1 x.direction).getD x.range := by
    rw [fetched_refilled hfetched, ← Store.scan_eq_take]
    rfl
  rw [hrange]
  generalize (x.refilled s).fetched = chunk at hstored hsorted
  rcases List.eq_nil_or_concat chunk with rfl | ⟨front, last, rfl⟩
  · simp
  · -- the chunk is in order, so what comes after its last entry comes after all
    rw [List.concat_eq_append] at hstored hsorted ⊢
    obtain ⟨-, -, hlast⟩ := List.pairwise_append.mp hsorted
    rw [List.getLast?_concat, Option.map_some, Option.getD_some,
      KeyRange.contains_past_iff (hstored last (by simp))]
    refine and_congr_right fun _ => ⟨fun hk e he => ?_, fun h => h last (by simp)⟩
    rcases List.mem_append.mp he with he | he
    · exact (hlast e he last (by simp)).trans hk
    · obtain rfl := List.mem_singleton.mp he
      exact hk

/-- **One chunk more takes the front of what the store has in the range.** -/
theorem ordered_refilled : (x.refilled s).Ordered := by
  refine ⟨?_, fun e he k hk => ((contains_refilled_iff hfetched).mp hk).2 e he⟩
  rw [fetched_refilled hfetched]
  exact (Store.pairwise_within ..).sublist (List.take_sublist ..)

/-- What the store has in the range is still ahead. -/
theorem ahead_refilled {k : Bytes} (hin : x.range.contains k) (hstored : (s.get? k).isSome) :
    (x.refilled s).Ahead k := by
  obtain ⟨v, hv⟩ := Option.isSome_iff_exists.mp hstored
  have hmem : (k, v) ∈ s.within x.range x.direction := Store.mem_within.mpr ⟨hv, hin⟩
  have hsorted := Store.pairwise_within s x.range x.direction
  have hfront := fetched_refilled (s := s) hfetched
  generalize s.within x.range x.direction = all at hmem hsorted hfront
  rw [← List.take_append_drop x.chunk all] at hmem hsorted
  rcases List.mem_append.mp hmem with htaken | hleft
  · exact Or.inl (List.mem_map.mpr ⟨_, hfront ▸ htaken, rfl⟩)
  · -- something is left, so the chunk is full and the scan goes on behind it
    have hfull : x.chunk < all.length := by
      have := List.length_pos_of_mem hleft
      rw [List.length_drop] at this
      omega
    refine Or.inr ⟨?_, (contains_refilled_iff hfetched).mpr ⟨hin, fun e he => ?_⟩⟩
    · have hlength : (s.scan x.range x.direction x.chunk).length = x.chunk := by
        rw [Store.scan_eq_take, ← fetched_refilled hfetched, hfront, List.length_take]
        omega
      simp [refilled, hlength]
    · exact (List.pairwise_append.mp hsorted).2.2 e (hfront ▸ he) _ hleft

/-- A chunk without entries is the last one. -/
theorem exhausted_refilled (hempty : (x.refilled s).fetched = []) :
    (x.refilled s).exhausted = true := by
  rw [fetched_refilled hfetched, ← Store.scan_eq_take] at hempty
  simp [refilled, hempty, x.chunk_pos]

end Refilled

/-! ### One more entry -/

namespace Yields

/-- At its end a scan yields nothing, and needs to. -/
theorem nil (hfetched : x.fetched = []) (hexhausted : x.exhausted = true) : x.Yields [] [] := by
  refine ⟨.nil, nofun, fun k hk _ => ?_⟩
  rcases hk with hk | ⟨hk, -⟩
  · simp [hfetched] at hk
  · rw [hexhausted] at hk
    cases hk

/-- What is right after one chunk more is right before. -/
theorem of_refilled (hfetched : x.fetched = []) (h : (x.refilled s).Yields stores es) :
    x.Yields (s :: stores) es := by
  refine ⟨h.ordered, fun e he => Or.inr ?_, fun k hk hall => ?_⟩
  · rcases h.stored e he with he | ⟨hin, s', hs', hget⟩
    · obtain ⟨hin, hget⟩ := stored_of_mem_refilled hfetched he
      exact ⟨hin, s, List.mem_cons_self .., hget⟩
    · exact ⟨((contains_refilled_iff hfetched).mp hin).1, s', List.mem_cons_of_mem _ hs', hget⟩
  · obtain ⟨hfirst, hothers⟩ := List.forall_mem_cons.mp hall
    rcases hk with hk | ⟨-, hin⟩
    · simp [hfetched] at hk
    · exact h.complete k (ahead_refilled hfetched hin hfirst) hothers

/-- What is right behind an entry is right with the entry in front. -/
theorem cons {rest : List Entry} (hx : x.Ordered) (hfetched : x.fetched = e :: rest)
    (h : (x.behind rest).Yields stores es) : x.Yields stores (e :: es) := by
  obtain ⟨hfirst, -⟩ := List.pairwise_cons.mp (hfetched ▸ hx.fetched)
  have hbefore : ∀ k, x.range.contains k → x.direction.Before e.1 k :=
    hx.before e (hfetched ▸ List.mem_cons_self ..)
  refine ⟨List.pairwise_cons.mpr ⟨fun e' he' => ?_, h.ordered⟩, fun e' he' => ?_, fun k hk hall => ?_⟩
  · rcases h.stored e' he' with he' | ⟨hin, -⟩
    · exact hfirst e' he'
    · exact hbefore _ hin
  · rw [hfetched]
    rcases List.mem_cons.mp he' with rfl | he'
    · exact Or.inl (List.mem_cons_self ..)
    · exact (h.stored e' he').imp_left (List.mem_cons_of_mem _)
  · rw [List.map_cons, List.mem_cons]
    rw [Ahead, hfetched, List.map_cons, List.mem_cons, or_assoc] at hk
    exact hk.imp_right fun hk => h.complete k hk hall

end Yields

theorem Ordered.behind {rest : List Entry} (hx : x.Ordered) (hfetched : x.fetched = e :: rest) :
    (x.behind rest).Ordered := by
  refine ⟨(List.pairwise_cons.mp (hfetched ▸ hx.fetched)).2, fun e' he' => ?_⟩
  exact hx.before e' (hfetched ▸ List.mem_cons_of_mem _ he')

/-- The next entry is taken from the scan as it is, or with one chunk more. -/
theorem exists_of_sees_next {r : Except StorageError (Option (Entry × Scan))} (hx : x.Ordered)
    (h : Program.Sees x.next.run stores r) :
    ∃ y : Scan, y.Ordered ∧ (∀ rest es, y.Yields rest es → x.Yields (stores ++ rest) es) ∧
      ((y.fetched = [] ∧ y.exhausted = true ∧ r = .ok none) ∨
        ∃ e rest, y.fetched = e :: rest ∧ r = .ok (some (e, y.behind rest))) := by
  rw [next_eq] at h
  obtain ⟨front, rest, r', rfl, hfilled, hrest⟩ := Program.Sees.exists_of_bind h
  obtain ⟨⟨range, direction, chunk, hchunk, fetched, exhausted⟩, rfl, hy, hyields, hended⟩ :
      ∃ y : Scan, r' = .ok y ∧ y.Ordered ∧
        (∀ rest es, y.Yields rest es → x.Yields (front ++ rest) es) ∧
        (y.fetched = [] → y.exhausted = true) := by
    rw [filled] at hfilled
    split at hfilled
    · next hif =>
      simp only [Bool.and_eq_true, List.isEmpty_iff] at hif
      obtain ⟨s, rfl, rfl⟩ := exists_eq_refilled hfilled
      exact ⟨_, rfl, ordered_refilled hif.1, fun _ _ => .of_refilled hif.1,
        exhausted_refilled hif.1⟩
    · next hif =>
      cases hfilled with
      | done => exact ⟨x, rfl, hx, fun _ _ h => h, fun hnil => by simpa [hnil] using hif⟩
  refine ⟨_, hy, ?_⟩
  cases fetched with
  | nil =>
    cases hrest with
    | done =>
      rw [List.append_nil]
      exact ⟨hyields, Or.inl ⟨rfl, hended rfl, rfl⟩⟩
  | cons e es =>
    cases hrest with
    | done =>
      rw [List.append_nil]
      exact ⟨hyields, Or.inr ⟨e, es, rfl, rfl⟩⟩

/-! ### All entries -/

theorem entries_succ (rounds : Nat) (x : Scan) : entries (rounds + 1) x =
    Program.bind x.next.run fun
      | .error e => .done ([], some e)
      | .ok none => .done ([], none)
      | .ok (some (e, y)) => (entries rounds y).bind fun p => .done (e :: p.1, p.2) := rfl

/-- The scan goes on as it should, from any place. -/
theorem yields_of_sees {rounds : Nat} {failure : Option StorageError} (hx : x.Ordered)
    (h : (entries rounds x).Sees stores (es, failure)) : failure = none ∧ x.Yields stores es := by
  induction rounds generalizing x stores es failure with
  | zero => cases h
  | succ rounds ih =>
    rw [entries_succ] at h
    obtain ⟨front, rest, r, rfl, hnext, hrest⟩ := Program.Sees.exists_of_bind h
    obtain ⟨y, hy, hyields, ⟨hfetched, hexhausted, rfl⟩ | ⟨e, behind, hfetched, rfl⟩⟩ :=
      exists_of_sees_next hx hnext
    · cases hrest with
      | done => exact ⟨rfl, hyields _ _ (.nil hfetched hexhausted)⟩
    · obtain ⟨front', rest', ⟨es', failure'⟩, rfl, hbehind, hdone⟩ :=
        Program.Sees.exists_of_bind hrest
      obtain ⟨rfl, hes'⟩ := ih (hy.behind hfetched) hbehind
      cases hdone with
      | done =>
        rw [List.append_nil]
        exact ⟨rfl, hyields _ _ (.cons hy hfetched hes')⟩

/-- On a store that stays as it is, all that is left is yielded. -/
theorem on_entries {rounds : Nat} (hrounds : (x.rest s).length < rounds) :
    (entries rounds x).on s = some (x.rest s, none) := by
  induction rounds generalizing x with
  | zero => omega
  | succ rounds ih =>
    rw [entries_succ, Program.on_bind]
    cases hrest : x.rest s with
    | nil =>
      have hnext : Program.on s x.next.run = some (.ok none) := on_next_nil hrest
      rw [hnext]
      rfl
    | cons e es =>
      obtain ⟨y, hy, hes⟩ := on_next_cons hrest
      have hnext : Program.on s x.next.run = some (.ok (some (e, y))) := hy
      have hbehind : (entries rounds y).on s = some (es, none) := by
        rw [← hes]
        refine ih ?_
        rw [hes]
        simpa [hrest] using hrounds
      rw [hnext, Option.bind_some, Program.on_bind, hbehind]
      rfl

theorem ordered_ofRange (range : KeyRange) (d : Direction) (chunk : Nat) :
    (ofRange range d chunk).Ordered := ⟨.nil, nofun⟩

/-- **A scan of a range yields what is there all the time, once and in order.** Take any range,
direction and size of a chunk, where none counts as one, and any stores that the chunks of a scan come
from, one after the other, until it is at its end. Then it has not failed; the keys that it has
yielded are strictly in order; each entry lies in the range, and one of the stores has it; and a key of
the range that all the stores have is yielded exactly once. On a store that stays as it is, the scan
comes to its end, and it has yielded what one look at the whole range finds. -/
theorem entries_of_sees (range : KeyRange) (d : Direction) (chunk rounds : Nat)
    {stores : List Store} {es : List Entry} {failure : Option StorageError}
    (h : ((ofRange range d chunk).entries rounds).Sees stores (es, failure)) :
    failure = none ∧
      (es.map (·.1)).Pairwise d.Before ∧
      (∀ e ∈ es, range.contains e.1 ∧ ∃ s ∈ stores, s.get? e.1 = some e.2) ∧
      (∀ k, range.contains k → (∀ s ∈ stores, (s.get? k).isSome) → (es.map (·.1)).count k = 1) ∧
      ofRange range d 0 = ofRange range d 1 ∧
      ∀ (s : Store) (more : Nat),
        ((ofRange range d chunk).entries (s.size + 1 + more)).on s =
          some (s.scan range d (s.size + more), none) := by
  obtain ⟨rfl, hyields⟩ := yields_of_sees (ordered_ofRange range d chunk) h
  have hordered : (es.map (·.1)).Pairwise d.Before := List.pairwise_map.mpr hyields.ordered
  refine ⟨rfl, hordered, fun e he => ?_, fun k hin hall => ?_, rfl, fun s more => ?_⟩
  · rcases hyields.stored e he with hnone | hstored
    · cases hnone
    · exact hstored
  · have hmem : k ∈ es.map (·.1) := hyields.complete k (Or.inr ⟨rfl, hin⟩) hall
    exact List.count_eq_one_of_mem (Direction.Before.nodup (f := id) hordered) hmem
  · have hlength : (s.within range d).length ≤ s.size := Store.length_within_le ..
    rw [on_entries (by rw [rest_ofRange]; omega), rest_ofRange, Store.scan_eq_take,
      List.take_of_length_le (by omega)]

/-- Three keys are read one by one. The second one is stored when the first one has been fetched, and
the first one is deleted before the third one is fetched. -/
theorem entries_of_sees_replaced :
    let early : Store := .ofList [([1], [10]), ([3], [30])]
    let grown : Store := .ofList [([1], [10]), ([2], [20]), ([3], [30])]
    let late : Store := .ofList [([2], [20]), ([3], [30])]
    let es : List Entry := [([1], [10]), ([2], [20]), ([3], [30])]
    ((ofRange ⟨[], none⟩ .forward 1).entries 4).Sees [early, grown, late, late] (es, none) ∧
      (es.map (·.1)).Pairwise Direction.forward.Before ∧
      ∀ k, (∀ s ∈ [early, grown, late, late], (s.get? k).isSome) → (es.map (·.1)).count k = 1 := by
  intro early grown late es
  have hsees : ((ofRange ⟨[], none⟩ .forward 1).entries 4).Sees [early, grown, late, late]
      (es, none) :=
    .ask rfl (.ask rfl (.ask rfl (.ask rfl (.done _))))
  obtain ⟨-, hordered, -, hcomplete, -⟩ := entries_of_sees ⟨[], none⟩ .forward 1 4 hsees
  exact ⟨hsees, hordered, fun k hall => hcomplete k (by simp [KeyRange.contains]) hall⟩

end Scan

end ContentIndex
