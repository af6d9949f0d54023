import ContentIndex.Proofs.Pages

/-!
# Refused requests

A request is refused if it makes no sense for the graph and the settings of a database. Nothing is
read before it is checked, and nothing that is read leads to a refusal later: not what other programs
write meanwhile, and not a storage that fails. So whether a request is refused, and for what, says
nothing about what is stored.

## Main definitions

* `QueryError.IsRefusal`: the errors that are refusals
* `FailsWith`: checks that fail with some errors only
* `Program.MayReturn`: the results that a program comes to by some replies to its questions
* `Failing.Accepts`, `Projecting.Accepts`: programs that refuse nothing
* `Query.answer`: what a request comes to that passes the checks

## Main results

* `Database.isRefusal_of_query`: a request that fails the checks is refused
* `Database.accepts_resolve`: a request that passes the checks is not refused, whatever is replied
* `Database.refused_everywhere`: **refusals do not depend on what is stored**
-/

namespace ContentIndex

open Graph (Kind)
open Json (Value)

variable {α β ε : Type}

/-- The error says that the request makes no sense for the graph and the settings. -/
def QueryError.IsRefusal : QueryError → Prop
  | .unknownCollection _ | .unknownField _ _ | .invalidSelection _ _ | .invalidPageSize _ _
  | .invalidFilter _ | .invalidSort _ _ | .invalidCursor _ => True
  | .notFound _ _ | .invalidReference _ _ _ | .schemaMismatch _ _ | .storage _ => False

/-- What is selected is to blame. -/
def QueryError.BlamesSelection : QueryError → Prop
  | .unknownField _ _ | .invalidSelection _ _ => True
  | _ => False

/-- The filter is to blame. -/
def QueryError.BlamesFilter : QueryError → Prop
  | .unknownField _ _ | .invalidFilter _ => True
  | _ => False

/-- The order is to blame. -/
def QueryError.BlamesOrder : QueryError → Prop
  | .invalidSort _ _ => True
  | _ => False

theorem QueryError.BlamesSelection.isRefusal {e : QueryError} (h : e.BlamesSelection) :
    e.IsRefusal ∧ ¬ e.BlamesOrder := by
  cases e <;> first | exact h.elim | exact ⟨trivial, id⟩

theorem QueryError.BlamesFilter.isRefusal {e : QueryError} (h : e.BlamesFilter) :
    e.IsRefusal ∧ ¬ e.BlamesOrder := by
  cases e <;> first | exact h.elim | exact ⟨trivial, id⟩

theorem QueryError.BlamesOrder.isRefusal {e : QueryError} (h : e.BlamesOrder) : e.IsRefusal := by
  cases e <;> first | exact h.elim | trivial

/-! ### Checks -/

/-- Of the errors that the check fails with, `P` holds. -/
def FailsWith (P : ε → Prop) (x : Except ε α) : Prop := ∀ e, x = .error e → P e

namespace FailsWith

variable {P Q : ε → Prop}

theorem ok {a : α} : FailsWith P (.ok a) := nofun

theorem error {e : ε} (h : P e) : FailsWith P (.error e : Except ε α) := by
  rintro _ ⟨⟩
  exact h

theorem mono {x : Except ε α} (h : FailsWith P x) (hPQ : ∀ e, P e → Q e) : FailsWith Q x :=
  fun e he => hPQ e (h e he)

theorem bind {x : Except ε α} {f : α → Except ε β} (h : FailsWith P x)
    (hf : ∀ a, x = .ok a → FailsWith P (f a)) : FailsWith P (x >>= f) := by
  cases x with
  | ok a => exact hf a rfl
  | error e => exact error (h e rfl)

theorem mapM {f : α → Except ε β} (h : ∀ a, FailsWith P (f a)) (l : List α) :
    FailsWith P (l.mapM f) := by
  induction l with
  | nil => exact ok
  | cons a l ih =>
    rw [List.mapM_cons]
    exact (h a).bind fun b _ => ih.bind fun bs _ => ok

theorem forM {f : α → Except ε Unit} (h : ∀ a, FailsWith P (f a)) (l : List α) :
    FailsWith P (l.forM f) := by
  induction l with
  | nil => exact ok
  | cons a l ih => exact (h a).bind fun _ _ => ih

theorem mapM_option {f : α → Except ε β} (h : ∀ a, FailsWith P (f a)) (o : Option α) :
    FailsWith P (o.mapM f) := by
  cases o with
  | none => exact ok
  | some a => exact (h a).bind fun b _ => ok

end FailsWith

mutual

theorem Selection.failsWith_check (g : Graph) (scope : Graph.Scope) :
    ∀ sel : Selection, FailsWith QueryError.BlamesSelection (sel.check g scope)
  | .mk fields => by
    rw [Selection.check]
    exact failsWith_checkFields g scope fields

theorem Selection.failsWith_checkFields (g : Graph) (scope : Graph.Scope) :
    ∀ fields : List (String × Selection),
      FailsWith QueryError.BlamesSelection (Selection.checkFields g scope fields)
  | [] => by
    rw [Selection.checkFields]
    exact .ok
  | (name, inner) :: rest => by
    have hrest := failsWith_checkFields g scope rest
    rw [Selection.checkFields]
    split
    · split
      · exact .error trivial
      · exact hrest
    · refine .bind (.forM (fun f => ?_) _) fun _ _ => ?_
      · -- the selection into a field is smaller, whatever scope the kind of the field leads to
        split
        · split
          · exact failsWith_check g _ inner
          · exact .error trivial
        · exact .ok
      · split
        · exact .error trivial
        · exact hrest

end

theorem Subject.failsWith_named (c : Graph.Collection) (name : String) :
    FailsWith QueryError.BlamesFilter (Subject.named c name) := by
  unfold Subject.named
  split
  · exact .ok
  split
  · exact .ok
  split
  · exact .ok
  split
  · exact .error trivial
  split
  all_goals first | exact .ok | exact .error trivial

theorem Operand.failsWith_check (field : String) (type : OperandType) (v : Value) :
    FailsWith QueryError.BlamesFilter (Operand.check field type v) := by
  unfold Operand.check
  split
  · exact .ok
  · exact .error trivial

mutual

theorem Filter.failsWith_check (c : Graph.Collection) :
    ∀ f : Filter, FailsWith QueryError.BlamesFilter (f.check c)
  | .compare comparison field value => by
    rw [Filter.check]
    exact (Subject.failsWith_named c field).bind fun s _ =>
      (Operand.failsWith_check field s.2 value).bind fun _ _ => .ok
  | .oneOf field values => by
    rw [Filter.check]
    exact (Subject.failsWith_named c field).bind fun s _ =>
      (FailsWith.mapM (Operand.failsWith_check field s.2) values).bind fun _ _ => .ok
  | .startsWith field start => by
    rw [Filter.check]
    refine (Subject.failsWith_named c field).bind fun s _ => ?_
    dsimp only
    split
    · exact .ok
    · exact .error trivial
  | .present field => by
    rw [Filter.check]
    exact (Subject.failsWith_named c field).bind fun _ _ => .ok
  | .all filters => by
    rw [Filter.check]
    exact (failsWith_checkAll c filters).bind fun _ _ => .ok
  | .any filters => by
    rw [Filter.check]
    exact (failsWith_checkAll c filters).bind fun _ _ => .ok
  | .not filter => by
    rw [Filter.check]
    exact (failsWith_check c filter).bind fun _ _ => .ok

theorem Filter.failsWith_checkAll (c : Graph.Collection) :
    ∀ fs : List Filter, FailsWith QueryError.BlamesFilter (Filter.checkAll c fs)
  | [] => by
    rw [Filter.checkAll]
    exact .ok
  | f :: r => by
    rw [Filter.checkAll]
    exact (failsWith_check c f).bind fun _ _ => (failsWith_checkAll c r).bind fun _ _ => .ok

end

theorem Graph.Collection.failsWith_listing (c : Graph.Collection) (o : Option SortOrder) :
    FailsWith QueryError.BlamesOrder (c.listing o) := by
  unfold Graph.Collection.listing
  split
  · exact .ok
  split
  · exact .ok
  split
  · exact .ok
  · exact .error trivial

namespace Database

variable (db : Database) (r : Request) {P : QueryError → Prop}

/-- The checks of a request fail only by refusing it; which orders are refused is left open. -/
theorem failsWith_query (hP : ∀ e, e.IsRefusal → ¬ e.BlamesOrder → P e)
    (hlisting : ∀ c, db.graph.collection? r.collection = some c →
      FailsWith P (c.listing (sortOrder? c r))) : FailsWith P (db.query r) := by
  unfold query
  refine .bind ?_ fun c hc => .bind ((Selection.failsWith_check _ _ _).mono fun e he =>
    hP e he.isRefusal.1 he.isRefusal.2) fun _ _ => ?_
  · unfold collection
    split
    · exact .ok
    · exact .error (hP _ trivial id)
  have hfound : db.graph.collection? r.collection = some c := by
    unfold collection at hc
    split at hc
    · next hfound =>
      cases hc
      exact hfound
    · cases hc
  split
  · exact .ok
  refine .bind (.bind ?_ fun size _ => .bind (.mapM_option (fun f => ?_) _) fun predicate _ =>
    .bind (hlisting c hfound) fun listing _ => .bind (.mapM_option (fun text => ?_) _)
      fun after _ => .ok) fun q _ => .ok
  · unfold pageSize
    dsimp only
    split
    · exact .error (hP _ trivial id)
    · exact .ok
  · exact (Filter.failsWith_check c f).mono fun e he => hP e he.isRefusal.1 he.isRefusal.2
  · cases Cursor.decode text c.name listing.signature with
    | ok key => exact .ok
    | error fault => exact .error (hP _ trivial id)

/-- **A request that fails the checks is refused.** -/
theorem isRefusal_of_query : FailsWith QueryError.IsRefusal (db.query r) :=
  db.failsWith_query r (fun _ he _ => he) fun c _ =>
    (c.failsWith_listing _).mono fun _ he => he.isRefusal

end Database

/-! ### Results by any replies -/

namespace Program

/-- Some replies to its questions lead the program to the result. No store needs to give them: they
may be failures, or come from stores that other programs change. -/
inductive MayReturn : Program α → α → Prop
  | done (a : α) : MayReturn (.done a) a
  | ask {q : Question} {next : q.Reply → Program α} {a : α} (r : q.Reply)
      (h : MayReturn (next r) a) : MayReturn (.ask q next) a

/-- What a program returns on a store it may return. -/
theorem mayReturn_of_on {s : Store} {t : Program α} {a : α} (h : t.on s = some a) :
    t.MayReturn a := by
  induction t with
  | done b =>
    cases h
    exact .done _
  | ask q next ih =>
    obtain ⟨r, -, hr⟩ := Option.bind_eq_some_iff.mp h
    exact .ask r (ih r hr)
  | cut => cases h

theorem MayReturn.exists_of_bind {t : Program α} {f : α → Program β} {b : β}
    (h : (t.bind f).MayReturn b) : ∃ a, t.MayReturn a ∧ (f a).MayReturn b := by
  induction t with
  | done a => exact ⟨a, .done a, h⟩
  | ask q next ih =>
    rcases h with _ | ⟨r, h⟩
    obtain ⟨a, ha, hb⟩ := ih r h
    exact ⟨a, .ask r ha, hb⟩
  | cut => cases h

end Program

/-- Whatever is replied to its questions, the program refuses nothing. -/
def Failing.Accepts (t : Failing QueryError α) : Prop :=
  ∀ e, t.run.MayReturn (.error e) → ¬ e.IsRefusal

namespace Failing.Accepts

theorem pure {a : α} : (pure a : Failing QueryError α).Accepts := nofun

theorem throw {e : QueryError} (h : ¬ e.IsRefusal) :
    (throw e : Failing QueryError α).Accepts := by
  rintro _ ⟨⟩
  exact h

theorem bind {t : Failing QueryError α} {f : α → Failing QueryError β} (h : t.Accepts)
    (hf : ∀ a, (f a).Accepts) : (t >>= f).Accepts := by
  intro e he
  obtain ⟨r, hr, he⟩ := Program.MayReturn.exists_of_bind he
  cases r with
  | ok a => exact hf a e he
  | error _ =>
    cases he
    exact h e hr

/-- Failures of storage are no refusals. -/
theorem storage (t : Storage α) : Accepts (liftM t : Failing QueryError α) := by
  intro e he
  obtain ⟨r, -, he⟩ := Program.MayReturn.exists_of_bind he
  cases r with
  | ok a => cases he
  | error _ =>
    cases he
    exact id

theorem cut : (Failing.cut : Failing QueryError α).Accepts := nofun

end Failing.Accepts

/-- Whatever is replied to its questions and whatever was noted before, the step refuses nothing. -/
def Projecting.Accepts (t : Projecting α) : Prop := ∀ ws, Failing.Accepts (t.run ws)

namespace Projecting.Accepts

theorem pure {a : α} : (pure a : Projecting α).Accepts := fun _ => Failing.Accepts.pure

theorem bind {t : Projecting α} {f : α → Projecting β} (h : t.Accepts) (hf : ∀ a, (f a).Accepts) :
    (t >>= f).Accepts :=
  fun ws => Failing.Accepts.bind (h ws) fun r => hf r.1 r.2

theorem throw {e : QueryError} (h : ¬ e.IsRefusal) : (throw e : Projecting α).Accepts :=
  fun _ => Failing.Accepts.bind (Failing.Accepts.throw h) fun _ => Failing.Accepts.pure

theorem lift {t : Failing QueryError α} (h : t.Accepts) : Accepts (liftM t : Projecting α) :=
  fun _ => Failing.Accepts.bind h fun _ => Failing.Accepts.pure

theorem modify {f : List Dangling → List Dangling} : Accepts (modify f : Projecting Unit) :=
  fun _ => Failing.Accepts.pure

theorem mapM {l : List α} {f : α → Projecting β} (h : ∀ a, (f a).Accepts) :
    Accepts (l.mapM f : Projecting (List β)) := by
  induction l with
  | nil => exact pure
  | cons a l ih =>
    rw [List.mapM_cons]
    exact (h a).bind fun b => ih.bind fun bs => pure

end Projecting.Accepts

open Projecting (Accepts)

/-! ### Projections -/

theorem Graph.Kind.accepts_walk {visit : Kind → FieldValue → String → Projecting Value}
    (hvisit : ∀ k v here, (visit k v here).Accepts) (k : Kind) (v : FieldValue) (here : String) :
    Accepts (k.walk visit v here) := by
  induction k, v using Kind.walk_induction generalizing here with
  | list items vs ih =>
    rw [Kind.walk]
    exact .bind (.mapM fun x => ih x.1 _) fun _ => .pure
  | leaf k v hleaf =>
    rw [Kind.walk]
    · exact hvisit _ _ _
    · exact hleaf

/-- A reference that leads outside of its collections is what is stored, not what is asked for. -/
theorem Snapshot.accepts_follow (x : Snapshot) (allowed : List String) (t : Target) (here : String) :
    Accepts (x.follow allowed t here) := by
  unfold follow
  split
  · exact .throw id
  · refine .bind (.lift (.storage _)) fun r => ?_
    cases r with
    | some r => exact .pure
    | none => exact .bind .modify fun _ => .pure

mutual

theorem Selection.accepts_project (x : Snapshot) (d : Composite) (here : String) :
    ∀ sel : Selection, Accepts (sel.project x d here)
  | .mk fields => by
    rw [project]
    split
    · exact .pure
    · exact .bind (accepts_projectFields x d here fields) fun _ => .pure

theorem Selection.accepts_projectFields (x : Snapshot) (d : Composite) (here : String) :
    ∀ fields : List (String × Selection), Accepts (projectFields x d here fields)
  | [] => by
    rw [projectFields]
    exact .pure
  | (name, inner) :: rest => by
    rw [projectFields_cons]
    refine .bind ?_ fun value => .bind (accepts_projectFields x d here rest) fun _ => .pure
    unfold projectField
    split
    · exact .pure
    · exact .pure
    · refine Kind.accepts_walk (fun k v here => ?_) _ _ _
      unfold visit
      split
      · exact accepts_project x _ _ inner
      · split
        · exact .pure
        · refine .bind (x.accepts_follow _ _ _) fun r => ?_
          cases r with
          | some document => exact accepts_project x _ _ inner
          | none => exact .pure
      · exact .pure

end

/-! ### Requests -/

theorem PageQuery.accepts_fill (q : PageQuery) (x : Snapshot) (rounds : Nat) (scan : Scan)
    (items : Items) : Accepts (q.fill x rounds scan items) := by
  induction rounds generalizing scan items with
  | zero => exact .lift .cut
  | succ rounds ih =>
    rw [fill]
    refine .bind (.lift (.storage _)) fun next => ?_
    rcases next with _ | ⟨e, scan'⟩
    · exact .pure
    refine .bind (.lift (.storage _)) fun found => ?_
    split
    · exact ih _ _
    · split
      · exact .pure
      · exact .bind (Selection.accepts_project x _ _ _) fun item => ih _ _

/-- The answer to a query. -/
def Query.answer (db : Database) (rounds : Nat) : Query → Failing QueryError Answer
  | .lookup c path selection => db.lookup c path selection
  | .page q => db.readPage rounds q

namespace Database

variable (db : Database)

theorem accepts_snapshot? : Failing.Accepts db.snapshot? := by
  unfold snapshot?
  refine .bind (.storage _) fun active => ?_
  split
  · exact .pure
  · refine .bind (.storage _) fun info => ?_
    split
    · split
      · exact .pure
      · exact .throw id
    · exact .throw id

theorem accepts_lookup (c : Graph.Collection) (path : String) (sel : Selection) :
    Failing.Accepts (db.lookup c path sel) := by
  unfold lookup
  refine .bind db.accepts_snapshot? fun x => ?_
  split
  · refine .bind (.storage _) fun found => ?_
    split
    · exact .bind (Selection.accepts_project _ _ _ sel []) fun _ => .pure
    · exact .throw id
  · exact .throw id

theorem accepts_readPage (rounds : Nat) (q : PageQuery) :
    Failing.Accepts (db.readPage rounds q) := by
  unfold readPage
  refine .bind db.accepts_snapshot? fun x => ?_
  split
  · unfold PageQuery.read
    exact .bind (q.accepts_fill _ rounds _ _ []) fun _ => .pure
  · exact .pure

variable {db} {r : Request}

theorem resolve_of_query {q : Query} (h : db.query r = .ok q) (rounds : Nat) :
    db.resolve rounds r = q.answer db rounds := by
  rw [resolve, h]
  rfl

/-- **A request that passes the checks is not refused**, whatever is replied. -/
theorem accepts_resolve {q : Query} (h : db.query r = .ok q) (rounds : Nat) :
    Failing.Accepts (db.resolve rounds r) := by
  rw [resolve_of_query h]
  cases q with
  | lookup c path sel => exact db.accepts_lookup c path sel
  | page q => exact db.accepts_readPage rounds q

/-- A request that fails the checks is refused, and no question is asked. -/
theorem resolve_of_query_error {e : QueryError} (h : db.query r = .error e) (rounds : Nat) :
    db.resolve rounds r = throw e := by
  rw [resolve, h]
  rfl

/-- **Refusals do not depend on what is stored.** Whatever is replied to the questions of a request
that is refused, it is refused in the same way on every store, and it has failed the checks. A request
that passes them is not refused, whatever is replied. -/
theorem refused_everywhere (db : Database) (r : Request) :
    (∀ e : QueryError, e.IsRefusal → ∀ (rounds : Nat) (s : Store),
      (db.resolve rounds r).on s = some (.error e) →
        ∀ (rounds' : Nat) (s' : Store), (db.resolve rounds' r).on s' = some (.error e)) ∧
    (∀ q : Query, db.query r = .ok q → ∀ (rounds : Nat) (e : QueryError),
      (db.resolve rounds r).run.MayReturn (.error e) → ¬ e.IsRefusal) := by
  refine ⟨fun e he rounds s hs rounds' s' => ?_, fun q hq rounds => accepts_resolve hq rounds⟩
  cases hquery : db.query r with
  | ok q =>
    -- the request passes the checks, so it is not refused on `s`
    exact absurd he (accepts_resolve hquery rounds e (Program.mayReturn_of_on hs))
  | error e' =>
    rw [resolve_of_query_error hquery] at hs ⊢
    exact hs

/-- No collection of the name is in the graph, neither before anything is indexed nor after that. And
a listing of notes fails with what the storage fails with. -/
theorem refused_everywhere_notebook :
    (notebook.resolve 4 (.list "pages" .empty)).on notesHost.store =
        some (.error (.unknownCollection "pages")) ∧
      (notebook.resolve 4 doneFirst).run.MayReturn (.error (.storage (.backend "closed"))) ∧
        ¬ (QueryError.storage (.backend "closed")).IsRefusal := by
  obtain ⟨q, hq, -, -⟩ := doneFirst_opens.exists_query notebook_compiled (List.mem_singleton_self _)
  have hquery := query_eq_page_iff.mpr hq
  have hclosed : (notebook.resolve 4 doneFirst).run.MayReturn
      (.error (.storage (.backend "closed"))) := by
    rw [resolve_of_query hquery]
    exact .ask (.error (.backend "closed")) (.done _)
  refine ⟨?_, hclosed, (refused_everywhere notebook doneFirst).2 _ hquery 4 _ hclosed⟩
  generalize notesHost.store = s
  exact (refused_everywhere notebook (.list "pages" .empty)).1 (.unknownCollection "pages") trivial 4
    OrderedMap.empty rfl 4 s

end Database

end ContentIndex
