import DocStore.Proofs.Runs

/-!
# Predicates leave no trace

A predicate may ask further queries, and these run in the middle of a scan and share its bookmark.
All the same its answer depends on the view alone, and it leaves the bookmark as it was: such a
computation is `Steady`. What it leaves behind are reads and events. `Inquiry.run_steady` shows this
of every predicate, along with every query that it asks (`findRows_steady`), since a scan inside a
predicate starts from a bookmark of its own and puts the old one back.
-/

namespace DocStore

variable {α β σ : Type}

/-- The answer does not depend on the trail, the bookmark stays, and reads are only added. -/
structure Steady (f : Trail → β × Trail) : Prop where
  answer : ∀ t t', (f t).1 = (f t').1
  bookmark : ∀ t, (f t).2.bookmark = t.bookmark
  reads : ∀ t, t.reads <:+ (f t).2.reads

namespace Steady

theorem pure (b : β) : Steady fun trail => (b, trail) :=
  ⟨fun _ _ => rfl, fun _ => rfl, fun t => List.suffix_refl t.reads⟩

theorem map {γ : Type} {f : Trail → β × Trail} (h : Steady f) (g : β → γ) :
    Steady fun trail => (g (f trail).1, (f trail).2) :=
  ⟨fun t t' => congrArg g (h.answer t t'), h.bookmark, h.reads⟩

theorem seq {γ : Type} {f : Trail → β × Trail} {g : β → Trail → γ × Trail} (hf : Steady f)
    (hg : ∀ b, Steady (g b)) : Steady fun trail => g (f trail).1 (f trail).2 where
  answer t t' := by rw [hf.answer t t', (hg (f t').1).answer (f t).2 (f t').2]
  bookmark t := by rw [(hg (f t).1).bookmark, hf.bookmark]
  reads t := (hf.reads t).trans ((hg (f t).1).reads (f t).2)

theorem bind {w : Exec α} {f : α → Exec β} (hw : Steady w) (hf : ∀ a, Steady (f a)) :
    Steady (w >>= f) := by
  let next : Except Failure α → Exec β
    | .ok a => f a
    | .error e => fun trail => (.error e, trail)
  have hseq : (w >>= f) = fun trail => next (w trail).1 (w trail).2 := by
    funext trail
    rw [run_bind]
    rcases w trail with ⟨_ | _, _⟩ <;> rfl
  rw [hseq]
  refine hw.seq fun result => ?_
  cases result with
  | error e => exact .pure _
  | ok a => exact hf a

theorem ofExcept (result : Except Failure α) : Steady (Exec.ofExcept result) := .pure result

theorem report (event : Event) : Steady (Exec.report event) :=
  ⟨fun _ _ => rfl, fun _ => rfl, fun t => List.suffix_refl t.reads⟩

end Steady

-- ---------------------------------------------------------------------------
-- Readings
-- ---------------------------------------------------------------------------

/-- A reading whose answer does not depend on what was read before, and which adds to it. -/
structure Reading.Steady {ε : Type} (r : Reading ε α) : Prop where
  answer : ∀ view reads reads', (r view reads).1 = (r view reads').1
  reads : ∀ view reads, reads <:+ (r view reads).2

namespace Reading.Steady

variable {ε : Type}

theorem pure (a : α) : Reading.Steady (Pure.pure a : Reading ε α) :=
  ⟨fun _ _ _ => rfl, fun _ reads => List.suffix_refl reads⟩

theorem throw (e : ε) : Reading.Steady (MonadExcept.throw e : Reading ε α) :=
  ⟨fun _ _ _ => rfl, fun _ reads => List.suffix_refl reads⟩

theorem ofExcept (result : Except ε α) : Reading.Steady (Reading.ofExcept result) :=
  ⟨fun _ _ _ => rfl, fun _ reads => List.suffix_refl reads⟩

theorem get (key : Bytes) : Reading.Steady (Reading.get key : Reading ε (Option Bytes)) :=
  ⟨fun _ _ _ => rfl, fun _ _ => List.suffix_cons _ _⟩

theorem multiGet (keys : List Bytes) :
    Reading.Steady (Reading.multiGet keys : Reading ε (List (Option Bytes))) :=
  ⟨fun _ _ _ => rfl, fun _ _ => List.suffix_append _ _⟩

theorem bind {r : Reading ε α} {f : α → Reading ε β} (hr : r.Steady) (hf : ∀ a, (f a).Steady) :
    (r >>= f).Steady := by
  refine ⟨fun view reads reads' => ?_, fun view reads => ?_⟩
  · rw [run_bind, run_bind]
    have hanswer := hr.answer view reads reads'
    rcases hrun : r view reads with ⟨result, more⟩
    rcases hrun' : r view reads' with ⟨result', more'⟩
    rw [hrun, hrun'] at hanswer
    cases hanswer
    cases result with
    | error e => rfl
    | ok a => exact (hf a).answer view more more'
  · rw [run_bind]
    have hreads := hr.reads view reads
    rcases hrun : r view reads with ⟨result, more⟩
    rw [hrun] at hreads
    cases result with
    | error e => exact hreads
    | ok a => exact hreads.trans ((hf a).reads view more)

end Reading.Steady

theorem Steady.ofReading {r : Reading EngineError α} (h : r.Steady) (view : Data) :
    DocStore.Steady (Exec.ofReading view r) :=
  ⟨fun t t' => congrArg (Except.mapError Failure.ofEngine) (h.answer view t.reads t'.reads),
    fun _ => rfl,
    fun t => h.reads view t.reads⟩

theorem Index.readEntry_steady (schema : Schema) (spec : IndexSpec) (entry : Bytes) :
    (readEntry schema spec entry).Steady := by
  refine .bind (.get entry) fun found => ?_
  cases found with
  | none => exact .pure _
  | some bytes =>
    dsimp only
    cases KeyList.decode? bytes with
    | none => exact .throw _
    | some keys => exact .pure keys

theorem Index.collect_steady (codec : Codec) (schema : Schema) (spec : IndexSpec)
    (values : List Value) : (collect codec schema spec values).Steady := by
  induction values with
  | nil => exact .pure _
  | cons value rest ih =>
    refine .bind (.ofExcept _) fun entry => ?_
    refine .bind (readEntry_steady schema spec entry) fun keys => ?_
    exact .bind ih fun more => .pure _

theorem Index.lookup_steady (codec : Codec) (schema : Schema) (spec : IndexSpec)
    (values : List Value) : (lookup codec schema spec values).Steady :=
  .bind (collect_steady codec schema spec _) fun _ => .pure _

-- ---------------------------------------------------------------------------
-- Searches
-- ---------------------------------------------------------------------------

/-- Two states of a search that differ in their trails at most. -/
structure Sweep.Agree (s s' : Sweep σ) : Prop where
  seen : s.seen = s'.seen
  skip : s.skip = s'.skip
  emitted : s.emitted = s'.emitted
  acc : s.acc = s'.acc

theorem Sweep.Agree.refl (s : Sweep σ) : s.Agree s := ⟨rfl, rfl, rfl, rfl⟩

theorem Sweep.Agree.symm {s s' : Sweep σ} (h : s.Agree s') : s'.Agree s :=
  ⟨h.seen.symm, h.skip.symm, h.emitted.symm, h.acc.symm⟩

theorem Sweep.Agree.trans {s s' s'' : Sweep σ} (h : s.Agree s') (h' : s'.Agree s'') : s.Agree s'' :=
  ⟨h.seen.trans h'.seen, h.skip.trans h'.skip, h.emitted.trans h'.emitted, h.acc.trans h'.acc⟩

/-- A part of a search that does not depend on the trail and leaves the bookmark alone. -/
structure Sweeping.Steady (w : Sweeping σ α) : Prop where
  answer : ∀ s s', s.Agree s' → (w s).1 = (w s').1 ∧ (w s).2.Agree (w s').2
  bookmark : ∀ s, (w s).2.trail.bookmark = s.trail.bookmark
  reads : ∀ s, s.trail.reads <:+ (w s).2.trail.reads

/-- A part of a search that depends on the bookmark, and on nothing else of the trail. -/
structure Sweeping.Placed (w : Sweeping σ α) : Prop where
  answer : ∀ s s', s.Agree s' → s.trail.bookmark = s'.trail.bookmark →
    (w s).1 = (w s').1 ∧ (w s).2.Agree (w s').2 ∧
      (w s).2.trail.bookmark = (w s').2.trail.bookmark
  reads : ∀ s, s.trail.reads <:+ (w s).2.trail.reads

namespace Sweeping

variable {w : Sweeping σ α} {f : α → Sweeping σ β}

theorem Steady.placed (h : w.Steady) : w.Placed where
  answer s s' hagree hbookmark := by
    obtain ⟨hanswer, hlast⟩ := h.answer s s' hagree
    refine ⟨hanswer, hlast, ?_⟩
    rw [h.bookmark, h.bookmark, hbookmark]
  reads := h.reads

theorem Steady.pure (a : α) : Steady (Pure.pure a : Sweeping σ α) :=
  ⟨fun _ _ h => ⟨rfl, h⟩, fun _ => rfl, fun s => List.suffix_refl s.trail.reads⟩

theorem Steady.throw (e : Failure) : Steady (MonadExcept.throw e : Sweeping σ α) :=
  ⟨fun _ _ h => ⟨rfl, h⟩, fun _ => rfl, fun s => List.suffix_refl s.trail.reads⟩

theorem Steady.bind (hw : w.Steady) (hf : ∀ a, (f a).Steady) : (w >>= f).Steady := by
  refine ⟨fun s s' hagree => ?_, fun s => ?_, fun s => ?_⟩
  · obtain ⟨hanswer, hnext⟩ := hw.answer s s' hagree
    rw [run_bind, run_bind]
    rcases hrun : w s with ⟨result, t⟩
    rcases hrun' : w s' with ⟨result', t'⟩
    rw [hrun, hrun'] at hanswer hnext
    cases hanswer
    cases result with
    | error e => exact ⟨rfl, hnext⟩
    | ok a => exact (hf a).answer t t' hnext
  · have hbookmark := hw.bookmark s
    rw [run_bind]
    rcases hrun : w s with ⟨result, t⟩
    rw [hrun] at hbookmark
    cases result with
    | error e => exact hbookmark
    | ok a => exact ((hf a).bookmark t).trans hbookmark
  · have hreads := hw.reads s
    rw [run_bind]
    rcases hrun : w s with ⟨result, t⟩
    rw [hrun] at hreads
    cases result with
    | error e => exact hreads
    | ok a => exact hreads.trans ((hf a).reads t)

theorem Placed.bind (hw : w.Placed) (hf : ∀ a, (f a).Placed) : (w >>= f).Placed := by
  refine ⟨fun s s' hagree hbookmark => ?_, fun s => ?_⟩
  · obtain ⟨hanswer, hnext, hplace⟩ := hw.answer s s' hagree hbookmark
    rw [run_bind, run_bind]
    rcases hrun : w s with ⟨result, t⟩
    rcases hrun' : w s' with ⟨result', t'⟩
    rw [hrun, hrun'] at hanswer hnext hplace
    cases hanswer
    cases result with
    | error e => exact ⟨rfl, hnext, hplace⟩
    | ok a => exact (hf a).answer t t' hnext hplace
  · have hreads := hw.reads s
    rw [run_bind]
    rcases hrun : w s with ⟨result, t⟩
    rw [hrun] at hreads
    cases result with
    | error e => exact hreads
    | ok a => exact hreads.trans ((hf a).reads t)

/-- Looking at the state is harmless as long as it is not the trail that is looked at. -/
theorem Steady.get_bind {f : Sweep σ → Sweeping σ β} (hsteady : ∀ s, (f s).Steady)
    (hagree : ∀ s s', s.Agree s' → f s = f s') : (get >>= f).Steady := by
  refine ⟨fun s s' h => ?_, fun s => ?_, fun s => ?_⟩
  · simp only [run_bind, run_get]
    rw [hagree s s' h]
    exact (hsteady s').answer s s' h
  · simpa only [run_bind, run_get] using (hsteady s).bookmark s
  · simpa only [run_bind, run_get] using (hsteady s).reads s

theorem Steady.ofExec {work : Exec α} (h : DocStore.Steady work) :
    Steady (Sweeping.ofExec work : Sweeping σ α) :=
  ⟨fun s s' hagree => ⟨h.answer s.trail s'.trail, hagree.seen, hagree.skip, hagree.emitted,
    hagree.acc⟩, fun s => h.bookmark s.trail, fun s => h.reads s.trail⟩

/-- A scan that starts afresh and puts the bookmark back does not depend on it. -/
theorem Placed.parked (h : w.Placed) : Steady (parked w) := by
  refine ⟨fun s s' hagree => ?_, fun s => rfl,
    fun s => h.reads { s with trail := { s.trail with bookmark := .start } }⟩
  obtain ⟨hanswer, hlast, -⟩ := h.answer
    { s with trail := { s.trail with bookmark := .start } }
    { s' with trail := { s'.trail with bookmark := .start } }
    ⟨hagree.seen, hagree.skip, hagree.emitted, hagree.acc⟩ rfl
  exact ⟨hanswer, hlast.seen, hlast.skip, hlast.emitted, hlast.acc⟩

theorem placed_draw (scene : Scene) (cursor : Cursor Failure) :
    Placed (draw scene cursor : Sweeping σ (Option Candidate)) := by
  refine ⟨fun s s' hagree hbookmark => ?_, fun s => List.suffix_append _ _⟩
  unfold draw
  rw [hbookmark]
  exact ⟨rfl, ⟨hagree.seen, hagree.skip, hagree.emitted, hagree.acc⟩, rfl⟩

end Sweeping

-- ---------------------------------------------------------------------------
-- Queries whose tests are steady
-- ---------------------------------------------------------------------------

/-- A test that a caller gave is steady, whatever it is asked. -/
def Clause.Steady (c : Clause Test) : Prop :=
  ∀ test, c.criterion = .predicate test → ∀ value doc, DocStore.Steady (test value doc)

namespace Search

variable {scene : Scene} {schema : Schema} {sink : Sink σ} {limit : Option Nat} {q : Query Test}

theorem clausesHold_steady {clauses : List (Clause Test)} (h : ∀ c ∈ clauses, c.Steady)
    (row : Row) : Steady (Evaluation.clausesHold scene schema row clauses) := by
  induction clauses with
  | nil => exact .pure _
  | cons c rest ih =>
    refine .bind (.ofExcept _) fun value => .bind ?_ fun holds => ?_
    · cases hcriterion : c.criterion with
      | condition condition => exact .ofExcept _
      | predicate test => exact h c List.mem_cons_self test hcriterion value row.doc
    · cases holds with
      | false => exact .pure _
      | true => exact ih fun c hc => h c (List.mem_cons_of_mem _ hc)

theorem isFull_steady : (isFull limit : Sweeping σ Bool).Steady :=
  .get_bind (fun _ => .pure _) fun s s' h => by rw [h.emitted]

theorem isFull_run (s : Sweep σ) :
    (isFull limit : Sweeping σ Bool) s = (.ok (limit.any (· ≤ s.emitted)), s) := by
  simp only [isFull, run_bind, run_get, run_pure]

theorem accept_run (row : Row) (s : Sweep σ) :
    accept sink row s =
      if s.skip = 0 then
        (((sink row) s.acc).1, { s with seen := row.key :: s.seen, emitted := s.emitted + 1,
                                        acc := ((sink row) s.acc).2 })
      else (.ok (), { s with seen := row.key :: s.seen, skip := s.skip - 1 }) := by
  simp only [accept, run_bind, run_get]
  split
  · simp only [run_bind, run_set]
    rfl
  · simp only [run_set]

theorem accept_steady (row : Row) : (accept sink row).Steady := by
  refine ⟨fun s s' h => ?_, fun s => ?_, fun s => ?_⟩
  · rw [accept_run, accept_run, h.skip, h.acc]
    split
    · exact ⟨rfl, by simp [h.seen], rfl, by simp [h.emitted], rfl⟩
    · exact ⟨rfl, by simp [h.seen], rfl, h.emitted, rfl⟩
  · rw [accept_run]
    split <;> rfl
  · rw [accept_run]
    split <;> exact List.suffix_refl s.trail.reads

theorem consider_run (candidate : Candidate) (s : Sweep σ) :
    consider scene schema sink q candidate s =
      if s.seen.contains candidate.key then (.ok (), s)
      else
        match decodeRecord scene.codec schema candidate.key candidate.value with
        | .error e => (.error e, s)
        | .ok doc =>
          match Evaluation.clausesHold scene schema ⟨candidate.key, doc⟩ q.clauses s.trail with
          | (.error e, trail) => (.error e, { s with trail })
          | (.ok false, trail) => (.ok (), { s with trail })
          | (.ok true, trail) => accept sink ⟨candidate.key, doc⟩ { s with trail } := by
  simp only [consider, run_bind, run_get]
  split
  · rfl
  · simp only [run_bind, Sweeping.ofExec, Exec.ofExcept]
    cases decodeRecord scene.codec schema candidate.key candidate.value with
    | error e => rfl
    | ok doc =>
      dsimp only
      rcases Evaluation.clausesHold scene schema ⟨candidate.key, doc⟩ q.clauses s.trail with
        ⟨_ | _ | _, trail⟩ <;> rfl

variable (hq : ∀ c ∈ q.clauses, c.Steady)
include hq

theorem consider_steady (candidate : Candidate) :
    (consider scene schema sink q candidate).Steady := by
  refine .get_bind (fun s => ?_) fun s s' h => by rw [h.seen]
  split
  · exact .pure _
  · refine .bind (.ofExec (.ofExcept _)) fun doc => ?_
    refine .bind (.ofExec (clausesHold_steady hq _)) fun holds => ?_
    cases holds with
    | false => exact .pure _
    | true => exact accept_steady _

theorem considerEach_steady (spec : IndexSpec) (found : List (Bytes × Option Bytes)) :
    (considerEach scene schema sink limit q spec found).Steady := by
  induction found with
  | nil => exact .pure _
  | cons pair rest ih =>
    obtain ⟨key, value⟩ := pair
    refine .bind isFull_steady fun full => ?_
    cases full with
    | true => exact .pure _
    | false =>
      cases value with
      | none => exact .throw _
      | some value => exact .bind (consider_steady hq _) fun _ => ih

theorem considerDrawn_placed (cursor : Cursor Failure) (fuel : Nat) :
    (considerDrawn scene schema sink limit q cursor fuel).Placed := by
  induction fuel with
  | zero => exact (Sweeping.Steady.pure _).placed
  | succ fuel ih =>
    refine .bind isFull_steady.placed fun full => ?_
    cases full with
    | true => exact (Sweeping.Steady.pure _).placed
    | false =>
      refine .bind (Sweeping.placed_draw scene cursor) fun drawn => ?_
      cases drawn with
      | none => exact (Sweeping.Steady.pure _).placed
      | some candidate => exact .bind (consider_steady hq candidate).placed fun _ => ih

theorem scan_steady (source : Source) (filter : Option (Value → Except Failure Bool)) :
    (scan scene schema sink limit q source filter).Steady := by
  unfold scan
  exact (considerDrawn_placed hq _ _).parked

theorem pass_steady : (pass scene schema sink limit q).Steady := by
  refine .bind (.ofExec (.ofExcept _)) fun plan => .bind (.ofExec (.report _)) fun _ => ?_
  cases plan with
  | lookup spec values =>
    refine .bind (.ofExec (.ofReading (Index.lookup_steady _ _ _ _) _)) fun keys => ?_
    refine .bind (.ofExec (.ofReading (.multiGet _) _)) fun found => ?_
    exact considerEach_steady hq spec _
  | indexScan spec filtered => exact scan_steady hq _ _
  | recordScan => exact scan_steady hq _ _

end Search

-- ---------------------------------------------------------------------------
-- Whole queries
-- ---------------------------------------------------------------------------

def Query.Steady (q : Query Test) : Prop := ∀ b ∈ q.branches, ∀ c ∈ b.clauses, c.Steady

theorem Query.Steady.unpaged {q : Query Test} (h : q.Steady) : q.unpaged.Steady := by
  obtain ⟨clauses, ors, indexName, sortFields, reversed, skip, limit, error⟩ := q
  intro b hb
  rcases List.mem_cons.mp hb with rfl | hb
  · exact h ⟨clauses, ors, indexName, sortFields, reversed, skip, limit, error⟩ List.mem_cons_self
  · exact h b (List.mem_cons_of_mem _ hb)

namespace Search

variable {scene : Scene} {schema : Schema} {sink : Sink σ} {limit : Option Nat} {q : Query Test}

theorem passEach_steady {branches : List (Query Test)}
    (h : ∀ b ∈ branches, ∀ c ∈ b.clauses, c.Steady) :
    (passEach scene schema sink limit branches).Steady := by
  induction branches with
  | nil => exact .pure _
  | cons b rest ih =>
    refine .bind isFull_steady fun full => ?_
    cases full with
    | true => exact .pure _
    | false =>
      refine .bind (pass_steady (h b List.mem_cons_self)) fun _ => ih fun b' hb' => ?_
      exact h b' (List.mem_cons_of_mem _ hb')

theorem passAll_steady {branches : List (Query Test)}
    (h : ∀ b ∈ branches, ∀ c ∈ b.clauses, c.Steady) :
    (passAll scene schema sink limit branches).Steady := by
  cases branches with
  | nil => exact .pure _
  | cons b rest =>
    refine .bind (pass_steady (h b List.mem_cons_self)) fun _ => passEach_steady fun b' hb' => ?_
    exact h b' (List.mem_cons_of_mem _ hb')

theorem sweep_steady (h : q.Steady) (acc : σ) :
    Steady fun trail =>
      (((sweep scene schema sink q acc trail).1, (sweep scene schema sink q acc trail).2.1),
        (sweep scene schema sink q acc trail).2.2) := by
  have hpasses : (passAll scene schema sink q.limit q.branches).Steady := passAll_steady h
  let first (trail : Trail) : Sweep σ := ⟨trail, [], q.skipCount, 0, acc⟩
  refine ⟨fun t t' => ?_, fun t => hpasses.bookmark (first t), fun t => hpasses.reads (first t)⟩
  obtain ⟨hanswer, hlast⟩ := hpasses.answer (first t) (first t') ⟨rfl, rfl, rfl, rfl⟩
  exact Prod.ext hanswer hlast.acc

theorem sweepRows_steady (h : q.Steady) : Steady (sweepRows scene schema q) :=
  (sweep_steady h []).map fun outcome => outcome.1.map fun _ => outcome.2.reverse

theorem sortedRows_steady (h : q.unpaged.Steady) : Steady (sortedRows scene schema q) :=
  .bind (sweepRows_steady h) fun _ => .bind (.ofExcept _) fun _ => .pure _

theorem walk_invalid {e : Failure} (h : q.validate = .error e) (acc : σ) (trail : Trail) :
    walk scene schema sink q acc trail = (.error e, acc, trail) := by
  simp only [walk, h]

theorem walk_unsorted (h : q.validate = .ok ()) (hsort : q.sortFields.isEmpty = true) (acc : σ)
    (trail : Trail) :
    walk scene schema sink q acc trail = sweep scene schema sink q acc trail := by
  simp only [walk, h, hsort, if_true]

def feedSorted (sink : Sink σ) (q : Query Test) (acc : σ) :
    Except Failure (List Row) → Except Failure Unit × σ
  | .error e => (.error e, acc)
  | .ok rows => feed sink (slice q rows) acc

theorem walk_sorted (h : q.validate = .ok ()) (hsort : q.sortFields.isEmpty = false) (acc : σ)
    (trail : Trail) :
    walk scene schema sink q acc trail =
      ((feedSorted sink q acc (sortedRows scene schema q trail).1).1,
        (feedSorted sink q acc (sortedRows scene schema q trail).1).2,
        (sortedRows scene schema q trail).2) := by
  simp only [walk, h, hsort, Bool.false_eq_true, if_false]
  rcases sortedRows scene schema q trail with ⟨_ | _, _⟩ <;> rfl

theorem walk_steady (h : q.Steady) (acc : σ) :
    Steady fun trail =>
      (((walk scene schema sink q acc trail).1, (walk scene schema sink q acc trail).2.1),
        (walk scene schema sink q acc trail).2.2) := by
  cases hvalid : q.validate with
  | error e =>
    simp only [walk_invalid hvalid]
    exact .pure _
  | ok _ =>
    cases hsort : q.sortFields.isEmpty with
    | true =>
      simp only [walk_unsorted hvalid hsort]
      exact sweep_steady h acc
    | false =>
      simp only [walk_sorted hvalid hsort]
      exact (sortedRows_steady h.unpaged).map (feedSorted sink q acc)

theorem findRows_steady (h : q.Steady) :
    Steady (findRows scene schema q) :=
  (walk_steady h []).map fun outcome => outcome.1.map fun _ => outcome.2.reverse

theorem count_steady (h : q.Steady) : Steady (count scene schema q) :=
  (walk_steady h 0).map fun outcome => outcome.1.map fun _ => outcome.2

theorem aggregate_steady (h : q.Steady) (fields : List String) :
    Steady (aggregate scene schema q fields) := by
  unfold aggregate
  split
  · exact .pure _
  · exact (walk_steady h (Group.initial schema.typeName fields)).map
      fun outcome => outcome.1.map fun _ => outcome.2

theorem findDocuments_steady (h : q.Steady) (entity : Entity) :
    Steady (findDocuments scene entity q) :=
  .bind (.ofExcept _) fun _ => .bind (findRows_steady h) fun _ => .ofExcept _

theorem aggregateEntity_steady (h : q.Steady) (entity : Entity)
    (fields : List String) : Steady (aggregateEntity scene entity q fields) :=
  .bind (.ofExcept _) fun _ => aggregate_steady h fields

end Search

-- ---------------------------------------------------------------------------
-- Predicates
-- ---------------------------------------------------------------------------

variable (scene : Scene)

-- The recursion is that of the trees: a predicate asks queries, whose tests are predicates again.
mutual
theorem Inquiry.run_steady : (inquiry : Inquiry) → Steady (inquiry.run scene)
  | .answer holds => .pure _
  | .fail failure => .pure _
  | .find entity query next => by
    have hquery := Query.ready_steady query
    exact (Search.findDocuments_steady hquery entity).seq fun outcome =>
      Inquiry.run_steady (next outcome)
  | .aggregate entity query fields next => by
    have hquery := Query.ready_steady query
    exact (Search.aggregateEntity_steady hquery entity fields).seq fun outcome =>
      Inquiry.run_steady (next outcome)
theorem Query.ready_steady : (q : Query Predicate) → (q.ready scene).Steady
  | ⟨clauses, ors, indexName, sortFields, reversed, skip, limit, error⟩ => fun b hb => by
    rcases List.mem_cons.mp hb with rfl | hb
    · exact readyClauses_steady clauses
    · exact readyOrs_steady ors b hb
theorem readyOrs_steady : (ors : List (Query Predicate)) →
    ∀ b ∈ Query.branchesOf (readyOrs scene ors), ∀ c ∈ b.clauses, c.Steady
  | [] => fun b hb => nomatch hb
  | q :: rest => fun b hb => by
    rcases List.mem_append.mp hb with hb | hb
    · exact Query.ready_steady q b hb
    · exact readyOrs_steady rest b hb
theorem readyClauses_steady : (clauses : List (Clause Predicate)) →
    ∀ c ∈ readyClauses scene clauses, c.Steady
  | [] => fun c hc => nomatch hc
  | c :: rest => fun c' hc' => by
    rcases List.mem_cons.mp hc' with rfl | hc'
    · exact readyClause_steady c
    · exact readyClauses_steady rest c' hc'
theorem readyClause_steady : (c : Clause Predicate) → (readyClause scene c).Steady
  | ⟨_, criterion⟩ => fun test htest => readyCriterion_steady criterion test htest
theorem readyCriterion_steady : (criterion : Criterion Predicate) →
    ∀ test, readyCriterion scene criterion = .predicate test →
      ∀ value doc, Steady (test value doc)
  | .condition c => fun test htest => nomatch htest
  | .predicate p => fun test htest value doc => by
    cases htest
    exact Inquiry.run_steady (p value doc)
end

end DocStore
