import DocStore.Proofs.Echoes
import DocStore.Proofs.Keeping

/-!
# Exchanging tests, views and page sizes

Three things about a search may be exchanged. Tests may give way to others that answer alike, since a
search does not depend on the trails that they leave (`Interchangeable`). The view may be another one
that has the same of the type that is searched (`Scene.Shows`). And pages may be of another size, since
the candidates of a scan are always the same up to a page that fails. The search then echoes the one
before, either exactly or at least where that one succeeds (`findDocuments_echo`). What keeps the echo
from being exact are pages that fail. A search that stops early may have no need of an entry that makes
a whole page fail, and then only pages of one entry echo pages of any size (`scan_echo`).
-/

namespace DocStore

variable {π π' π'' α σ : Type}

-- ---------------------------------------------------------------------------
-- Queries with other predicates
-- ---------------------------------------------------------------------------

def Criterion.map (f : π → π') : Criterion π → Criterion π'
  | .condition c => .condition c
  | .predicate p => .predicate (f p)

def Clause.map (f : π → π') (c : Clause π) : Clause π' := ⟨c.field, c.criterion.map f⟩

mutual
def Query.map (f : π → π') : Query π → Query π'
  | ⟨clauses, ors, indexName, sortFields, reversed, skip, limit, error⟩ =>
    ⟨clauses.map (Clause.map f), Query.mapOrs f ors, indexName, sortFields, reversed, skip, limit, error⟩
def Query.mapOrs (f : π → π') : List (Query π) → List (Query π')
  | [] => []
  | q :: rest => q.map f :: Query.mapOrs f rest
end

theorem Clause.map_map (f : π → π') (g : π' → π'') (c : Clause π) :
    (c.map f).map g = c.map fun p => g (f p) := by
  obtain ⟨field, criterion⟩ := c
  cases criterion <;> rfl

namespace Query

mutual
theorem map_map (f : π → π') (g : π' → π'') :
    (q : Query π) → (q.map f).map g = q.map fun p => g (f p)
  | ⟨clauses, ors, _, _, _, _, _, _⟩ => by
    simp only [map, mapOrs_map f g ors, List.map_map]
    congr 1
    exact List.map_congr_left fun c _ => Clause.map_map f g c
theorem mapOrs_map (f : π → π') (g : π' → π'') :
    (ors : List (Query π)) → mapOrs g (mapOrs f ors) = mapOrs (fun p => g (f p)) ors
  | [] => rfl
  | q :: rest => by simp only [mapOrs, map_map f g q, mapOrs_map f g rest]
end

mutual
theorem branches_map (f : π → π') :
    (q : Query π) → (q.map f).branches = q.branches.map (Query.map f)
  | ⟨_, ors, _, _, _, _, _, _⟩ => by simp only [map, branches, List.map_cons, branchesOf_map f ors]
theorem branchesOf_map (f : π → π') :
    (ors : List (Query π)) → branchesOf (mapOrs f ors) = (branchesOf ors).map (Query.map f)
  | [] => rfl
  | q :: rest => by
    simp only [mapOrs, branchesOf, List.map_append, branches_map f q, branchesOf_map f rest]
end

variable (f : π → π') (q : Query π)

theorem clauses_map : (q.map f).clauses = q.clauses.map (Clause.map f) := by
  cases q
  rfl

theorem criteriaFor_map (field : String) :
    (q.map f).criteriaFor field = (q.criteriaFor field).map (Criterion.map f) := by
  rw [criteriaFor, clauses_map, List.filter_map, List.map_map, criteriaFor, List.map_map]
  rfl

theorem onlyField?_map : (q.map f).onlyField? = q.onlyField? := by
  rw [onlyField?, clauses_map, onlyField?]
  cases q.clauses with
  | nil => rfl
  | cons c rest => simp only [List.map_cons, List.all_map]; rfl

theorem indexName_map : (q.map f).indexName = q.indexName := by
  cases q
  rfl

theorem validate_map : (q.map f).validate = q.validate := by
  cases q
  rfl

theorem sortFields_map : (q.map f).sortFields = q.sortFields := by
  cases q
  rfl

theorem reversed_map : (q.map f).reversed = q.reversed := by
  cases q
  rfl

theorem unpaged_map : (q.map f).unpaged = q.unpaged.map f := by
  cases q
  rfl

end Query

theorem Criterion.literal?_map (f : π → π') (c : Criterion π) : (c.map f).literal? = c.literal? := by
  cases c <;> rfl

theorem Plan.make_map (f : π → π') (codec : Codec) (schema : Schema) (q : Query π) :
    make codec schema (q.map f) = make codec schema q := by
  have hfor : indexFor schema (q.map f) = indexFor schema q := by
    rw [indexFor, q.indexName_map f, q.onlyField?_map f]
    rfl
  have hlookup (spec : IndexSpec) : lookupValues? spec (q.map f) = lookupValues? spec q := by
    obtain ⟨clauses, ors, _, _, _, _, _, _⟩ := q
    unfold lookupValues?
    rw [Query.criteriaFor_map]
    cases ors with
    | cons q rest => rfl
    | nil =>
      rcases Query.criteriaFor _ spec.field with _ | ⟨_ | _, _ | _⟩ <;> rfl
  simp only [make, hfor, hlookup, q.criteriaFor_map f, List.isEmpty_map]

def Plan.index? : Plan → Option IndexSpec
  | .lookup spec _ | .indexScan spec _ => some spec
  | .recordScan => none

theorem Plan.mem_indexes {codec : Codec} {schema : Schema} {q : Query π} {plan : Plan}
    (h : make codec schema q = .ok plan) {spec : IndexSpec} (hspec : plan.index? = some spec) :
    spec ∈ schema.indexes := by
  have hfor : indexFor schema q = .ok (some spec) := by
    unfold make at h
    cases hfor : indexFor schema q with
    | error e => simp [hfor, bind, Except.bind] at h
    | ok found =>
      simp only [hfor, bind, Except.bind] at h
      split at h
      · cases h
        cases hspec
      · split at h <;>
          · cases h
            cases hspec
            rfl
  unfold indexFor at hfor
  split at hfor
  · split at hfor
    · rename_i hfind
      cases hfor
      exact List.mem_of_find?_eq_some hfind
    · cases hfor
  · split at hfor
    · have hfound := Except.ok.inj hfor
      split at hfound
      · cases hfound
      · exact List.mem_of_find?_eq_some hfound
    · cases hfor

theorem Evaluation.indexFilter_map (f g : π → Test) (schema : Schema) (q : Query π) (field : String) :
    indexFilter schema (q.map f) field = indexFilter schema (q.map g) field := by
  funext value
  have hliterals (f : π → Test) : ((q.map f).criteriaFor field).filterMap Criterion.literal? =
      (q.criteriaFor field).filterMap Criterion.literal? := by
    have hliteral : Criterion.literal? ∘ Criterion.map f = Criterion.literal? :=
      funext fun c : Criterion π => c.literal?_map f
    rw [q.criteriaFor_map, List.filterMap_map, hliteral]
  rw [indexFilter, indexFilter, hliterals, hliterals]

theorem Clause.steady_map {f : π → Test} (hf : ∀ p value doc, DocStore.Steady (f p value doc))
    (clauses : List (Clause π)) : ∀ c ∈ clauses.map (Clause.map f), c.Steady := by
  intro c hc test htest
  obtain ⟨⟨field, criterion⟩, -, rfl⟩ := List.mem_map.mp hc
  cases criterion with
  | condition condition => cases htest
  | predicate p =>
    cases htest
    exact hf p

theorem Query.steady_clauses_map {f : π → Test} (hf : ∀ p value doc, DocStore.Steady (f p value doc))
    (q : Query π) : ∀ c ∈ (q.map f).clauses, c.Steady := by
  rw [clauses_map]
  exact Clause.steady_map hf q.clauses

theorem Query.steady_map {f : π → Test} (hf : ∀ p value doc, DocStore.Steady (f p value doc))
    (q : Query π) : (q.map f).Steady := by
  intro b hb
  rw [branches_map] at hb
  obtain ⟨b, -, rfl⟩ := List.mem_map.mp hb
  exact steady_clauses_map hf b

-- ---------------------------------------------------------------------------
-- Views that have the same of a type
-- ---------------------------------------------------------------------------

/-- The other scene shows the same of a type, maybe in pages of another size. -/
structure Scene.Shows (scene scene' : Scene) (schema : Schema) : Prop where
  codec : scene'.codec = scene.codec
  data : Data.SameFor schema scene.view scene'.view

theorem Scene.shows_refl (scene : Scene) (schema : Schema) : scene.Shows scene schema :=
  ⟨rfl, fun _ => rfl, fun _ _ _ => rfl⟩

def Scene.sized (scene : Scene) (batchSize : Nat) : Scene := { scene with batchSize }

theorem Scene.shows_sized (scene : Scene) (schema : Schema) (n m : Nat) :
    (scene.sized n).Shows (scene.sized m) schema := ⟨rfl, fun _ => rfl, fun _ _ _ => rfl⟩

structure Source.SameIn (source : Source) (schema : Schema) (view view' : Data) : Prop where
  typeName : source.typeName = schema.typeName
  pairs : view'.rest source.start none = view.rest source.start none

namespace Data.SameFor

variable {schema : Schema} {view view' : Data} (h : SameFor schema view view')
include h

theorem records : (Source.records schema.typeName).SameIn schema view view' := by
  refine ⟨rfl, rest_none_congr ?_⟩
  rintro _ ⟨pk, rfl⟩
  exact h.record pk

theorem entries {spec : IndexSpec} (hspec : spec ∈ schema.indexes) :
    (Source.index schema.typeName spec.name).SameIn schema view view' := by
  refine ⟨rfl, rest_none_congr ?_⟩
  rintro _ ⟨value, rfl⟩
  exact h.entry spec hspec value

theorem yields {ε : Type} {c : Cursor ε} {codec : Codec} {left : List Candidate} {stop : Option ε}
    (hsource : c.source.SameIn schema view view') (hleft : c.Yields codec view .start left stop) :
    c.Yields codec view' .start left stop := by
  refine hleft.congr (fun key => ?_) hsource.pairs
  rw [Cursor.recordKey, hsource.typeName]
  exact h.record key

end Data.SameFor

theorem Reading.bind_congr {ε : Type} {view view' : Data} {r : Reading ε α} {k : α → Reading ε σ}
    (hr : r view' = r view) (hk : ∀ a, k a view' = k a view) : (r >>= k) view' = (r >>= k) view := by
  have hrun (view : Data) : (r >>= k) view = r view >>= fun a => k a view := rfl
  rw [hrun, hrun, hr, funext hk]

namespace Index

variable {codec : Codec} {schema : Schema} {spec : IndexSpec} {view view' : Data}

theorem readEntry_congr {entry : Bytes} (h : view'.get? entry = view.get? entry) :
    readEntry schema spec entry view' = readEntry schema spec entry view := by
  refine Reading.bind_congr (funext fun reads => by simp only [Reading.get, h]) fun stored => ?_
  cases stored with
  | none => rfl
  | some bytes =>
    dsimp only
    cases KeyList.decode? bytes <;> rfl

theorem collect_congr (hspec : spec ∈ schema.indexes) (h : Data.SameFor schema view view')
    (values : List Value) : collect codec schema spec values view' =
      collect codec schema spec values view := by
  induction values with
  | nil => rfl
  | cons value rest ih =>
    have hrest (entry : Bytes) (hentry : view'.get? entry = view.get? entry) :
        (do
          let keys ← readEntry schema spec entry
          let more ← collect codec schema spec rest
          pure (keys ++ more) : Reading EngineError (List Bytes)) view' =
        (do
          let keys ← readEntry schema spec entry
          let more ← collect codec schema spec rest
          pure (keys ++ more) : Reading EngineError (List Bytes)) view :=
      Reading.bind_congr (readEntry_congr hentry) fun _ => Reading.bind_congr ih fun _ => rfl
    unfold collect
    cases hkey : codec.encodeKey value with
    | error e =>
      have hentry : entryKey codec schema spec value = .error (.codec e) := by
        simp only [entryKey, hkey]
        rfl
      rw [hentry]
      rfl
    | ok key =>
      have hentry : entryKey codec schema spec value = .ok (entryAt schema spec key) := by
        simp only [entryKey, hkey]
        rfl
      rw [hentry]
      exact hrest _ (h.entry spec hspec key)

theorem lookup_congr (hspec : spec ∈ schema.indexes) (h : Data.SameFor schema view view')
    (values : List Value) : lookup codec schema spec values view' =
      lookup codec schema spec values view :=
  Reading.bind_congr (collect_congr hspec h _) fun _ => rfl

end Index

-- ---------------------------------------------------------------------------
-- Searches with other tests, views and pages
-- ---------------------------------------------------------------------------

/-- Predicates become steady tests in both ways, and the second ones answer as the first ones do. -/
structure Interchangeable (exact : Bool) (f g : π → Test) : Prop where
  left : ∀ p value doc, Steady (f p value doc)
  right : ∀ p value doc, Steady (g p value doc)
  same : ∀ p value doc, Exec.Echo exact (f p value doc) (g p value doc)

namespace Search

variable {scene scene' : Scene} {schema : Schema} {sink : Sink σ} {limit : Option Nat}
  {f g : π → Test} {exact : Bool}

/-- Every entry that a scan goes through can be read, and every record that it lists. -/
def Scannable (scene : Scene) (source : Source) (filter : Option (Value → Except Failure Bool)) : Prop :=
  let cursor : Cursor Failure := ⟨source, scene.batchSize, filter, .ofEngine⟩
  ∃ found, (cursor.candidates scene.codec scene.view (scene.view.rest source.start none)).1 = .ok found

instance (scene : Scene) (source : Source) (filter : Option (Value → Except Failure Bool)) :
    Decidable (Scannable scene source filter) :=
  let cursor : Cursor Failure := ⟨source, scene.batchSize, filter, .ofEngine⟩
  match h : (cursor.candidates scene.codec scene.view (scene.view.rest source.start none)).1 with
  | .ok found => isTrue ⟨found, h⟩
  | .error _ => isFalse fun ⟨_, hok⟩ => nomatch h.symm.trans hok

/-- Pages of `m` pairs get as far as pages of `n` pairs, or this does not count. -/
def Pace (exact : Bool) (limit : Option Nat) (n m : Nat) : Prop :=
  n = m ∨ exact = false ∧ (m = 1 ∨ limit = none)

end Search

/-- A query that goes through all its candidates, since it has no limit or sorts first. -/
def Query.Exhaustive (q : Query π) : Prop := q.limit = none ∨ q.sortFields ≠ []

def Query.Pace (exact : Bool) (q : Query π) (n m : Nat) : Prop :=
  n = m ∨ exact = false ∧ (m = 1 ∨ q.Exhaustive)

namespace Search

variable {scene scene' : Scene} {schema : Schema} {sink : Sink σ} {limit : Option Nat}
  {f g : π → Test} {exact : Bool}

theorem resolveField_shows (hshows : scene.Shows scene' schema) (row : Row) (field : String) :
    Evaluation.resolveField scene' schema row field = Evaluation.resolveField scene schema row field := by
  rw [Evaluation.resolveField, hshows.codec, Evaluation.resolveField]

section Exchange

variable (h : Interchangeable exact f g) (hshows : scene.Shows scene' schema)
include h hshows

theorem criterionHolds_echo (row : Row) (field : String) (value : Value) (c : Criterion π) :
    (Evaluation.criterionHolds scene schema row field value (c.map f)).Echo exact
      (Evaluation.criterionHolds scene' schema row field value (c.map g)) := by
  cases c with
  | condition condition =>
    have hresolve : Evaluation.resolve scene' schema row = Evaluation.resolve scene schema row := by
      funext x
      cases x with
      | value v => rfl
      | field name => rw [Evaluation.resolve, resolveField_shows hshows, Evaluation.resolve]
    intro _ _
    simp only [Criterion.map, Evaluation.criterionHolds, hresolve]
  | predicate p => exact h.same p value row.doc

theorem clausesHold_echo (row : Row) (clauses : List (Clause π)) :
    (Evaluation.clausesHold scene schema row (clauses.map (Clause.map f))).Echo exact
      (Evaluation.clausesHold scene' schema row (clauses.map (Clause.map g))) := by
  induction clauses with
  | nil => exact fun _ _ => rfl
  | cons c rest ih =>
    let next (scene : Scene) (f : π → Test) (holds : Bool) : Exec Bool :=
      if holds then Evaluation.clausesHold scene schema row (rest.map (Clause.map f)) else pure false
    have hnext (holds : Bool) : (next scene f holds).Echo exact (next scene' g holds) := by
      cases holds with
      | false => exact fun _ _ => rfl
      | true => exact ih
    have hsteady (holds : Bool) : Steady (next scene f holds) := by
      cases holds with
      | false => exact .pure _
      | true => exact clausesHold_steady (Clause.steady_map h.left rest) row
    have htest (value : Value) : Steady
        (Evaluation.criterionHolds scene schema row c.field value (c.criterion.map f)) := by
      cases c.criterion with
      | condition condition => exact .ofExcept _
      | predicate p => exact h.left p value row.doc
    refine Exec.Echo.bind (fun _ _ => ?_) (fun value => ?_) (fun value => ?_)
    · exact (resolveField_shows hshows row c.field).symm
    · exact Exec.Echo.bind (criterionHolds_echo h hshows row c.field value c.criterion) hnext hsteady
    · exact .bind (htest value) hsteady

theorem consider_echo (b : Query π) (c : Candidate) :
    (consider scene schema sink (b.map f) c).Echo exact
      (consider scene' schema sink (b.map g) c) := by
  refine .after _ fun _ s _ _ => ?_
  rw [hshows.codec]
  split
  · exact .refl _
  refine .after _ fun _ doc _ _ => .bind (.ofExec ?_) (fun holds => .refl _) fun holds => ?_
  · rw [b.clauses_map, b.clauses_map]
    exact clausesHold_echo h hshows _ b.clauses
  · cases holds with
    | false => exact .pure _
    | true => exact accept_steady _

theorem considerAll_echo (b : Query π) (stop : Option Failure) (left : List Candidate) :
    (considerAll scene schema sink limit (b.map f) (halt stop) left).Echo exact
      (considerAll scene' schema sink limit (b.map g) (halt stop) left) := by
  induction left with
  | nil =>
    rw [considerAll, considerAll]
    exact .guarded (.refl (halt stop)) limit
  | cons c rest ih =>
    rw [considerAll, considerAll]
    refine .guarded ((consider_echo h hshows b c).bind (fun _ => ih) fun _ => ?_) limit
    exact considerAll_steady (b.steady_clauses_map h.left) (halt_steady stop) rest

theorem considerEach_echo (b : Query π) (spec : IndexSpec) (found : List (Bytes × Option Bytes)) :
    (considerEach scene schema sink limit (b.map f) spec found).Echo exact
      (considerEach scene' schema sink limit (b.map g) spec found) := by
  rw [considerEach_considers, considerEach_considers]
  exact considerAll_echo h hshows b _ _

omit hshows in
theorem scan_echo_of_yields {b : Query π} {source : Source}
    {filter : Option (Value → Except Failure Bool)} {left left' : List Candidate}
    {stop stop' : Option Failure}
    (hleft : Cursor.Yields scene.codec scene.view ⟨source, scene.batchSize, filter, .ofEngine⟩ .start
      left stop)
    (hleft' : Cursor.Yields scene'.codec scene'.view ⟨source, scene'.batchSize, filter, .ofEngine⟩ .start
      left' stop')
    (hecho : (considerAll scene schema sink limit (b.map f) (halt stop) left).Echo exact
      (considerAll scene' schema sink limit (b.map g) (halt stop') left')) :
    (scan scene schema sink limit (b.map f) source filter).Echo exact
      (scan scene' schema sink limit (b.map g) source filter) := by
  have hscan : (scan scene schema sink limit (b.map f) source filter).Echo true
      (considerAll scene schema sink limit (b.map f) (halt stop) left) :=
    scan_considers (b.steady_clauses_map h.left) hleft
  have hscan' : (scan scene' schema sink limit (b.map g) source filter).Echo true
      (considerAll scene' schema sink limit (b.map g) (halt stop') left') :=
    scan_considers (b.steady_clauses_map h.right) hleft'
  exact (hscan.of_exact.trans hecho).trans hscan'.symm.of_exact

theorem scan_echo (b : Query π) {source : Source} (filter : Option (Value → Except Failure Bool))
    (hsource : source.SameIn schema scene.view scene'.view)
    (hpace : Pace exact limit scene.batchSize scene'.batchSize ∨ Scannable scene source filter) :
    (scan scene schema sink limit (b.map f) source filter).Echo exact
      (scan scene' schema sink limit (b.map g) source filter) := by
  let cursor : Cursor Failure := ⟨source, scene.batchSize, filter, .ofEngine⟩
  let cursor' : Cursor Failure := cursor.sized scene'.batchSize
  obtain ⟨left, stop, hleft⟩ : ∃ left stop, cursor.Yields scene.codec scene.view .start left stop :=
    Cursor.exists_yields _
  have hecho {left' : List Candidate} {stop' : Option Failure}
      (hleft' : cursor'.Yields scene.codec scene.view .start left' stop')
      (hecho : (considerAll scene schema sink limit (b.map f) (halt stop) left).Echo exact
        (considerAll scene' schema sink limit (b.map g) (halt stop') left')) :
      (scan scene schema sink limit (b.map f) source filter).Echo exact
        (scan scene' schema sink limit (b.map g) source filter) :=
    scan_echo_of_yields h hleft (hshows.codec ▸ hshows.data.yields hsource hleft') hecho
  obtain ⟨left', stop', hleft'⟩ : ∃ left stop, cursor'.Yields scene.codec scene.view .start left stop :=
    Cursor.exists_yields _
  obtain ⟨hend, hsame⟩ := Cursor.Yields.end_iff (n := scene.batchSize) hleft hleft'
  cases stop with
  | none =>
    cases hend.mp rfl
    cases hsame rfl
    exact hecho hleft' (considerAll_echo h hshows b none left)
  | some e =>
    -- A page fails. Either this goes for both sizes, or the first search does not get to it.
    rcases hpace with (heq | ⟨rfl, hone | hlimit⟩) | ⟨found, hfound⟩
    · have hcursor : cursor' = cursor := by simp only [cursor', Cursor.sized, ← heq, cursor]
      exact hecho (hcursor ▸ hleft) (considerAll_echo h hshows b (some e) left)
    · have hcursor : cursor' = cursor.sized 1 := by simp only [cursor', hone]
      obtain ⟨more, rfl⟩ := Cursor.Yields.single (n := scene.batchSize) hleft (hcursor ▸ hleft')
      refine hecho hleft' ((considerAll_echo h hshows b (some e) left).trans ?_)
      exact considerAll_extend left more
    · subst hlimit
      exact hecho hleft' fun s hcounts => (considerAll_unlimited left s hcounts).elim
    · cases (hleft.complete hfound).1

end Exchange

def Resolved (scene : Scene) (schema : Schema) (q : Query Test) : Prop :=
  ∀ spec filtered, Plan.make scene.codec schema q = .ok (.indexScan spec filtered) →
    Scannable scene (.index schema.typeName spec.name)
      (if filtered then some (Evaluation.indexFilter schema q spec.field) else none)

theorem recordScan_scannable (scene : Scene) (typeName : String) :
    Scannable scene (.records typeName) none := ⟨_, rfl⟩

section Passes

variable (h : Interchangeable exact f g) (hshows : scene.Shows scene' schema)
include h hshows

theorem pass_echo {b : Query π}
    (hpace : Pace exact limit scene.batchSize scene'.batchSize ∨ Resolved scene schema (b.map f)) :
    (pass scene schema sink limit (b.map f)).Echo exact
      (pass scene' schema sink limit (b.map g)) := by
  have hplan : Plan.make scene'.codec schema (b.map g) =
      Plan.make scene.codec schema (b.map f) := by
    rw [Plan.make_map g, Plan.make_map f, hshows.codec]
  unfold pass
  rw [hplan]
  refine .after _ fun _ plan _ hmake => .after _ fun _ _ _ _ => ?_
  have hmade : Plan.make scene.codec schema (b.map f) = .ok plan := (Prod.mk.inj hmake).1
  cases plan with
  | lookup spec values =>
    have hspec : spec ∈ schema.indexes := Plan.mem_indexes hmade rfl
    have hkeys : Exec.ofReading scene'.view (Index.lookup scene'.codec schema spec values) =
        Exec.ofReading scene.view (Index.lookup scene.codec schema spec values) := by
      unfold Exec.ofReading
      rw [hshows.codec, Index.lookup_congr hspec hshows.data]
    have hfound (keys : List Bytes) : Exec.ofReading scene'.view (Reading.multiGet
          (keys.map fun key => Key.encode (.record schema.typeName key))) =
        Exec.ofReading scene.view (Reading.multiGet
          (keys.map fun key => Key.encode (.record schema.typeName key))) := by
      have hget : ∀ key, scene'.view.get? (Key.encode (.record schema.typeName key)) =
          scene.view.get? (Key.encode (.record schema.typeName key)) := hshows.data.record
      unfold Exec.ofReading Reading.multiGet
      simp only [List.map_map, Function.comp_def, hget]
    dsimp only
    rw [hkeys]
    refine .after _ fun _ keys _ _ => ?_
    rw [hfound]
    exact .after _ fun _ found _ _ => considerEach_echo h hshows b spec _
  | indexScan spec filtered =>
    have hspec : spec ∈ schema.indexes := Plan.mem_indexes hmade rfl
    dsimp only
    rw [← Evaluation.indexFilter_map f g schema b spec.field]
    exact scan_echo h hshows b _ (hshows.data.entries hspec)
      (hpace.imp_right fun hresolved => hresolved spec filtered hmade)
  | recordScan =>
    exact scan_echo h hshows b _ hshows.data.records
      (.inr (recordScan_scannable scene schema.typeName))

theorem passEach_echo {branches : List (Query π)}
    (hpace : Pace exact limit scene.batchSize scene'.batchSize ∨
      ∀ b ∈ branches, Resolved scene schema (b.map f)) :
    (passEach scene schema sink limit (branches.map (Query.map f))).Echo exact
      (passEach scene' schema sink limit (branches.map (Query.map g))) := by
  induction branches with
  | nil => exact .refl (pure ())
  | cons b rest ih =>
    rw [List.map_cons, List.map_cons, passEach, passEach]
    have hfirst : (pass scene schema sink limit (b.map f)).Echo exact
        (pass scene' schema sink limit (b.map g)) :=
      pass_echo h hshows (hpace.imp_right fun h => h b List.mem_cons_self)
    have hrest := ih (hpace.imp_right fun h b hb => h b (List.mem_cons_of_mem _ hb))
    refine .guarded (hfirst.bind (fun _ => hrest) fun _ => passEach_steady fun b' hb' => ?_) limit
    obtain ⟨b', -, rfl⟩ := List.mem_map.mp hb'
    exact b'.steady_clauses_map h.left

theorem passAll_echo {branches : List (Query π)}
    (hpace : Pace exact limit scene.batchSize scene'.batchSize ∨
      ∀ b ∈ branches, Resolved scene schema (b.map f)) :
    (passAll scene schema sink limit (branches.map (Query.map f))).Echo exact
      (passAll scene' schema sink limit (branches.map (Query.map g))) := by
  cases branches with
  | nil => exact .refl (pure ())
  | cons b rest =>
    rw [List.map_cons, List.map_cons, passAll, passAll]
    have hfirst : (pass scene schema sink limit (b.map f)).Echo exact
        (pass scene' schema sink limit (b.map g)) :=
      pass_echo h hshows (hpace.imp_right fun h => h b List.mem_cons_self)
    have hrest : (passEach scene schema sink limit (rest.map (Query.map f))).Echo exact
        (passEach scene' schema sink limit (rest.map (Query.map g))) :=
      passEach_echo h hshows (hpace.imp_right fun h b hb => h b (List.mem_cons_of_mem _ hb))
    refine hfirst.bind (fun _ => hrest) fun _ => passEach_steady fun b' hb' => ?_
    obtain ⟨b', -, rfl⟩ := List.mem_map.mp hb'
    exact b'.steady_clauses_map h.left

end Passes

theorem resolved_unpaged {q : Query π} (h : ∀ b ∈ q.branches, Resolved scene schema (b.map f)) :
    ∀ b ∈ q.unpaged.branches, Resolved scene schema (b.map f) := by
  obtain ⟨clauses, ors, indexName, sortFields, reversed, skip, limit, error⟩ := q
  intro b hb
  rcases List.mem_cons.mp hb with rfl | hb
  · exact h ⟨clauses, ors, indexName, sortFields, reversed, skip, limit, error⟩ List.mem_cons_self
  · exact h b (List.mem_cons_of_mem _ hb)

section Queries

variable (h : Interchangeable exact f g) (hshows : scene.Shows scene' schema) {q : Query π}
include h hshows

theorem sweep_echo
    (hpace : Pace exact q.limit scene.batchSize scene'.batchSize ∨
      ∀ b ∈ q.branches, Resolved scene schema (b.map f))
    (acc : σ) (trail : Trail) (hcounts : Counts exact (sweep scene schema sink (q.map f) acc trail).1) :
    let swept := sweep scene schema sink (q.map f) acc trail
    let swept' := sweep scene' schema sink (q.map g) acc trail
    swept.1 = swept'.1 ∧ swept.2.1 = swept'.2.1 := by
  have hskip (f : π → Test) : (q.map f).skipCount = q.skipCount := by cases q; rfl
  have hlimit (f : π → Test) : (q.map f).limit = q.limit := by cases q; rfl
  have hpasses : (passAll scene schema sink q.limit (q.branches.map (Query.map f))).Echo exact
      (passAll scene' schema sink q.limit (q.branches.map (Query.map g))) :=
    passAll_echo h hshows hpace
  simp only [sweep, Query.branches_map, hskip, hlimit] at hcounts ⊢
  obtain ⟨hanswer, hlast⟩ := hpasses ⟨trail, [], q.skipCount, 0, acc⟩ hcounts
  exact ⟨hanswer, hlast.acc⟩

theorem sweepRows_echo
    (hpace : Pace exact q.limit scene.batchSize scene'.batchSize ∨
      ∀ b ∈ q.branches, Resolved scene schema (b.map f)) :
    (sweepRows scene schema (q.map f)).Echo exact (sweepRows scene' schema (q.map g)) := by
  intro trail hcounts
  have hswept : Counts exact (sweep scene schema collector (q.map f) [] trail).1 := hcounts.of_map
  obtain ⟨hanswer, hacc⟩ := sweep_echo h hshows hpace [] trail hswept
  simp only [sweepRows, hanswer, hacc]

theorem sortedRows_echo
    (hpace : Pace exact none scene.batchSize scene'.batchSize ∨
      ∀ b ∈ q.branches, Resolved scene schema (b.map f)) :
    (sortedRows scene schema (q.map f)).Echo exact (sortedRows scene' schema (q.map g)) := by
  simp only [sortedRows, Query.unpaged_map, Query.sortFields_map, Query.reversed_map]
  refine Exec.Echo.bind (sweepRows_echo h hshows ?_) (fun _ _ _ => rfl)
    fun _ => .bind (.ofExcept _) fun _ => .pure _
  exact hpace.imp id resolved_unpaged

theorem walk_echo
    (hpace : q.Pace exact scene.batchSize scene'.batchSize ∨
      ∀ b ∈ q.branches, Resolved scene schema (b.map f))
    (acc : σ) (trail : Trail) (hcounts : Counts exact (walk scene schema sink (q.map f) acc trail).1) :
    let walked := walk scene schema sink (q.map f) acc trail
    let walked' := walk scene' schema sink (q.map g) acc trail
    walked.1 = walked'.1 ∧ walked.2.1 = walked'.2.1 := by
  cases hvalid : q.validate with
  | error e =>
    have hinvalid (f : π → Test) : (q.map f).validate = .error e := (q.validate_map f).trans hvalid
    simp only [walk_invalid (hinvalid f), walk_invalid (hinvalid g), and_self]
  | ok _ =>
    have hvalid (f : π → Test) : (q.map f).validate = .ok () := (q.validate_map f).trans hvalid
    cases hsort : q.sortFields.isEmpty with
    | true =>
      have hempty (f : π → Test) : (q.map f).sortFields.isEmpty = true := by
        rw [q.sortFields_map, hsort]
      simp only [walk_unsorted (hvalid f) (hempty f), walk_unsorted (hvalid g) (hempty g)] at hcounts ⊢
      refine sweep_echo h hshows (hpace.imp_left fun hpace => ?_) acc trail hcounts
      refine hpace.imp_right (And.imp_right (Or.imp_right fun hall => hall.resolve_right ?_))
      exact not_not_intro (List.isEmpty_iff.mp hsort)
    | false =>
      have hfull (f : π → Test) : (q.map f).sortFields.isEmpty = false := by
        rw [q.sortFields_map, hsort]
      have hslice (rows : List Row) : slice (q.map f) rows = slice (q.map g) rows := by
        cases q
        rfl
      have hsorted : (sortedRows scene schema (q.map f)).Echo exact
          (sortedRows scene' schema (q.map g)) :=
        sortedRows_echo h hshows
          (hpace.imp_left (Or.imp_right (And.imp_right (Or.imp_right fun _ => rfl))))
      simp only [walk_sorted (hvalid f) (hfull f), walk_sorted (hvalid g) (hfull g)] at hcounts ⊢
      have hrows : Counts exact (sortedRows scene schema (q.map f) trail).1 := by
        refine hcounts.imp_right fun ⟨_, hok⟩ => ?_
        cases hrows : (sortedRows scene schema (q.map f) trail).1 with
        | error e =>
          rw [hrows] at hok
          cases hok
        | ok rows => exact ⟨rows, rfl⟩
      rw [← hsorted trail hrows]
      cases (sortedRows scene schema (q.map f) trail).1 with
      | error e => exact ⟨rfl, rfl⟩
      | ok rows => simp only [feedSorted, hslice, and_self]

section Rows

variable (hpace : q.Pace exact scene.batchSize scene'.batchSize ∨
  ∀ b ∈ q.branches, Resolved scene schema (b.map f))
include hpace

theorem findRows_echo :
    (findRows scene schema (q.map f)).Echo exact (findRows scene' schema (q.map g)) := by
  intro trail hcounts
  have hwalked : Counts exact (walk scene schema collector (q.map f) [] trail).1 := hcounts.of_map
  obtain ⟨hanswer, hacc⟩ := walk_echo h hshows hpace [] trail hwalked
  simp only [findRows, hanswer, hacc]

theorem count_echo :
    (count scene schema (q.map f)).Echo exact (count scene' schema (q.map g)) := by
  intro trail hcounts
  have hwalked : Counts exact (walk scene schema counter (q.map f) 0 trail).1 := hcounts.of_map
  obtain ⟨hanswer, hacc⟩ := walk_echo h hshows hpace 0 trail hwalked
  simp only [count, hanswer, hacc]

theorem aggregate_echo (fields : List String) :
    (aggregate scene schema (q.map f) fields).Echo exact
      (aggregate scene' schema (q.map g) fields) := by
  intro trail hcounts
  unfold aggregate at hcounts ⊢
  split
  · rfl
  · rename_i hkey
    rw [if_neg hkey] at hcounts
    have hwalked : Counts exact (walk scene schema (grouper schema.typeName fields) (q.map f)
        (Group.initial schema.typeName fields) trail).1 := hcounts.of_map
    obtain ⟨hanswer, hacc⟩ := walk_echo h hshows hpace (Group.initial schema.typeName fields) trail hwalked
    simp only [hanswer, hacc]

end Rows

end Queries

section Entities

variable (h : Interchangeable exact f g) {q : Query π} {entity : Entity}
  (hshows : ∀ schema, entity.validSchema = .ok schema → scene.Shows scene' schema)
  (hpace : q.Pace exact scene.batchSize scene'.batchSize ∨ ∀ schema, entity.validSchema = .ok schema →
    ∀ b ∈ q.branches, Resolved scene schema (b.map f))
include h hshows hpace

theorem findDocuments_echo :
    (findDocuments scene entity (q.map f)).Echo exact
      (findDocuments scene' entity (q.map g)) := by
  refine Exec.Echo.after fun schema hschema => ?_
  refine Exec.Echo.bind ?_ (fun _ _ _ => rfl) fun _ => .ofExcept _
  exact findRows_echo h (hshows schema hschema) (hpace.imp_right fun hresolved => hresolved schema hschema)

theorem aggregateEntity_echo (fields : List String) :
    (aggregateEntity scene entity (q.map f) fields).Echo exact
      (aggregateEntity scene' entity (q.map g) fields) :=
  Exec.Echo.after fun schema hschema => aggregate_echo h (hshows schema hschema)
    (hpace.imp_right fun hresolved => hresolved schema hschema) fields

end Entities

end Search

end DocStore
