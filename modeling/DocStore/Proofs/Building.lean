import DocStore.Database
import DocStore.Proofs.QueryTrees
import DocStore.Proofs.Settling
import DocStore.Proofs.Version

/-!
# Building queries

A query is built by a chain of steps, and each alternative by a chain of its own. A misuse does not
stop the building, so what the finished query reports has to be found in it afterwards. `misuses`
lists all misuses of a chain in the order of the steps, those inside of alternatives included, and
the query keeps exactly the first of them (`Tracks.applyAll`). A query that keeps one is refused by
every operation before anything is read or written (`Records.refuses_of_invalid`).
-/

namespace DocStore

inductive QueryStep (π : Type) where
  | and (field : String) (criterion : Criterion π)
  | or (steps : List (QueryStep π))
  | index (name : String)
  | sortBy (fields : List String)
  | reverse
  | skip (count : Nat)
  | limit (count : Nat)

variable {π : Type}

namespace QueryStep

def isSkip : QueryStep π → Bool
  | .skip _ => true
  | _ => false

def isLimit : QueryStep π → Bool
  | .limit _ => true
  | _ => false

mutual
def apply : QueryStep π → Query π → Query π
  | .and field criterion, q => q.and field criterion
  | .or steps, q => q.or (applyAll steps .all)
  | .index name, q => q.index name
  | .sortBy fields, q => q.sortBy fields
  | .reverse, q => q.reverse
  | .skip count, q => q.skipping count
  | .limit count, q => q.limitTo count
def applyAll : List (QueryStep π) → Query π → Query π
  | [], q => q
  | c :: rest, q => applyAll rest (c.apply q)
end

def sortMisuse (field : String) : List QueryError :=
  if field = keyName then [.sortByKey]
  else if Query.isFieldPath field then [] else [.invalidField field]

mutual
def misuses (before : List (QueryStep π)) : QueryStep π → List QueryError
  | .and field criterion =>
    if field = keyName then if criterion.isPredicate then [.predicateOnKey] else []
    else if Query.isFieldPath field then [] else [.invalidField field]
  | .or steps =>
    (if steps.any fun c => c.isSkip || c.isLimit then [.pagingInOr] else []) ++ misusesFrom [] steps
  | .index name => if '.' ∈ name.toList then [.nestedIndex name] else []
  | .sortBy fields => fields.flatMap sortMisuse
  | .reverse => []
  | .skip _ => if before.any isSkip then [.skipAlreadySet] else []
  | .limit _ => if before.any isLimit then [.limitAlreadySet] else []
def misusesFrom (before : List (QueryStep π)) : List (QueryStep π) → List QueryError
  | [] => []
  | c :: rest => c.misuses before ++ misusesFrom (before ++ [c]) rest
end

end QueryStep

def Query.build (steps : List (QueryStep π)) : Query π := QueryStep.applyAll steps .all

def Query.misuses (steps : List (QueryStep π)) : List QueryError := QueryStep.misusesFrom [] steps

-- ---------------------------------------------------------------------------
-- What one step does
-- ---------------------------------------------------------------------------

namespace Query

def note (q : Query π) (misuse : Option QueryError) : Query π :=
  { q with error := q.error.or misuse }

variable (q : Query π)

theorem note_none : q.note none = q := by
  cases q
  simp [note]

theorem and_eq (field : String) (criterion : Criterion π) (before : List (QueryStep π)) :
    q.and field criterion = { q.note ((QueryStep.and field criterion).misuses before).head? with
      clauses := place ⟨field, criterion⟩ q.clauses } := by
  unfold Query.and QueryStep.misuses
  by_cases hkey : field = keyName
  · cases criterion.isPredicate <;> simp [hkey, fail, note]
  · cases isFieldPath field <;> simp [hkey, fail, note]

theorem or_eq (other : Query π) :
    q.or other = { q.note ((if other.skip.isSome || other.limit.isSome then some .pagingInOr
      else none).or other.error) with ors := q.ors ++ [other] } := by
  unfold Query.or
  cases other.skip.isSome || other.limit.isSome <;> cases other.error <;>
    simp [fail, note]

theorem index_eq (name : String) (before : List (QueryStep π)) :
    q.index name = { q.note ((QueryStep.index name : QueryStep π).misuses before).head? with
      indexName := some name } := by
  unfold Query.index QueryStep.misuses
  by_cases hdot : '.' ∈ name.toList <;> simp [hdot, fail, note]

def addSortField (known : List String) (field : String) : List String :=
  if (QueryStep.sortMisuse field).isEmpty && !known.contains field then known ++ [field] else known

theorem sortField_eq (field : String) :
    q.sortField field = { q.note (QueryStep.sortMisuse field).head? with
      sortFields := addSortField q.sortFields field } := by
  unfold sortField addSortField QueryStep.sortMisuse
  by_cases hkey : field = keyName
  · simp [hkey, fail, note]
  · cases isFieldPath field
    · simp [hkey, fail, note]
    · cases q with
      | mk clauses ors indexName sortFields =>
        by_cases hknown : field ∈ sortFields <;> simp [hkey, hknown, note]

theorem sortBy_eq (fields : List String) (before : List (QueryStep π)) :
    q.sortBy fields = { q.note ((QueryStep.sortBy fields : QueryStep π).misuses before).head? with
      sortFields := fields.foldl addSortField q.sortFields } := by
  unfold sortBy QueryStep.misuses
  induction fields generalizing q with
  | nil => exact (note_none q).symm
  | cons field rest ih =>
    rw [List.foldl_cons, ih, sortField_eq, List.foldl_cons, List.flatMap_cons, List.head?_append]
    simp only [note, Option.or_assoc]

theorem skipping_eq (count : Nat) :
    q.skipping count = { q.note (if q.skip.isSome then some .skipAlreadySet else none) with
      skip := q.skip.or (some count) } := by
  obtain ⟨_, _, _, _, _, _ | _, _, _⟩ := q <;> simp [skipping, fail, note]

theorem limitTo_eq (count : Nat) :
    q.limitTo count = { q.note (if q.limit.isSome then some .limitAlreadySet else none) with
      limit := q.limit.or (some count) } := by
  obtain ⟨_, _, _, _, _, _, _ | _, _⟩ := q <;> simp [limitTo, fail, note]

theorem branchesOf_append (qs rs : List (Query π)) :
    branchesOf (qs ++ rs) = branchesOf qs ++ branchesOf rs := by
  induction qs with
  | nil => rfl
  | cons q rest ih => simp only [List.cons_append, branchesOf, ih, List.append_assoc]

theorem branchesOf_singleton : branchesOf [q] = q :: branchesOf q.ors := by
  rw [branchesOf, branchesOf, List.append_nil, branches_eq]

end Query

-- ---------------------------------------------------------------------------
-- What a chain does
-- ---------------------------------------------------------------------------

namespace QueryStep

theorem misusesFrom_append (before steps more : List (QueryStep π)) :
    misusesFrom before (steps ++ more) =
      misusesFrom before steps ++ misusesFrom (before ++ steps) more := by
  induction steps generalizing before with
  | nil => simp [misusesFrom]
  | cons c rest ih => simp [misusesFrom, ih]

/-- What a query shows of the steps that have built it. -/
structure Tracks (steps : List (QueryStep π)) (q : Query π) : Prop where
  error : q.error = (misusesFrom [] steps).head?
  skip : q.skip.isSome = steps.any isSkip
  limit : q.limit.isSome = steps.any isLimit
  /-- No alternative at any depth skips or limits, unless the query has kept a misuse. -/
  unpaged : q.error = none → ∀ b ∈ Query.branchesOf q.ors, b.skip = none ∧ b.limit = none

variable {before : List (QueryStep π)} {q q' : Query π} {c : QueryStep π}

theorem Tracks.all : Tracks [] (Query.all : Query π) := ⟨rfl, rfl, rfl, nofun⟩

theorem Tracks.step (h : Tracks before q) (herror : q'.error = q.error.or (c.misuses before).head?)
    (hskip : q'.skip.isSome = (q.skip.isSome || c.isSkip))
    (hlimit : q'.limit.isSome = (q.limit.isSome || c.isLimit))
    (hunpaged : q'.error = none → ∀ b ∈ Query.branchesOf q'.ors, b.skip = none ∧ b.limit = none) :
    Tracks (before ++ [c]) q' where
  error := by
    rw [herror, h.error, misusesFrom_append, List.head?_append]
    simp [misusesFrom]
  skip := by simp [hskip, h.skip]
  limit := by simp [hlimit, h.limit]
  unpaged := hunpaged

theorem Tracks.keeps (h : Tracks before q) (hors : q'.ors = q.ors)
    (herror : q'.error = q.error.or (c.misuses before).head?)
    (hskip : q'.skip.isSome = (q.skip.isSome || c.isSkip))
    (hlimit : q'.limit.isSome = (q.limit.isSome || c.isLimit)) : Tracks (before ++ [c]) q' := by
  refine h.step herror hskip hlimit fun hvalid => ?_
  rw [hors]
  exact h.unpaged (Option.or_eq_none_iff.mp (herror.symm.trans hvalid)).1

theorem any_pages (steps : List (QueryStep π)) :
    (steps.any fun c => c.isSkip || c.isLimit) = (steps.any isSkip || steps.any isLimit) := by
  induction steps with
  | nil => rfl
  | cons c rest ih =>
    simp only [List.any_cons, ih]
    cases c.isSkip <;> cases c.isLimit <;> simp

theorem Tracks.or (h : Tracks before q) {steps : List (QueryStep π)} {other : Query π}
    (hother : Tracks steps other) : Tracks (before ++ [.or steps]) (q.or other) := by
  rw [q.or_eq]
  refine h.step ?error (Bool.or_false _).symm (Bool.or_false _).symm ?unpaged
  case error =>
    rw [misuses, any_pages, hother.skip, hother.limit, List.head?_append, ← hother.error]
    split <;> rfl
  case unpaged =>
    intro hvalid b hb
    obtain ⟨hq, hmisuse⟩ := Option.or_eq_none_iff.mp hvalid
    obtain ⟨hpaging, herror⟩ := Option.or_eq_none_iff.mp hmisuse
    rw [Query.branchesOf_append, Query.branchesOf_singleton, List.mem_append, List.mem_cons] at hb
    rcases hb with hb | rfl | hb
    · exact h.unpaged hq b hb
    · simpa using hpaging
    · exact hother.unpaged herror b hb

mutual
theorem Tracks.apply (c : QueryStep π) {before : List (QueryStep π)} {q : Query π}
    (h : Tracks before q) : Tracks (before ++ [c]) (c.apply q) := by
  cases c with
  | and field criterion =>
    rw [QueryStep.apply, q.and_eq field criterion before]
    exact h.keeps rfl rfl (Bool.or_false _).symm (Bool.or_false _).symm
  | or steps => exact h.or (Tracks.all.applyAll steps)
  | index name =>
    rw [QueryStep.apply, q.index_eq name before]
    exact h.keeps rfl rfl (Bool.or_false _).symm (Bool.or_false _).symm
  | sortBy fields =>
    rw [QueryStep.apply, q.sortBy_eq fields before]
    exact h.keeps rfl rfl (Bool.or_false _).symm (Bool.or_false _).symm
  | reverse => exact h.keeps rfl Option.or_none.symm (Bool.or_false _).symm (Bool.or_false _).symm
  | skip count =>
    rw [QueryStep.apply, q.skipping_eq count]
    refine h.keeps rfl ?_ (by simp [isSkip]) (Bool.or_false _).symm
    rw [misuses, ← h.skip]
    split <;> rfl
  | limit count =>
    rw [QueryStep.apply, q.limitTo_eq count]
    refine h.keeps rfl ?_ (Bool.or_false _).symm (by simp [isLimit])
    rw [misuses, ← h.limit]
    split <;> rfl
theorem Tracks.applyAll (steps : List (QueryStep π)) {before : List (QueryStep π)} {q : Query π}
    (h : Tracks before q) : Tracks (before ++ steps) (QueryStep.applyAll steps q) := by
  cases steps with
  | nil => rwa [List.append_nil]
  | cons c rest =>
    have hrest := Tracks.applyAll rest (Tracks.apply c h)
    rwa [List.append_assoc] at hrest
end

end QueryStep

theorem Query.tracks_build (steps : List (QueryStep π)) : QueryStep.Tracks steps (build steps) :=
  QueryStep.Tracks.all.applyAll steps

theorem Query.validate_build (steps : List (QueryStep π)) :
    (build steps).validate =
      match (misuses steps).head? with
      | some e => .error (.invalidQuery e)
      | none => .ok () := by
  unfold validate
  rw [(tracks_build steps).error]
  rfl

-- ---------------------------------------------------------------------------
-- Refusing
-- ---------------------------------------------------------------------------

/-- The work comes to this result and leaves the session as it is: no key has been read or written
in it, and nothing has been reported. -/
def Work.Idle {α : Type} (work : Work Failure α) (result : Except Failure α) : Prop :=
  ∀ session, work session = (result, session)

def Database.Idle {α : Type} (operation : Operation α) (result : Except Failure α) : Prop :=
  ∀ journal, ∃ store : Store, store.current = journal.db.store.current ∧
    operation journal = (result, ⟨{ journal.db with store }, journal.events⟩)

namespace Records

/-- All operations on the query fail in this way before they touch anything. -/
structure Refuses (settings : Settings) (entity : Entity) (q : Query Predicate) (e : Failure) :
    Prop where
  find : (find settings entity q).Idle (.error e)
  findOne : (findOne settings entity q).Idle (.error e)
  count : (count settings entity q).Idle (.error e)
  forEach : ∀ {σ : Type} (f : Document → ExceptT Failure (StateM σ) Unit) (acc : σ),
    (forEach settings entity q f acc).Idle (.ok (.error e, acc))
  matchesQuery : ∀ doc, (matchesQuery settings entity q doc).Idle (.error e)
  updateMatching : ∀ f, (updateMatching settings entity q f).Idle (.error e)
  deleteMatching : (deleteMatching settings entity q).Idle (.error e)

variable {settings : Settings} {entity : Entity} {schema : Schema} {q : Query Predicate}
  {e : Failure}

theorem validate_ready (scene : Scene) (q : Query Predicate) :
    (q.ready scene).validate = q.validate := by
  rw [Query.ready_eq_map, Query.validate_map]

theorem findRows_invalid (h : q.validate = .error e) :
    (findRows settings schema q).Idle (.error e) := by
  intro session
  have hready := (validate_ready (scene settings session) q).trans h
  simp only [findRows, searching_run, Search.findRows, Search.walk_invalid hready, trail]
  rfl

theorem refuses_of_invalid (hschema : entity.validSchema = .ok schema)
    (h : q.validate = .error e) : Refuses settings entity q e := by
  have hfirst : q.firstOnly.validate = .error e := h
  have hrows : (findRows settings schema q).Idle (.error e) := findRows_invalid h
  constructor
  case find =>
    intro session
    simp only [Records.find, Records.schema, run_bind, Work.ofExcept, hschema, hrows session]
  case findOne =>
    intro session
    simp only [Records.findOne, Records.schema, run_bind, Work.ofExcept, hschema,
      findRows_invalid hfirst session]
  case count =>
    intro session
    have hready := (validate_ready (scene settings session) q).trans h
    simp only [Records.count, Records.schema, run_bind, Work.ofExcept, hschema, searching_run,
      Search.count, Search.walk_invalid hready, trail]
    rfl
  case forEach =>
    intro σ f acc session
    have hready := (validate_ready (scene settings session) q).trans h
    simp only [Records.forEach, hschema, searching_run, Search.walk_invalid hready, trail]
  case matchesQuery =>
    intro doc session
    simp only [Records.matchesQuery, run_bind, Work.ofExcept, h]
  case updateMatching =>
    intro f session
    simp only [Records.updateMatching, Records.schema, run_bind, Work.ofExcept, hschema,
      hrows session]
  case deleteMatching =>
    intro session
    simp only [Records.deleteMatching, Records.schema, run_bind, Work.ofExcept, hschema,
      hrows session]

end Records

namespace Database

/-- All operations on the query fail in this way and leave the database as it is. -/
structure Refuses (entity : Entity) (q : Query Predicate) (e : Failure) : Prop where
  find : Idle (find entity q) (.error e)
  findOne : Idle (findOne entity q) (.error e)
  count : Idle (count entity q) (.error e)
  forEach : ∀ {σ : Type} (f : Document → ExceptT Failure (StateM σ) Unit) (acc : σ),
    Idle (forEach entity q f acc) (.ok (.error e, acc))
  matchesQuery : ∀ doc, Idle (matchesQuery entity q doc) (.error e)
  updateMatching : ∀ f, Idle (updateMatching entity q f) (.error e)
  deleteMatching : Idle (deleteMatching entity q) (.error e)

variable {α : Type} {work : Settings → Work Failure α}

theorem reading_idle {result : Except Failure α} (h : ∀ settings, (work settings).Idle result) :
    Idle (reading work) result := by
  intro journal
  refine ⟨journal.db.store, rfl, ?_⟩
  simp only [reading, read, start, Store.start, Attempt.ofWork, h _ _, Store.release, if_true]

theorem writing_idle {e : Failure} (hconflict : e.isConflict = false)
    (h : ∀ settings, (work settings).Idle (.error e)) : Idle (writing work) (.error e) := by
  intro journal
  obtain ⟨left, hleft⟩ : ∃ left, max journal.db.options.retry.maxAttempts 1 = left + 1 :=
    Nat.exists_eq_succ_of_ne_zero (by omega)
  rcases hstart : journal.db.store.start false with ⟨txn, store⟩
  have hcurrent : store.current = journal.db.store.current := by
    simpa only [hstart] using journal.db.store.current_start false
  refine ⟨store.release txn, by rw [Store.current_release, hcurrent], ?_⟩
  simp only [writing, write, writeCounted, hleft, writeFrom, attempt, start, hstart, Attempt.ofWork,
    h _ _, hconflict, Bool.false_eq_true, if_false]

theorem refuses_of_records {entity : Entity} {q : Query Predicate} {e : Failure}
    (hconflict : e.isConflict = false) (h : ∀ settings, Records.Refuses settings entity q e) :
    Refuses entity q e where
  find := reading_idle fun settings => (h settings).find
  findOne := reading_idle fun settings => (h settings).findOne
  count := reading_idle fun settings => (h settings).count
  forEach f acc := reading_idle fun settings => (h settings).forEach f acc
  matchesQuery doc := reading_idle fun settings => (h settings).matchesQuery doc
  updateMatching f := writing_idle hconflict fun settings => (h settings).updateMatching f
  deleteMatching := writing_idle hconflict fun settings => (h settings).deleteMatching

end Database

/-- A query is valid if nothing in its chain of steps was wrong, in the alternatives neither, and
reports the first misuse otherwise. In a valid one no alternative at any depth skips or limits, and
an invalid one is refused by all operations, in a transaction and on a database. -/
theorem Query.build_reports (steps : List (QueryStep Predicate)) :
    ((build steps).validate = .ok () ↔ misuses steps = []) ∧
    (∀ e, (build steps).validate = .error e ↔
      ∃ misuse, (misuses steps).head? = some misuse ∧ e = .invalidQuery misuse) ∧
    ((build steps).validate = .ok () →
      ∀ b ∈ branchesOf (build steps).ors, b.skip = none ∧ b.limit = none) ∧
    ∀ misuse, (misuses steps).head? = some misuse → ∀ entity schema,
      entity.validSchema = .ok schema →
        (∀ settings, Records.Refuses settings entity (build steps) (.invalidQuery misuse)) ∧
          Database.Refuses entity (build steps) (.invalidQuery misuse) := by
  have hvalidate := validate_build steps
  refine ⟨?valid, ?first, ?unpaged, ?refused⟩
  case valid => cases hmisuses : misuses steps <;> simp [hvalidate, hmisuses]
  case first =>
    intro e
    cases hmisuses : misuses steps <;> simp [hvalidate, hmisuses, eq_comm]
  case unpaged =>
    intro hvalid
    have hnone : (build steps).error = none := by
      cases herror : (build steps).error with
      | none => rfl
      | some e => simp only [validate, herror, reduceCtorEq] at hvalid
    exact (tracks_build steps).unpaged hnone
  case refused =>
    intro misuse hfirst entity schema hschema
    have hinvalid : (build steps).validate = .error (.invalidQuery misuse) := by
      rw [hvalidate, hfirst]
    have hrecords (settings : Settings) :
        Records.Refuses settings entity (build steps) (.invalidQuery misuse) :=
      Records.refuses_of_invalid hschema hinvalid
    exact ⟨hrecords, Database.refuses_of_records rfl hrecords⟩

def tangled : List (QueryStep Predicate) :=
  [.and "title" (.condition .isNull), .skip 1,
    .or [.limit 1, .or [.and "shelf" (.condition .isNull), .sortBy ["shelf", keyName]]],
    .skip 2, .index "shelf.row"]

def noteEntity : Entity := ⟨⟨"note", none, [], []⟩, [], .ok⟩

example : Query.misuses tangled =
    [.pagingInOr, .sortByKey, .skipAlreadySet, .nestedIndex "shelf.row"] := by
  decide +kernel

theorem Query.build_reports_paging :
    (misuses tangled).head? = some .pagingInOr ∧ noteEntity.validSchema = .ok noteEntity.schema ∧
      Database.Refuses noteEntity (build tangled) (.invalidQuery .pagingInOr) ∧
      (build tangled.tail).validate ≠ .ok () ∧
      (build (tangled.take 2)).validate = .ok () := by
  have hfirst : (misuses tangled).head? = some .pagingInOr := by decide +kernel
  have hschema : noteEntity.validSchema = .ok noteEntity.schema := by decide +kernel
  obtain ⟨-, -, -, hrefused⟩ := build_reports tangled
  refine ⟨hfirst, hschema, (hrefused .pagingInOr hfirst noteEntity _ hschema).2, ?_, ?_⟩
  · rw [ne_eq, (build_reports tangled.tail).1]
    decide +kernel
  · rw [(build_reports (tangled.take 2)).1]
    decide +kernel

end DocStore
