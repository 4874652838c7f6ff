import DocStore.Proofs.Echoes
import DocStore.Proofs.Found

/-!
# What a search finds, exactly

A search whose tests answer without failing finds every stored record that one of the branches
accepts, each of them once, as long as the candidates of each branch include all records that it
accepts (`findRows_of_ready`). `Covers` is what this asks of the candidates of a branch; where they
come from is left open here.
-/

namespace DocStore

variable {scene : Scene} {schema : Schema}

theorem Row.Stored.unique {row row' : Row} (h : row.Stored scene schema)
    (h' : row'.Stored scene schema) (hkey : row.key = row'.key) : row = row' := by
  obtain ⟨key, doc⟩ := row
  obtain ⟨key', doc'⟩ := row'
  obtain ⟨bytes, hget, hdecode⟩ := h
  obtain ⟨bytes', hget', hdecode'⟩ := h'
  simp only at hkey
  subst hkey
  rw [hget] at hget'
  cases hget'
  rw [hdecode] at hdecode'
  cases hdecode'
  rfl

-- ---------------------------------------------------------------------------
-- Answers
-- ---------------------------------------------------------------------------

namespace Evaluation

/-- Whatever was done before, testing the row against the clauses ends with this answer. -/
def Answers (scene : Scene) (schema : Schema) (row : Row) (clauses : List (Clause Test))
    (holds : Bool) : Prop :=
  ∀ trail, (clausesHold scene schema row clauses trail).1 = .ok holds

variable {row : Row} {clauses : List (Clause Test)} {c : Clause Test} {holds : Bool}

theorem Answers.unique {holds' : Bool} (h : Answers scene schema row clauses holds)
    (h' : Answers scene schema row clauses holds') : holds = holds' := by
  let trail : Trail := ⟨[], [], .start⟩
  have heq := (h trail).symm.trans (h' trail)
  exact Except.ok.inj heq

theorem Answers.run (h : Answers scene schema row clauses holds) (trail : Trail) :
    ∃ last, clausesHold scene schema row clauses trail = (.ok holds, last) :=
  ⟨_, Prod.ext (h trail) rfl⟩

theorem answers_nil : Answers scene schema row [] true := fun _ => rfl

theorem clausesHold_cons_run (trail : Trail) :
    clausesHold scene schema row (c :: clauses) trail =
      match resolveField scene schema row c.field with
      | .error e => (.error e, trail)
      | .ok value =>
        match criterionHolds scene schema row c.field value c.criterion trail with
        | (.error e, trail) => (.error e, trail)
        | (.ok true, trail) => clausesHold scene schema row clauses trail
        | (.ok false, trail) => (.ok false, trail) := by
  simp only [clausesHold, run_bind, Exec.ofExcept]
  cases resolveField scene schema row c.field with
  | error e => rfl
  | ok value =>
    dsimp only
    rcases criterionHolds scene schema row c.field value c.criterion trail with ⟨_ | _ | _, last⟩ <;>
      rfl

theorem Answers.of_singleton (h : Answers scene schema row [c] holds) :
    ∃ value, resolveField scene schema row c.field = .ok value ∧
      ∀ trail, (criterionHolds scene schema row c.field value c.criterion trail).1 = .ok holds := by
  unfold Answers at h
  simp only [clausesHold_cons_run] at h
  cases hvalue : resolveField scene schema row c.field with
  | error e =>
    have hfirst := h ⟨[], [], .start⟩
    simp only [hvalue, reduceCtorEq] at hfirst
  | ok value =>
    refine ⟨value, rfl, fun trail => ?_⟩
    have htrail := h trail
    simp only [hvalue] at htrail
    rcases hrun : criterionHolds scene schema row c.field value c.criterion trail with
      ⟨_ | _ | _, last⟩
    all_goals
      rw [hrun] at htrail
      exact htrail

theorem answers_of_each (h : ∀ c ∈ clauses, ∃ holds, Answers scene schema row [c] holds) :
    ∃ holds, Answers scene schema row clauses holds ∧
      (holds = true ↔ ∀ c ∈ clauses, Answers scene schema row [c] true) := by
  induction clauses with
  | nil => exact ⟨true, answers_nil, by simp⟩
  | cons c rest ih =>
    obtain ⟨first, hfirst⟩ := h c List.mem_cons_self
    obtain ⟨value, hvalue, hcriterion⟩ := hfirst.of_singleton
    have hrun : ∀ trail, ∃ last, criterionHolds scene schema row c.field value c.criterion trail =
        (.ok first, last) := fun trail => ⟨_, Prod.ext (hcriterion trail) rfl⟩
    cases first with
    | false =>
      refine ⟨false, fun trail => ?_, nofun, fun hall => ?_⟩
      · obtain ⟨last, hlast⟩ := hrun trail
        simp only [clausesHold_cons_run, hvalue, hlast]
      · exact hfirst.unique (hall c List.mem_cons_self)
    | true =>
      obtain ⟨holds, hrest, hiff⟩ := ih fun c hc => h c (List.mem_cons_of_mem _ hc)
      refine ⟨holds, fun trail => ?_, ?_⟩
      · obtain ⟨last, hlast⟩ := hrun trail
        simp only [clausesHold_cons_run, hvalue, hlast]
        exact hrest last
      · rw [hiff, List.forall_mem_cons]
        exact ⟨fun hall => ⟨hfirst, hall⟩, fun hall => hall.2⟩

end Evaluation

def Query.Decided (scene : Scene) (schema : Schema) (q : Query Test) : Prop :=
  ∀ c ∈ q.clauses, ∀ row : Row, row.Stored scene schema →
    ∃ holds, Evaluation.Answers scene schema row [c] holds

theorem Query.decided_of_steady {q : Query Test} (hsteady : ∀ c ∈ q.clauses, c.Steady)
    (h : ∀ c ∈ q.clauses, ∀ row : Row, row.Stored scene schema → ∀ trail,
      ∃ holds, (Evaluation.clausesHold scene schema row [c] trail).1 = .ok holds) :
    q.Decided scene schema := by
  intro c hc row hrow
  let trail : Trail := ⟨[], [], .start⟩
  obtain ⟨holds, hholds⟩ := h c hc row hrow trail
  have hanswer : DocStore.Steady (Evaluation.clausesHold scene schema row [c]) :=
    Search.clausesHold_steady (fun c' hc' => List.mem_singleton.mp hc' ▸ hsteady c hc) row
  exact ⟨holds, fun other => (hanswer.answer other trail).trans hholds⟩

theorem Query.Decided.answers {q : Query Test} (h : q.Decided scene schema) {row : Row}
    (hrow : row.Stored scene schema) :
    ∃ holds, Evaluation.Answers scene schema row q.clauses holds := by
  obtain ⟨holds, hanswers, -⟩ := Evaluation.answers_of_each fun c hc => h c hc row hrow
  exact ⟨holds, hanswers⟩

theorem Query.Decided.each {q : Query Test} (h : q.Decided scene schema) {row : Row}
    (hrow : row.Stored scene schema) (hanswers : Evaluation.Answers scene schema row q.clauses true) :
    ∀ c ∈ q.clauses, Evaluation.Answers scene schema row [c] true := by
  obtain ⟨holds, hholds, hiff⟩ := Evaluation.answers_of_each fun c hc => h c hc row hrow
  exact hiff.mp (hholds.unique hanswers)

-- ---------------------------------------------------------------------------
-- Collecting rows
-- ---------------------------------------------------------------------------

namespace Search

open Evaluation

/-- A search that collects rows has found exactly the stored ones that are `wanted` so far. -/
structure Collected (scene : Scene) (schema : Schema) (wanted : Row → Prop)
    (s : Sweep (List Row)) : Prop where
  skip : s.skip = 0
  rows : ∀ row, row ∈ s.acc ↔ row.Stored scene schema ∧ wanted row
  seen : ∀ key, key ∈ s.seen ↔ key ∈ s.acc.map Row.key
  distinct : (s.acc.map Row.key).Nodup

variable {wanted wanted' : Row → Prop} {q : Query Test} {s : Sweep (List Row)}

theorem Collected.congr (h : Collected scene schema wanted s)
    (hiff : ∀ row : Row, row.Stored scene schema → (wanted row ↔ wanted' row)) :
    Collected scene schema wanted' s where
  skip := h.skip
  rows row := by
    rw [h.rows]
    exact and_congr_right (hiff row)
  seen := h.seen
  distinct := h.distinct

theorem Collected.onward (h : Collected scene schema wanted s) (trail : Trail) :
    Collected scene schema wanted { s with trail } :=
  ⟨h.skip, h.rows, h.seen, h.distinct⟩

theorem Collected.agree {s' : Sweep (List Row)} (h : Collected scene schema wanted s')
    (hagree : s.Agree s') : Collected scene schema wanted s where
  skip := hagree.skip.trans h.skip
  rows := hagree.acc ▸ h.rows
  seen := by
    rw [hagree.seen, hagree.acc]
    exact h.seen
  distinct := hagree.acc ▸ h.distinct

/-- Rows under these keys that the branch accepts are wanted as well. -/
def Also (scene : Scene) (schema : Schema) (wanted : Row → Prop) (q : Query Test) (keys : List Bytes)
    (row : Row) : Prop :=
  wanted row ∨ row.key ∈ keys ∧ Answers scene schema row q.clauses true

def Candidate.Current (scene : Scene) (schema : Schema) (c : Candidate) : Prop :=
  scene.view.get? (Records.recordKey schema c.key) = some c.value

def Readable (scene : Scene) (schema : Schema) : Prop :=
  ∀ pk bytes, scene.view.get? (Records.recordKey schema pk) = some bytes →
    ∃ doc, decodeRecord scene.codec schema pk bytes = .ok doc

def Collects (scene : Scene) (schema : Schema) (wanted : Row → Prop) (s : Sweep (List Row))
    (w : Sweeping (List Row) Unit) : Prop :=
  Triple w s (fun _ s' => Collected scene schema wanted s') (fun _ => False)

theorem Collected.again (h : Collected scene schema wanted s) {key : Bytes} (hseen : key ∈ s.seen) :
    Collected scene schema (Also scene schema wanted q [key]) s := by
  refine h.congr fun row hstored => ⟨.inl, ?_⟩
  rintro (hwanted | ⟨hkey, -⟩)
  · exact hwanted
  · obtain ⟨other, hother, hotherKey⟩ := List.mem_map.mp ((h.seen key).mp hseen)
    obtain ⟨hstored', hwanted⟩ := (h.rows other).mp hother
    have heq : row = other :=
      hstored.unique hstored' ((List.mem_singleton.mp hkey).trans hotherKey.symm)
    exact heq ▸ hwanted

theorem Collected.refuse (h : Collected scene schema wanted s) {row : Row}
    (hrow : row.Stored scene schema) (hanswers : Answers scene schema row q.clauses false) :
    Collected scene schema (Also scene schema wanted q [row.key]) s := by
  refine h.congr fun other hstored => ⟨.inl, ?_⟩
  rintro (hwanted | ⟨hkey, htrue⟩)
  · exact hwanted
  · rw [hstored.unique hrow (List.mem_singleton.mp hkey)] at htrue
    exact nomatch htrue.unique hanswers

theorem Collected.accept (h : Collected scene schema wanted s) {row : Row}
    (hrow : row.Stored scene schema) (hanswers : Answers scene schema row q.clauses true)
    (hnew : row.key ∉ s.seen) :
    (accept collector row s).1 = .ok () ∧
      Collected scene schema (Also scene schema wanted q [row.key]) (accept collector row s).2 := by
  simp only [accept_run, h.skip, if_true, collector]
  refine ⟨trivial, rfl, fun other => ?_, fun key => ?_, ?_⟩
  · rw [List.mem_cons, h.rows]
    constructor
    · rintro (rfl | ⟨hstored, hwanted⟩)
      · exact ⟨hrow, .inr ⟨List.mem_singleton_self _, hanswers⟩⟩
      · exact ⟨hstored, .inl hwanted⟩
    · rintro ⟨hstored, hwanted | ⟨hkey, -⟩⟩
      · exact .inr ⟨hstored, hwanted⟩
      · exact .inl (hstored.unique hrow (List.mem_singleton.mp hkey))
  · rw [List.map_cons, List.mem_cons, List.mem_cons, h.seen]
  · exact List.nodup_cons.mpr ⟨fun hmem => hnew ((h.seen row.key).mpr hmem), h.distinct⟩

theorem Collected.not_wanted (h : Collected scene schema wanted s) {row : Row}
    (hrow : row.Stored scene schema) (hnew : row.key ∉ s.seen) : ¬ wanted row := fun hwanted =>
  hnew ((h.seen row.key).mpr (List.mem_map_of_mem ((h.rows row).mpr ⟨hrow, hwanted⟩)))

def AnswersOn (scene : Scene) (schema : Schema) (wanted : Row → Prop) (q : Query Test)
    (keys : List Bytes) : Prop :=
  ∀ row : Row, row.Stored scene schema → row.key ∈ keys → ¬ wanted row →
    ∃ holds, Answers scene schema row q.clauses holds

theorem AnswersOn.head {key : Bytes} {keys : List Bytes}
    (h : AnswersOn scene schema wanted q (key :: keys)) : AnswersOn scene schema wanted q [key] :=
  fun row hrow hkey => h row hrow (List.mem_singleton.mp hkey ▸ List.mem_cons_self)

theorem AnswersOn.tail {key : Bytes} {keys : List Bytes}
    (h : AnswersOn scene schema wanted q (key :: keys)) :
    AnswersOn scene schema (Also scene schema wanted q [key]) q keys :=
  fun row hrow hkey hnot => h row hrow (List.mem_cons_of_mem _ hkey) fun hwanted => hnot (.inl hwanted)

section Branch

variable (hreadable : Readable scene schema)
include hreadable

theorem consider_collects {c : Candidate} (hanswers : AnswersOn scene schema wanted q [c.key])
    (h : Collected scene schema wanted s) (hc : Candidate.Current scene schema c) :
    Collects scene schema (Also scene schema wanted q [c.key]) s
      (consider scene schema collector q c) := by
  obtain ⟨doc, hdoc⟩ := hreadable c.key c.value hc
  have hrow : Row.Stored scene schema ⟨c.key, doc⟩ := ⟨c.value, hc, hdoc⟩
  unfold Collects Triple
  rw [consider_run]
  by_cases hseen : c.key ∈ s.seen
  · -- A row that an earlier branch has found is wanted already.
    rw [if_pos (List.contains_iff_mem.mpr hseen)]
    exact h.again hseen
  · have hnew : ¬ s.seen.contains c.key = true := fun h => hseen (List.contains_iff_mem.mp h)
    obtain ⟨holds, hholds⟩ :=
      hanswers ⟨c.key, doc⟩ hrow (List.mem_singleton_self _) (h.not_wanted hrow hseen)
    obtain ⟨last, hlast⟩ := hholds.run s.trail
    simp only [if_neg hnew, hdoc, hlast]
    cases holds with
    | false => exact (h.onward last).refuse hrow hholds
    | true =>
      obtain ⟨hok, hcollected⟩ := (h.onward last).accept hrow hholds hseen
      rcases haccept : accept collector ⟨c.key, doc⟩ { s with trail := last } with ⟨result, s'⟩
      rw [haccept] at hok hcollected
      simp only [haccept]
      subst hok
      exact hcollected

theorem considerAll_collects {left : List Candidate}
    (hcurrent : ∀ c ∈ left, Candidate.Current scene schema c)
    (hanswers : AnswersOn scene schema wanted q (left.map Candidate.key))
    (h : Collected scene schema wanted s) :
    Collects scene schema (Also scene schema wanted q (left.map Candidate.key)) s
      (considerAll scene schema collector none q (halt none) left) := by
  induction left generalizing wanted s with
  | nil =>
    refine Triple.bind_of_run (isFull_run s) ?_
    exact Triple.pure (h.congr fun row _ => by simp [Also])
  | cons c rest ih =>
    refine Triple.bind_of_run (isFull_run s) ?_
    refine Triple.bind (consider_collects hreadable hanswers.head h
      (hcurrent c List.mem_cons_self)) ?_
    intro _ s' h'
    refine (ih (fun c hc => hcurrent c (List.mem_cons_of_mem _ hc)) hanswers.tail h').mono ?_
      fun _ hfalse => hfalse
    intro _ s'' h''
    refine h''.congr fun row _ => ?_
    simp only [Also, List.map_cons, List.mem_cons, List.not_mem_nil, or_false]
    tauto

end Branch

-- ---------------------------------------------------------------------------
-- Candidates of a branch
-- ---------------------------------------------------------------------------

/-- A scan can be read through, and what it finds are the records under these keys. -/
def ScanFinds (scene : Scene) (schema : Schema) (source : Source)
    (filter : Option (Value → Except Failure Bool)) (keys : List Bytes) : Prop :=
  let cursor : Cursor Failure := ⟨source, scene.batchSize, filter, .ofEngine⟩
  ∃ found, (cursor.candidates scene.codec scene.view (scene.view.rest source.start none)).1 =
      .ok found ∧ (∀ c ∈ found, Candidate.Current scene schema c) ∧ found.map Candidate.key = keys

def LookupFinds (scene : Scene) (schema : Schema) (spec : IndexSpec) (values : List Value)
    (keys : List Bytes) : Prop :=
  (∀ reads, ∃ last, Index.lookup scene.codec schema spec values scene.view reads =
      (.ok keys, last)) ∧
    ∀ key ∈ keys, ∃ value, Candidate.Current scene schema ⟨key, value⟩

def Finds (scene : Scene) (schema : Schema) (q : Query Test) : Plan → List Bytes → Prop
  | .lookup spec values => LookupFinds scene schema spec values
  | .indexScan spec filtered => ScanFinds scene schema (.index schema.typeName spec.name)
      (if filtered then some (indexFilter schema q spec.field) else none)
  | .recordScan => ScanFinds scene schema (.records schema.typeName) none

/-- The records that the pass for a branch comes upon are those under these keys. -/
def Visits (scene : Scene) (schema : Schema) (q : Query Test) (keys : List Bytes) : Prop :=
  ∃ plan, Plan.make scene.codec schema q = .ok plan ∧ Finds scene schema q plan keys

def Suffices (scene : Scene) (schema : Schema) (q : Query Test) (keys : List Bytes) : Prop :=
  ∀ row : Row, row.Stored scene schema → Answers scene schema row q.clauses true → row.key ∈ keys

def ScanCovers (scene : Scene) (schema : Schema) (q : Query Test) (source : Source)
    (filter : Option (Value → Except Failure Bool)) : Prop :=
  let cursor : Cursor Failure := ⟨source, scene.batchSize, filter, .ofEngine⟩
  ∃ found, (cursor.candidates scene.codec scene.view (scene.view.rest source.start none)).1 =
      .ok found ∧ (∀ c ∈ found, Candidate.Current scene schema c) ∧
    Suffices scene schema q (found.map Candidate.key)

def LookupCovers (scene : Scene) (schema : Schema) (q : Query Test) (spec : IndexSpec)
    (values : List Value) : Prop :=
  ∃ keys, (∀ reads, ∃ last, Index.lookup scene.codec schema spec values scene.view reads =
      (.ok keys, last)) ∧
    (∀ key ∈ keys, ∃ value, Candidate.Current scene schema ⟨key, value⟩) ∧
    Suffices scene schema q keys

def Covers (scene : Scene) (schema : Schema) (q : Query Test) : Plan → Prop
  | .lookup spec values => LookupCovers scene schema q spec values
  | .indexScan spec filtered => ScanCovers scene schema q (.index schema.typeName spec.name)
      (if filtered then some (indexFilter schema q spec.field) else none)
  | .recordScan => ScanCovers scene schema q (.records schema.typeName) none

theorem ScanCovers.finds {source : Source} {filter : Option (Value → Except Failure Bool)}
    (h : ScanCovers scene schema q source filter) :
    ∃ keys, ScanFinds scene schema source filter keys ∧ Suffices scene schema q keys := by
  obtain ⟨found, hfound, hcurrent, hsuffices⟩ := h
  exact ⟨_, ⟨found, hfound, hcurrent, rfl⟩, hsuffices⟩

theorem Covers.finds {plan : Plan} (h : Covers scene schema q plan) :
    ∃ keys, Finds scene schema q plan keys ∧ Suffices scene schema q keys := by
  cases plan with
  | lookup spec values =>
    obtain ⟨keys, hkeys, hcurrent, hsuffices⟩ := h
    exact ⟨keys, ⟨hkeys, hcurrent⟩, hsuffices⟩
  | indexScan spec filtered => exact ScanCovers.finds h
  | recordScan => exact ScanCovers.finds h

section Pass

variable (hreadable : Readable scene schema) {keys : List Bytes}
  (hanswers : AnswersOn scene schema wanted q keys)
include hreadable hanswers

theorem scan_collects {source : Source} {filter : Option (Value → Except Failure Bool)}
    (hsteady : ∀ c ∈ q.clauses, c.Steady) (hfinds : ScanFinds scene schema source filter keys)
    (h : Collected scene schema wanted s) :
    Collects scene schema (Also scene schema wanted q keys) s
      (scan scene schema collector none q source filter) := by
  obtain ⟨found, hfound, hcurrent, rfl⟩ := hfinds
  exact (scan_considers hsteady (Cursor.yields_start hfound)).triple
    (considerAll_collects hreadable hcurrent hanswers h) (fun _ _ _ hagree h => h.agree hagree)
    fun _ _ _ hfalse => hfalse

theorem lookup_collects {spec : IndexSpec} {values : List Value}
    (hfinds : LookupFinds scene schema spec values keys) (h : Collected scene schema wanted s) :
    Collects scene schema (Also scene schema wanted q keys) s (do
      let keys ← Sweeping.ofExec <| Exec.ofReading scene.view <|
        Index.lookup scene.codec schema spec values
      let found ← Sweeping.ofExec <| Exec.ofReading scene.view <| Reading.multiGet <|
        keys.map fun key => Key.encode (.record schema.typeName key)
      considerEach scene schema collector none q spec (keys.zip found)) := by
  obtain ⟨hlookup, hcurrent⟩ := hfinds
  obtain ⟨reads, hkeys⟩ := hlookup s.trail.reads
  have hfirst : (Sweeping.ofExec (Exec.ofReading scene.view
      (Index.lookup scene.codec schema spec values)) : Sweeping (List Row) (List Bytes)) s =
        (.ok keys, { s with trail := { s.trail with reads } }) := by
    simp only [Sweeping.ofExec, Exec.ofReading, hkeys, Except.mapError]
  refine Triple.bind_of_run hfirst (Triple.bind_of_run rfl ?_)
  let pairs := keys.map fun key => (key, scene.view.get? (Records.recordKey schema key))
  have hpairs : keys.zip ((keys.map fun key => Key.encode (.record schema.typeName key)).map
      scene.view.get?) = pairs := by
    rw [List.map_map]
    exact List.map_prod_left_eq_zip.symm
  obtain ⟨left, hleft, hfound⟩ : ∃ left, listing schema spec pairs = (left, none) ∧
      pairs = left.map fun c => (c.key, some c.value) := by
    refine listing_found fun pair hpair => ?_
    obtain ⟨key, hkey, rfl⟩ := List.mem_map.mp hpair
    exact hcurrent key hkey
  have hleftKeys : left.map Candidate.key = keys := by
    have hfst : pairs.map Prod.fst = keys := by simp [pairs, Function.comp_def]
    rw [← hfst, hfound, List.map_map]
    rfl
  have hleftCurrent : ∀ c ∈ left, Candidate.Current scene schema c := by
    intro c hc
    have hmem : (c.key, some c.value) ∈ pairs := hfound ▸ List.mem_map_of_mem hc
    obtain ⟨key, -, hpair⟩ := List.mem_map.mp hmem
    obtain ⟨rfl, hvalue⟩ := Prod.mk.inj hpair
    exact hvalue
  subst hleftKeys
  show Collects _ _ _ _ (considerEach scene schema collector none q spec (List.zip _ _))
  rw [hpairs, considerEach_considers, hleft]
  exact considerAll_collects hreadable hleftCurrent hanswers (h.onward _)

theorem pass_collects (hsteady : ∀ c ∈ q.clauses, c.Steady) (hvisits : Visits scene schema q keys)
    (h : Collected scene schema wanted s) :
    Triple (pass scene schema collector none q) s
      (fun _ s' => Collected scene schema (Also scene schema wanted q keys) s') (fun _ => False) := by
  obtain ⟨plan, hplan, hfinds⟩ := hvisits
  have hmake : (Sweeping.ofExec (Exec.ofExcept (Plan.make scene.codec schema q)) :
      Sweeping (List Row) Plan) s = (.ok plan, s) := by
    rw [hplan]
    rfl
  refine Triple.bind_of_run hmake (Triple.bind_of_run rfl ?_)
  cases plan with
  | lookup spec values => exact lookup_collects hreadable hanswers hfinds (h.onward _)
  | indexScan spec filtered => exact scan_collects hreadable hanswers hsteady hfinds (h.onward _)
  | recordScan => exact scan_collects hreadable hanswers hsteady hfinds (h.onward _)

end Pass

-- ---------------------------------------------------------------------------
-- Whole queries
-- ---------------------------------------------------------------------------

/-- A branch whose tests answer and whose candidates include all that it accepts. -/
structure Ready (scene : Scene) (schema : Schema) (q : Query Test) : Prop where
  decided : q.Decided scene schema
  planned : ∃ plan, Plan.make scene.codec schema q = .ok plan ∧ Covers scene schema q plan

/-- Rows that one of the branches accepts are wanted as well, if it comes upon them. -/
def AlsoEach (scene : Scene) (schema : Schema) :
    List (Query Test × List Bytes) → (Row → Prop) → Row → Prop
  | [], wanted => wanted
  | (b, keys) :: rest, wanted => AlsoEach scene schema rest (Also scene schema wanted b keys)

/-- The branches that come upon the row answer on it, up to the first that accepts it. -/
def Answered (scene : Scene) (schema : Schema) (row : Row) : List (Query Test × List Bytes) → Prop
  | [] => True
  | (b, keys) :: rest => (row.key ∈ keys → ∃ holds, Answers scene schema row b.clauses holds) ∧
      (¬ (row.key ∈ keys ∧ Answers scene schema row b.clauses true) → Answered scene schema row rest)

theorem passEach_collects (hreadable : Readable scene schema)
    {branches : List (Query Test × List Bytes)}
    (hsteady : ∀ b ∈ branches, ∀ c ∈ b.1.clauses, c.Steady)
    (hvisits : ∀ b ∈ branches, Visits scene schema b.1 b.2)
    (hanswered : ∀ row : Row, row.Stored scene schema → ¬ wanted row →
      Answered scene schema row branches) (h : Collected scene schema wanted s) :
    Triple (passEach scene schema collector none (branches.map Prod.fst)) s
      (fun _ s' => Collected scene schema (AlsoEach scene schema branches wanted) s')
      (fun _ => False) := by
  induction branches generalizing wanted s with
  | nil => exact Triple.pure h
  | cons head rest ih =>
    obtain ⟨b, keys⟩ := head
    have hanswers : AnswersOn scene schema wanted b keys := fun row hrow hkey hnot =>
      (hanswered row hrow hnot).1 hkey
    refine Triple.bind_of_run (isFull_run s) ?_
    refine Triple.bind (pass_collects hreadable hanswers (hsteady _ List.mem_cons_self)
      (hvisits _ List.mem_cons_self) h) fun _ s' h' => ?_
    refine ih (fun b' hb' => hsteady b' (List.mem_cons_of_mem _ hb'))
      (fun b' hb' => hvisits b' (List.mem_cons_of_mem _ hb')) (fun row hrow hnot => ?_) h'
    rw [Also, not_or] at hnot
    exact (hanswered row hrow hnot.1).2 hnot.2

theorem alsoEach_iff {branches : List (Query Test × List Bytes)}
    (hsuffices : ∀ b ∈ branches, Suffices scene schema b.1 b.2) {row : Row}
    (hrow : row.Stored scene schema) :
    AlsoEach scene schema branches wanted row ↔
      wanted row ∨ ∃ b ∈ branches, Answers scene schema row b.1.clauses true := by
  induction branches generalizing wanted with
  | nil => simp [AlsoEach]
  | cons head rest ih =>
    obtain ⟨b, keys⟩ := head
    have hkeys : row.key ∈ keys ∧ Answers scene schema row b.clauses true ↔
        Answers scene schema row b.clauses true :=
      ⟨And.right, fun hanswers => ⟨hsuffices _ List.mem_cons_self row hrow hanswers, hanswers⟩⟩
    rw [AlsoEach, ih fun b' hb' => hsuffices b' (List.mem_cons_of_mem _ hb'), Also, hkeys]
    simp only [List.mem_cons, exists_eq_or_imp, or_assoc]

/-- The first pass differs from the others only if no row is asked for. -/
theorem passAll_eq (branches : List (Query Test)) :
    passAll scene schema collector none branches = passEach scene schema collector none branches := by
  cases branches with
  | nil => rfl
  | cons b rest => rfl

variable {q : Query Test}

theorem matchesQuery_iff (hdecided : ∀ b ∈ q.branches, b.Decided scene schema) {row : Row}
    (hrow : row.Stored scene schema) (trail : Trail) :
    (matchesQuery scene schema q row trail).1 = .ok true ↔
      ∃ b ∈ q.branches, Answers scene schema row b.clauses true := by
  unfold matchesQuery
  generalize q.branches = branches at hdecided
  induction branches generalizing trail with
  | nil => simp [anyBranchHolds, run_pure]
  | cons b rest ih =>
    obtain ⟨holds, hanswers⟩ := (hdecided b List.mem_cons_self).answers hrow
    obtain ⟨last, hlast⟩ := hanswers.run trail
    have hrest := ih last fun b' hb' => hdecided b' (List.mem_cons_of_mem _ hb')
    simp only [anyBranchHolds, run_bind, hlast, List.mem_cons, exists_eq_or_imp]
    cases holds with
    | true => simp [run_pure, hanswers]
    | false =>
      have hnot : ¬ Answers scene schema row b.clauses true := fun htrue => by
        cases htrue.unique hanswers
      simp only [hnot, false_or]
      exact hrest

/-- A search whose branches answer on what they come upon succeeds. -/
theorem findRows_of_answered (hreadable : Readable scene schema) (hsteady : q.Steady)
    (hvalid : q.validate = .ok ()) (hsort : q.sortFields = []) (hskip : q.skip = none)
    (hlimit : q.limit = none) {branches : List (Query Test × List Bytes)}
    (hbranches : branches.map Prod.fst = q.branches)
    (hvisits : ∀ b ∈ branches, Visits scene schema b.1 b.2)
    (hanswered : ∀ row : Row, row.Stored scene schema → Answered scene schema row branches)
    (trail : Trail) :
    ∃ rows, (findRows scene schema q trail).1 = .ok rows ∧ (rows.map Row.key).Nodup ∧
      ∀ row, row ∈ rows ↔
        row.Stored scene schema ∧ AlsoEach scene schema branches (fun _ => False) row := by
  have hfirst : Collected scene schema (fun _ => False)
      (⟨trail, [], q.skipCount, 0, []⟩ : Sweep (List Row)) :=
    ⟨by simp [Query.skipCount, hskip], by simp, by simp, List.nodup_nil⟩
  have hsteady' : ∀ b ∈ branches, ∀ c ∈ b.1.clauses, c.Steady := fun b hb =>
    hsteady b.1 (hbranches ▸ List.mem_map_of_mem hb)
  have hpasses := passEach_collects hreadable hsteady' hvisits
    (fun row hrow _ => hanswered row hrow) hfirst
  rw [hbranches, ← passAll_eq] at hpasses
  unfold Triple at hpasses
  split at hpasses
  · rename_i last hrun
    have hrows : (findRows scene schema q trail).1 = .ok last.acc.reverse := by
      simp only [findRows, walk, hvalid, hsort, List.isEmpty_nil, if_true, sweep, hlimit, hrun,
        Except.map]
    refine ⟨last.acc.reverse, hrows, ?_, fun row => ?_⟩
    · rw [List.map_reverse]
      exact (List.reverse_perm _).nodup_iff.mpr hpasses.distinct
    · rw [List.mem_reverse, hpasses.rows]
  · cases hpasses

theorem exists_keys {P : Query Test → List Bytes → Prop} {branches : List (Query Test)}
    (h : ∀ b ∈ branches, ∃ keys, P b keys) :
    ∃ found : List (Query Test × List Bytes), found.map Prod.fst = branches ∧
      ∀ b ∈ found, P b.1 b.2 := by
  induction branches with
  | nil => exact ⟨[], rfl, nofun⟩
  | cons b rest ih =>
    obtain ⟨found, hfound, hall⟩ := ih fun b' hb' => h b' (List.mem_cons_of_mem _ hb')
    obtain ⟨keys, hkeys⟩ := h b List.mem_cons_self
    exact ⟨(b, keys) :: found, by rw [List.map_cons, hfound], List.forall_mem_cons.mpr ⟨hkeys, hall⟩⟩

theorem answered_of_decided {branches : List (Query Test × List Bytes)}
    (hdecided : ∀ b ∈ branches, b.1.Decided scene schema) {row : Row}
    (hrow : row.Stored scene schema) : Answered scene schema row branches := by
  induction branches with
  | nil => trivial
  | cons head rest ih =>
    refine ⟨fun _ => (hdecided _ List.mem_cons_self).answers hrow, fun _ => ?_⟩
    exact ih fun b hb => hdecided b (List.mem_cons_of_mem _ hb)

/-- The rows of a search are the stored records that the query accepts, each of them once. -/
theorem findRows_of_ready (hreadable : Readable scene schema) (hsteady : q.Steady)
    (hvalid : q.validate = .ok ()) (hsort : q.sortFields = []) (hskip : q.skip = none)
    (hlimit : q.limit = none) (hready : ∀ b ∈ q.branches, Ready scene schema b) (trail : Trail) :
    ∃ rows, (findRows scene schema q trail).1 = .ok rows ∧ (rows.map Row.key).Nodup ∧
      ∀ row, row ∈ rows ↔
        row.Stored scene schema ∧ (matchesQuery scene schema q row trail).1 = .ok true := by
  obtain ⟨branches, hbranches, hfinds⟩ : ∃ branches : List (Query Test × List Bytes),
      branches.map Prod.fst = q.branches ∧
        ∀ b ∈ branches, Visits scene schema b.1 b.2 ∧ Suffices scene schema b.1 b.2 := by
    refine exists_keys (P := fun b keys =>
      Visits scene schema b keys ∧ Suffices scene schema b keys) fun b hb => ?_
    obtain ⟨plan, hplan, hcovers⟩ := (hready b hb).planned
    obtain ⟨keys, hkeys, hsuffices⟩ := hcovers.finds
    exact ⟨keys, ⟨plan, hplan, hkeys⟩, hsuffices⟩
  have hdecided : ∀ b ∈ q.branches, b.Decided scene schema := fun b hb => (hready b hb).decided
  obtain ⟨rows, hrows, hdistinct, hiff⟩ := findRows_of_answered hreadable hsteady hvalid hsort hskip
    hlimit hbranches (fun b hb => (hfinds b hb).1)
    (fun row hrow => answered_of_decided
      (fun b hb => hdecided b.1 (hbranches ▸ List.mem_map_of_mem hb)) hrow) trail
  refine ⟨rows, hrows, hdistinct, fun row => ?_⟩
  rw [hiff]
  refine and_congr_right fun hrow => ?_
  rw [matchesQuery_iff hdecided hrow, alsoEach_iff (fun b hb => (hfinds b hb).2) hrow, ← hbranches]
  simp

end Search

end DocStore
