import DocStore.Proofs.AccessPaths

/-!
# Pass by pass

Without indexes every pass goes through all records, and a record that an earlier pass has found is
passed over. This comes to the same as testing each record by itself against one branch after the
other until one accepts it (`findRows_by_branch`): the search fails if and only if one of these tests
fails, and its rows stand in the order of the branches that accept them, then in that of their keys.

`siftEach` is what the passes come to without cursors and bookmarks: each test takes out of the rows
that are left those that it accepts.
-/

namespace DocStore

namespace Search

-- ---------------------------------------------------------------------------
-- Sifting
-- ---------------------------------------------------------------------------

section Sift

def sift (test : Row → Except Failure Bool) : List Row → Except Failure (List Row × List Row)
  | [] => .ok ([], [])
  | row :: rest =>
    match test row, sift test rest with
    | .ok true, .ok (kept, left) => .ok (row :: kept, left)
    | .ok false, .ok (kept, left) => .ok (kept, row :: left)
    | .ok _, .error e => .error e
    | .error e, _ => .error e

/-- One test after the other sifts what the tests before it have left. -/
def siftEach : List (Row → Except Failure Bool) → List Row → Except Failure (List Row)
  | [], _ => .ok []
  | test :: rest, rows =>
    match sift test rows with
    | .ok (kept, left) => (siftEach rest left).map (kept ++ ·)
    | .error e => .error e

def anyAccepts : List (Row → Except Failure Bool) → Row → Except Failure Bool
  | [], _ => .ok false
  | test :: rest, row =>
    match test row with
    | .ok true => .ok true
    | .ok false => anyAccepts rest row
    | .error e => .error e

def accepted : Except Failure Bool → Bool
  | .ok holds => holds
  | .error _ => false

/-- The place of the first test that accepts the row, behind all places if none does. -/
def firstAccepting (tests : List (Row → Except Failure Bool)) (row : Row) : Nat :=
  tests.findIdx fun test => accepted (test row)

variable {test : Row → Except Failure Bool} {tests : List (Row → Except Failure Bool)}
  {rows kept left out : List Row} {row : Row}

theorem sift_ok (h : sift test rows = .ok (kept, left)) :
    (∀ row ∈ rows, ∃ holds, test row = .ok holds) ∧
      kept = rows.filter (fun row => accepted (test row)) ∧
      left = rows.filter (fun row => !accepted (test row)) := by
  induction rows generalizing kept left with
  | nil =>
    cases h
    exact ⟨nofun, rfl, rfl⟩
  | cons row rest ih =>
    simp only [sift] at h
    split at h
    all_goals cases h
    all_goals
      rename_i htest hrest
      obtain ⟨htests, rfl, rfl⟩ := ih hrest
      refine ⟨List.forall_mem_cons.mpr ⟨⟨_, htest⟩, htests⟩, ?_, ?_⟩ <;>
        simp [htest, accepted]

theorem sift_error {e : Failure} (h : sift test rows = .error e) :
    ∃ row ∈ rows, test row = .error e := by
  induction rows with
  | nil => cases h
  | cons row rest ih =>
    simp only [sift] at h
    split at h
    all_goals cases h
    · rename_i hrest
      obtain ⟨bad, hbad, htest⟩ := ih hrest
      exact ⟨bad, List.mem_cons_of_mem _ hbad, htest⟩
    · rename_i htest
      exact ⟨row, List.mem_cons_self, htest⟩

/-- Sifting fails as soon as the tests of one row do, and only then. -/
theorem siftEach_ok_iff :
    (∃ out, siftEach tests rows = .ok out) ↔ ∀ row ∈ rows, ∃ holds, anyAccepts tests row = .ok holds := by
  induction tests generalizing rows with
  | nil => simp [siftEach, anyAccepts]
  | cons test rest ih =>
    cases hsift : sift test rows with
    | error e =>
      obtain ⟨row, hrow, htest⟩ := sift_error hsift
      refine ⟨fun ⟨out, hout⟩ => ?_, fun hall => ?_⟩
      · simp only [siftEach, hsift, reduceCtorEq] at hout
      · obtain ⟨holds, hholds⟩ := hall row hrow
        simp only [anyAccepts, htest, reduceCtorEq] at hholds
    | ok parts =>
      obtain ⟨kept, left⟩ := parts
      obtain ⟨htests, -, rfl⟩ := sift_ok hsift
      have hrest : (∃ out, siftEach (test :: rest) rows = .ok out) ↔
          ∃ out, siftEach rest (rows.filter fun row => !accepted (test row)) = .ok out := by
        simp only [siftEach, hsift]
        cases siftEach rest _ <;> simp [Except.map]
      rw [hrest, ih]
      refine ⟨fun hall row hrow => ?_, fun hall row hrow => ?_⟩
      · obtain ⟨holds, htest⟩ := htests row hrow
        cases holds with
        | true => exact ⟨true, by simp only [anyAccepts, htest]⟩
        | false =>
          obtain ⟨holds, hholds⟩ := hall row (List.mem_filter.mpr ⟨hrow, by simp [htest, accepted]⟩)
          exact ⟨holds, by simp only [anyAccepts, htest, hholds]⟩
      · obtain ⟨hrow, hrefused⟩ := List.mem_filter.mp hrow
        obtain ⟨holds, hholds⟩ := hall row hrow
        obtain ⟨verdict, htest⟩ := htests row hrow
        cases verdict with
        | true => simp [htest, accepted] at hrefused
        | false => exact ⟨holds, by simpa only [anyAccepts, htest] using hholds⟩

theorem siftEach_cons_ok (h : siftEach (test :: tests) rows = .ok out) :
    ∃ more, (∀ row ∈ rows, ∃ holds, test row = .ok holds) ∧
      siftEach tests (rows.filter fun row => !accepted (test row)) = .ok more ∧
      out = rows.filter (fun row => accepted (test row)) ++ more := by
  simp only [siftEach] at h
  cases hsift : sift test rows with
  | error e => simp only [hsift, reduceCtorEq] at h
  | ok parts =>
    obtain ⟨kept, left⟩ := parts
    obtain ⟨htests, rfl, rfl⟩ := sift_ok hsift
    simp only [hsift] at h
    cases hmore : siftEach tests (rows.filter fun row => !accepted (test row)) with
    | error e => simp only [hmore, Except.map, reduceCtorEq] at h
    | ok more =>
      simp only [hmore, Except.map, Except.ok.injEq] at h
      exact ⟨more, htests, rfl, h.symm⟩

theorem mem_siftEach (h : siftEach tests rows = .ok out) :
    row ∈ out ↔ row ∈ rows ∧ anyAccepts tests row = .ok true := by
  induction tests generalizing rows out with
  | nil =>
    cases h
    simp [anyAccepts]
  | cons test rest ih =>
    obtain ⟨more, htests, hmore, rfl⟩ := siftEach_cons_ok h
    rw [List.mem_append, ih hmore, List.mem_filter, List.mem_filter, and_assoc, ← and_or_left]
    refine and_congr_right fun hrow => ?_
    obtain ⟨holds, htest⟩ := htests row hrow
    cases holds <;> simp [anyAccepts, htest, accepted]

/-- Sifted rows stand in the order of the tests that accept them, then as they stood before. -/
theorem siftEach_pairwise {before : Row → Row → Prop} (hrows : rows.Pairwise before)
    (h : siftEach tests rows = .ok out) :
    out.Pairwise fun a b => firstAccepting tests a < firstAccepting tests b ∨
      firstAccepting tests a = firstAccepting tests b ∧ before a b := by
  induction tests generalizing rows out with
  | nil =>
    cases h
    exact List.Pairwise.nil
  | cons test rest ih =>
    obtain ⟨more, -, hmore, rfl⟩ := siftEach_cons_ok h
    have hkept : ∀ row ∈ rows.filter (fun row => accepted (test row)),
        firstAccepting (test :: rest) row = 0 := by
      intro row hrow
      simp [firstAccepting, List.findIdx_cons, (List.mem_filter.mp hrow).2]
    have hlater : ∀ row ∈ more, firstAccepting (test :: rest) row = firstAccepting rest row + 1 := by
      intro row hrow
      have hrefused := (List.mem_filter.mp ((mem_siftEach hmore).mp hrow).1).2
      simp only [Bool.not_eq_true'] at hrefused
      simp [firstAccepting, List.findIdx_cons, hrefused]
    refine List.pairwise_append.mpr ⟨?_, ?_, fun a ha b hb => .inl ?_⟩
    · refine (hrows.filter _).imp_of_mem fun {a b} ha hb hbefore => .inr ⟨?_, hbefore⟩
      rw [hkept a ha, hkept b hb]
    · refine (ih (hrows.filter _) hmore).imp_of_mem fun {a b} ha hb hab => ?_
      rw [hlater a ha, hlater b hb]
      exact hab.imp Nat.succ_lt_succ fun ⟨hsame, hbefore⟩ => ⟨congrArg _ hsame, hbefore⟩
    · rw [hkept a ha, hlater b hb]
      exact Nat.succ_pos _

end Sift

-- ---------------------------------------------------------------------------
-- Records in order
-- ---------------------------------------------------------------------------

def Candidate.row? (codec : Codec) (schema : Schema) (c : Candidate) : Option Row :=
  (decodeRecord codec schema c.key c.value).toOption.map (Row.mk c.key)

def recordCandidates (view : Data) (schema : Schema) : List Candidate :=
  let start := Key.recordPrefix schema.typeName
  (view.rest start none).map fun pair => ⟨pair.1.drop start.length, pair.2⟩

def storedRows (scene : Scene) (schema : Schema) : List Row :=
  (recordCandidates scene.view schema).filterMap (Candidate.row? scene.codec schema)

variable {scene : Scene} {schema : Schema} {q : Query Test} {row : Row}

theorem Candidate.row?_eq_some {c : Candidate} :
    Candidate.row? scene.codec schema c = some row ↔
      c.key = row.key ∧ decodeRecord scene.codec schema c.key c.value = .ok row.doc := by
  obtain ⟨key, doc⟩ := row
  unfold Candidate.row?
  cases decodeRecord scene.codec schema c.key c.value <;> simp [Except.toOption]

theorem mem_recordCandidates {c : Candidate} :
    c ∈ recordCandidates scene.view schema ↔ Candidate.Current scene schema c := by
  let start := Key.recordPrefix schema.typeName
  have hkey : ∀ key, Records.recordKey schema key = start ++ key := fun _ => rfl
  simp only [recordCandidates, List.mem_map, Candidate.Current]
  constructor
  · rintro ⟨pair, hpair, rfl⟩
    obtain ⟨hget, rest, hrest⟩ := Data.mem_rest_none.mp hpair
    rw [hkey, ← hrest, List.drop_left, hrest, hget]
  · intro hget
    refine ⟨(start ++ c.key, c.value), Data.mem_rest_none.mpr ⟨hget, List.prefix_append _ _⟩, ?_⟩
    simp [start]

theorem readable_iff : Readable scene schema ↔ (recordCandidates scene.view schema).all fun c =>
    (Candidate.row? scene.codec schema c).isSome := by
  rw [List.all_eq_true]
  simp only [mem_recordCandidates, Option.isSome_iff_exists, Candidate.row?_eq_some]
  constructor
  · rintro h ⟨pk, bytes⟩ hcurrent
    obtain ⟨doc, hdoc⟩ := h pk bytes hcurrent
    exact ⟨⟨pk, doc⟩, rfl, hdoc⟩
  · intro h pk bytes hget
    obtain ⟨row, -, hdecode⟩ := h ⟨pk, bytes⟩ hget
    exact ⟨row.doc, hdecode⟩

theorem mem_storedRows : row ∈ storedRows scene schema ↔ row.Stored scene schema := by
  simp only [storedRows, List.mem_filterMap, mem_recordCandidates, Candidate.row?_eq_some]
  constructor
  · rintro ⟨⟨key, value⟩, hcurrent, rfl, hdecode⟩
    exact ⟨value, hcurrent, hdecode⟩
  · rintro ⟨bytes, hget, hdecode⟩
    exact ⟨⟨row.key, bytes⟩, hget, rfl, hdecode⟩

theorem recordCandidates_pairwise (view : Data) (schema : Schema) :
    (recordCandidates view schema).Pairwise fun a b => a.key < b.key :=
  List.pairwise_map.mpr (Data.ascending_rest view (Key.recordPrefix schema.typeName) none)

theorem storedRows_pairwise (scene : Scene) (schema : Schema) :
    (storedRows scene schema).Pairwise fun a b => a.key < b.key := by
  refine (recordCandidates_pairwise scene.view schema).filterMap _ fun c c' hlt row hrow row' hrow' => ?_
  rwa [← (Candidate.row?_eq_some.mp hrow).1, ← (Candidate.row?_eq_some.mp hrow').1]

theorem map_row?_recordCandidates (hreadable : Readable scene schema) :
    (recordCandidates scene.view schema).map (Candidate.row? scene.codec schema) =
      (storedRows scene schema).map some := by
  have hsome : ∀ c ∈ recordCandidates scene.view schema,
      (Candidate.row? scene.codec schema c).isSome := List.all_eq_true.mp (readable_iff.mp hreadable)
  unfold storedRows
  generalize recordCandidates scene.view schema = candidates at hsome
  induction candidates with
  | nil => rfl
  | cons c rest ih =>
    obtain ⟨row, hrow⟩ := Option.isSome_iff_exists.mp (hsome c List.mem_cons_self)
    rw [List.map_cons, ih fun c' hc' => hsome c' (List.mem_cons_of_mem _ hc')]
    simp only [List.filterMap_cons, hrow, List.map_cons]

-- ---------------------------------------------------------------------------
-- Passes over all records
-- ---------------------------------------------------------------------------

def verdict (scene : Scene) (schema : Schema) (trail : Trail) (b : Query Test) (row : Row) :
    Except Failure Bool :=
  (Evaluation.clausesHold scene schema row b.clauses trail).1

def missing (found rows : List Row) : List Row :=
  rows.filter fun row => !(found.map Row.key).contains row.key

/-- A search that has skipped nothing and has handed on all it has found. -/
structure Plain (s : Sweep (List Row)) : Prop where
  skip : s.skip = 0
  seen : s.seen = s.acc.map Row.key

theorem Plain.onward {s : Sweep (List Row)} (h : Plain s) (trail : Trail) :
    Plain { s with trail } :=
  ⟨h.skip, h.seen⟩

variable {s : Sweep (List Row)}

theorem missing_cons_of_mem {found rows : List Row} (h : row.key ∈ found.map Row.key) :
    missing found (row :: rows) = missing found rows := by
  have hcontains : (found.map Row.key).contains row.key = true := List.contains_iff_mem.mpr h
  simp only [missing, List.filter_cons, hcontains, Bool.not_true, Bool.false_eq_true, if_false]

theorem missing_cons_of_not_mem {found rows : List Row} (h : row.key ∉ found.map Row.key) :
    missing found (row :: rows) = row :: missing found rows := by
  have hcontains : (found.map Row.key).contains row.key = false :=
    Bool.eq_false_iff.mpr fun hmem => h (List.contains_iff_mem.mp hmem)
  simp only [missing, List.filter_cons, hcontains, Bool.not_false, if_true]

theorem missing_found {found rows : List Row} (h : ∀ other ∈ rows, row.key ≠ other.key) :
    missing (row :: found) rows = missing found rows := by
  refine List.filter_congr fun other hother => ?_
  simp [(h other hother).symm]

theorem missing_append (found found' rows : List Row) :
    missing (found ++ found') rows = missing found (missing found' rows) := by
  simp only [missing, List.filter_filter, List.map_append, List.contains_append, Bool.not_or]

/-- What becomes of the rows found when one more is considered. -/
inductive Considered (test : Row → Except Failure Bool) (row : Row) (acc : List Row) :
    List Row → Prop where
  | again (hseen : row.key ∈ acc.map Row.key) : Considered test row acc acc
  | refused (hnew : row.key ∉ acc.map Row.key) (htest : test row = .ok false) :
      Considered test row acc acc
  | found (hnew : row.key ∉ acc.map Row.key) (htest : test row = .ok true) :
      Considered test row acc (row :: acc)

section Considered

variable {test : Row → Except Failure Bool} {acc acc' rest kept left : List Row}

theorem Considered.sift_ok (h : Considered test row acc acc')
    (hrest : ∀ other ∈ rest, row.key ≠ other.key)
    (hsift : sift test (missing acc' rest) = .ok (kept, left)) :
    ∃ kept' left', sift test (missing acc (row :: rest)) = .ok (kept', left') ∧
      kept'.reverse ++ acc = kept.reverse ++ acc' := by
  cases h with
  | again hseen => exact ⟨kept, left, by rwa [missing_cons_of_mem hseen], rfl⟩
  | refused hnew htest =>
    exact ⟨kept, row :: left, by simp only [missing_cons_of_not_mem hnew, sift, htest, hsift], rfl⟩
  | found hnew htest =>
    rw [missing_found hrest] at hsift
    refine ⟨row :: kept, left, ?_, by simp⟩
    simp only [missing_cons_of_not_mem hnew, sift, htest, hsift]

theorem Considered.sift_error {e : Failure} (h : Considered test row acc acc')
    (hrest : ∀ other ∈ rest, row.key ≠ other.key)
    (hsift : sift test (missing acc' rest) = .error e) :
    sift test (missing acc (row :: rest)) = .error e := by
  cases h with
  | again hseen => rwa [missing_cons_of_mem hseen]
  | refused hnew htest => simp only [missing_cons_of_not_mem hnew, sift, htest, hsift]
  | found hnew htest =>
    rw [missing_found hrest] at hsift
    simp only [missing_cons_of_not_mem hnew, sift, htest, hsift]

end Considered

/-- A part of the search goes on as sifting the missing rows does: what is kept is found in this
order, or both fail. -/
def Sifts (test : Row → Except Failure Bool) (rows : List Row) (s : Sweep (List Row))
    (w : Sweeping (List Row) Unit) : Prop :=
  Triple w s
    (fun _ s' => Plain s' ∧ ∃ kept left, sift test (missing s.acc rows) = .ok (kept, left) ∧
      s'.acc = kept.reverse ++ s.acc)
    (fun _ => ∃ e, sift test (missing s.acc rows) = .error e)

theorem Plain.agree {s' : Sweep (List Row)} (h : Plain s') (hagree : s.Agree s') : Plain s where
  skip := hagree.skip.trans h.skip
  seen := by rw [hagree.seen, hagree.acc, h.seen]

section Branch

variable (trail : Trail) (hsteady : ∀ c ∈ q.clauses, c.Steady)
include hsteady

theorem clausesHold_verdict (row : Row) (trail' : Trail) :
    ∃ last, Evaluation.clausesHold scene schema row q.clauses trail' =
      (verdict scene schema trail q row, last) :=
  ⟨(Evaluation.clausesHold scene schema row q.clauses trail').2,
    Prod.ext ((clausesHold_steady hsteady row).answer trail' trail) rfl⟩

theorem consider_verdict {c : Candidate} {fail : Sweep (List Row) → Prop}
    (hrow : Candidate.row? scene.codec schema c = some row) (h : Plain s)
    (hfail : row.key ∉ s.acc.map Row.key → ∀ e, verdict scene schema trail q row = .error e →
      ∀ s', fail s') :
    Triple (consider scene schema collector q c) s
      (fun _ s' => Plain s' ∧ Considered (verdict scene schema trail q) row s.acc s'.acc) fail := by
  obtain ⟨hkey, hdecode⟩ := Candidate.row?_eq_some.mp hrow
  obtain ⟨last, hlast⟩ : ∃ last, Evaluation.clausesHold scene schema row q.clauses s.trail =
      (verdict scene schema trail q row, last) := clausesHold_verdict trail hsteady row s.trail
  unfold Triple
  rw [consider_run, hdecode, hkey, h.seen]
  by_cases hseen : row.key ∈ s.acc.map Row.key
  · rw [if_pos (List.contains_iff_mem.mpr hseen)]
    exact ⟨h, .again hseen⟩
  · have hnew : ¬ (s.acc.map Row.key).contains row.key = true := fun hmem =>
      hseen (List.contains_iff_mem.mp hmem)
    simp only [if_neg hnew, hlast]
    cases htest : verdict scene schema trail q row with
    | error e => exact hfail hseen e htest _
    | ok holds =>
      cases holds with
      | false => exact ⟨⟨h.skip, rfl⟩, .refused hseen htest⟩
      | true =>
        simp only [accept_run, h.skip, if_true, collector]
        exact ⟨⟨rfl, rfl⟩, .found hseen htest⟩

theorem considerAll_sifts {left : List Candidate} {rows : List Row}
    (hrows : left.map (Candidate.row? scene.codec schema) = rows.map some)
    (hdistinct : rows.Pairwise fun a b => a.key ≠ b.key) (h : Plain s) :
    Sifts (verdict scene schema trail q) rows s
      (considerAll scene schema collector none q (halt none) left) := by
  induction left generalizing s rows with
  | nil =>
    cases rows with
    | nil => exact Triple.bind_of_run (isFull_run s) (Triple.pure ⟨h, [], [], rfl, rfl⟩)
    | cons row rest => cases hrows
  | cons c left ih =>
    cases rows with
    | nil => cases hrows
    | cons row rest =>
      obtain ⟨hrow, hrest⟩ := List.cons.inj hrows
      obtain ⟨hother, hdistinct⟩ := List.pairwise_cons.mp hdistinct
      refine Triple.bind_of_run (isFull_run s) ?_
      refine Triple.bind (consider_verdict trail hsteady hrow h fun hnew e htest _ => ?_) ?_
      · exact ⟨e, by simp only [missing_cons_of_not_mem hnew, sift, htest]⟩
      · rintro - s' ⟨h', hconsidered⟩
        refine (ih hrest hdistinct h').mono ?_ ?_
        · rintro - s'' ⟨h'', kept, left, hsift, hacc⟩
          obtain ⟨kept', left', hsift', hacc'⟩ := hconsidered.sift_ok hother hsift
          exact ⟨h'', kept', left', hsift', hacc.trans hacc'.symm⟩
        · rintro - ⟨e, hsift⟩
          exact ⟨e, hconsidered.sift_error hother hsift⟩

theorem scan_sifts (hreadable : Readable scene schema) (h : Plain s) :
    Sifts (verdict scene schema trail q) (storedRows scene schema) s
      (scan scene schema collector none q (.records schema.typeName) none) := by
  let cursor : Cursor Failure := ⟨.records schema.typeName, scene.batchSize, none, .ofEngine⟩
  have hfound : (cursor.candidates scene.codec scene.view
      (scene.view.rest cursor.source.start none)).1 = .ok (recordCandidates scene.view schema) := rfl
  have hdistinct : (storedRows scene schema).Pairwise fun a b => a.key ≠ b.key :=
    (storedRows_pairwise scene schema).imp fun {a b} hlt heq => by
      rw [heq] at hlt
      exact List.lt_irrefl _ hlt
  have hsifts : Sifts (verdict scene schema trail q) (storedRows scene schema) s
      (considerAll scene schema collector none q (halt none) (recordCandidates scene.view schema)) :=
    considerAll_sifts trail hsteady (map_row?_recordCandidates hreadable) hdistinct h
  refine (scan_considers hsteady (Cursor.yields_start hfound)).triple hsifts ?_ fun _ _ _ hfailed =>
    hfailed
  rintro - s' s'' hagree ⟨h', kept, left, hsift, hacc⟩
  exact ⟨h'.agree hagree, kept, left, hsift, hagree.acc.trans hacc⟩

theorem pass_sifts (hreadable : Readable scene schema)
    (hplan : Plan.make scene.codec schema q = .ok .recordScan) (h : Plain s) :
    Sifts (verdict scene schema trail q) (storedRows scene schema) s
      (pass scene schema collector none q) := by
  have hmake : (Sweeping.ofExec (Exec.ofExcept (Plan.make scene.codec schema q)) :
      Sweeping (List Row) Plan) s = (.ok .recordScan, s) := by
    rw [hplan]
    rfl
  refine Triple.bind_of_run hmake (Triple.bind_of_run rfl ?_)
  exact scan_sifts trail hsteady hreadable (h.onward _)

end Branch

theorem missing_sifted {test : Row → Except Failure Bool} {acc kept left : List Row}
    (h : sift test (missing acc (storedRows scene schema)) = .ok (kept, left)) :
    missing (kept.reverse ++ acc) (storedRows scene schema) = left := by
  obtain ⟨-, rfl, rfl⟩ := sift_ok h
  rw [missing_append]
  refine List.filter_congr fun row hrow => ?_
  have hstored {row : Row} (hrow : row ∈ missing acc (storedRows scene schema)) :
      row.Stored scene schema := mem_storedRows.mp (List.mem_of_mem_filter hrow)
  congr 1
  rw [Bool.eq_iff_iff, List.contains_iff_mem, List.map_reverse, List.mem_reverse, List.mem_map]
  constructor
  · rintro ⟨other, hother, hkey⟩
    obtain ⟨hother, haccepted⟩ := List.mem_filter.mp hother
    rwa [← (hstored hother).unique (hstored hrow) hkey]
  · exact fun haccepted => ⟨row, List.mem_filter.mpr ⟨hrow, haccepted⟩, rfl⟩

theorem passEach_sifts (hreadable : Readable scene schema) (trail : Trail)
    {branches : List (Query Test)} (hsteady : ∀ b ∈ branches, ∀ c ∈ b.clauses, c.Steady)
    (hplan : ∀ b ∈ branches, Plan.make scene.codec schema b = .ok .recordScan) (h : Plain s) :
    let tests := branches.map (verdict scene schema trail)
    Triple (passEach scene schema collector none branches) s
      (fun _ s' => ∃ out, siftEach tests (missing s.acc (storedRows scene schema)) = .ok out ∧
        s'.acc = out.reverse ++ s.acc)
      (fun _ => ∃ e, siftEach tests (missing s.acc (storedRows scene schema)) = .error e) := by
  induction branches generalizing s with
  | nil => exact Triple.pure ⟨[], rfl, rfl⟩
  | cons b rest ih =>
    refine Triple.bind_of_run (isFull_run s) ?_
    have hpass : Sifts (verdict scene schema trail b) (storedRows scene schema) s
        (pass scene schema collector none b) :=
      pass_sifts trail (hsteady b List.mem_cons_self) hreadable (hplan b List.mem_cons_self) h
    refine Triple.bind (hpass.mono (fun _ _ hs' => hs') ?_) ?_
    · rintro - ⟨e, hsift⟩
      exact ⟨e, by simp only [List.map_cons, siftEach, hsift]⟩
    · rintro - s' ⟨h', kept, left, hsift, hacc⟩
      have hrest := ih (fun b' hb' => hsteady b' (List.mem_cons_of_mem _ hb'))
        (fun b' hb' => hplan b' (List.mem_cons_of_mem _ hb')) h'
      rw [hacc, missing_sifted hsift] at hrest
      refine hrest.mono ?_ ?_
      · rintro - s'' ⟨out, hout, hacc'⟩
        refine ⟨kept ++ out, by simp only [List.map_cons, siftEach, hsift, hout, Except.map], ?_⟩
        rw [hacc', List.reverse_append, List.append_assoc]
      · rintro - ⟨e, hout⟩
        exact ⟨e, by simp only [List.map_cons, siftEach, hsift, hout, Except.map]⟩

-- ---------------------------------------------------------------------------
-- Whole queries
-- ---------------------------------------------------------------------------

theorem matchesQuery_eq (hsteady : q.Steady) (row : Row) (trail : Trail) :
    (Evaluation.matchesQuery scene schema q row trail).1 =
      anyAccepts (q.branches.map (verdict scene schema trail)) row := by
  unfold Query.Steady at hsteady
  -- Later branches are tested at another point, where they say the same.
  have hall : ∀ trail', (Evaluation.anyBranchHolds scene schema row q.branches trail').1 =
      anyAccepts (q.branches.map (verdict scene schema trail)) row := by
    generalize q.branches = branches at hsteady
    induction branches with
    | nil => exact fun _ => rfl
    | cons b rest ih =>
      intro trail'
      obtain ⟨last, hlast⟩ : ∃ last, Evaluation.clausesHold scene schema row b.clauses trail' =
          (verdict scene schema trail b row, last) :=
        clausesHold_verdict trail (hsteady b List.mem_cons_self) row trail'
      simp only [Evaluation.anyBranchHolds, run_bind, hlast, List.map_cons, anyAccepts]
      cases verdict scene schema trail b row with
      | error e => rfl
      | ok holds =>
        cases holds with
        | true => rfl
        | false => exact ih (fun b' hb' => hsteady b' (List.mem_cons_of_mem _ hb')) last
  exact hall trail

theorem make_unindexed (codec : Codec) (hindexes : schema.indexes = []) (hname : q.indexName = none) :
    Plan.make codec schema q = .ok .recordScan := by
  have hfor : Plan.indexFor schema q = .ok none := by
    unfold Plan.indexFor
    rw [hname]
    cases q.onlyField? with
    | none => rfl
    | some field => simp [Schema.indexOn, hindexes]
  simp only [Plan.make, hfor, bind, Except.bind]
  rfl

/-- A valid query that leaves open how its rows are found, ordered and counted off. -/
structure Bare (q : Query Test) : Prop where
  valid : q.validate = .ok ()
  unsorted : q.sortFields = []
  unskipped : q.skip = none
  unlimited : q.limit = none
  unnamed : ∀ b ∈ q.branches, b.indexName = none

/-- A search through records without indexes comes to sifting them, branch by branch. -/
theorem findRows_sifts (hindexes : schema.indexes = []) (hreadable : Readable scene schema)
    (hsteady : q.Steady) (hq : Bare q) (trail : Trail) :
    let tests := q.branches.map (verdict scene schema trail)
    match (findRows scene schema q trail).1 with
    | .ok rows => siftEach tests (storedRows scene schema) = .ok rows
    | .error _ => ∃ e, siftEach tests (storedRows scene schema) = .error e := by
  have hfirst : Plain (⟨trail, [], q.skipCount, 0, []⟩ : Sweep (List Row)) :=
    ⟨by simp [Query.skipCount, hq.unskipped], rfl⟩
  have hpasses := passEach_sifts hreadable trail hsteady
    (fun b hb => make_unindexed scene.codec hindexes (hq.unnamed b hb)) hfirst
  have hall : missing [] (storedRows scene schema) = storedRows scene schema := by simp [missing]
  rw [← passAll_eq, hall] at hpasses
  unfold Triple at hpasses
  simp only [findRows, walk, hq.valid, hq.unsorted, List.isEmpty_nil, if_true, sweep, hq.unlimited]
  split at hpasses
  · rename_i last hrun
    obtain ⟨out, hout, hacc⟩ := hpasses
    simp only [hrun, Except.map, hacc, hout, List.append_nil, List.reverse_reverse]
  · rename_i hrun
    simpa only [hrun, Except.map] using hpasses

/-- Without indexes a search succeeds if and only if testing each record by itself does. Its rows are
then the records that match, each of them once: first those that the first branch accepts, then
those that the second one accepts, and so on, each time in the order of their keys. -/
theorem findRows_by_branch (hindexes : schema.indexes = []) (hreadable : Readable scene schema)
    (q : Query Predicate) (hq : Bare (q.ready scene)) (trail : Trail) :
    let found := (findRows scene schema (q.ready scene) trail).1
    let test (row : Row) := (Evaluation.matchesQuery scene schema (q.ready scene) row trail).1
    let branch := firstAccepting ((q.ready scene).branches.map (verdict scene schema trail))
    ((∃ rows, found = .ok rows) ↔
        ∀ row : Row, row.Stored scene schema → ∃ holds, test row = .ok holds) ∧
      ∀ rows, found = .ok rows →
        (∀ row, row ∈ rows ↔ row.Stored scene schema ∧ test row = .ok true) ∧
        (rows.map Row.key).Nodup ∧
        rows.Pairwise fun a b => branch a < branch b ∨ branch a = branch b ∧ a.key < b.key := by
  intro found test branch
  have hsteady : (q.ready scene).Steady := q.ready_steady scene
  have htest : ∀ row, test row =
      anyAccepts ((q.ready scene).branches.map (verdict scene schema trail)) row :=
    fun row => matchesQuery_eq hsteady row trail
  have hsifts := findRows_sifts hindexes hreadable hsteady hq trail
  simp only [htest, ← mem_storedRows]
  refine ⟨?_, fun rows hrows => ?_⟩
  · rw [← siftEach_ok_iff]
    cases hfound : found with
    | ok rows =>
      simp only [found] at hfound
      rw [hfound] at hsifts
      exact ⟨fun _ => ⟨rows, hsifts⟩, fun _ => ⟨rows, rfl⟩⟩
    | error e =>
      simp only [found] at hfound
      rw [hfound] at hsifts
      obtain ⟨e, he⟩ := hsifts
      simp only [he, reduceCtorEq, exists_false]
  · simp only [found] at hrows
    rw [hrows] at hsifts
    have hordered := siftEach_pairwise (storedRows_pairwise scene schema) hsifts
    refine ⟨fun row => mem_siftEach hsifts, ?_, hordered⟩
    refine List.pairwise_map.mpr (hordered.imp_of_mem fun {a b} ha hb hbefore hkey => ?_)
    have hsame : a = b := (mem_storedRows.mp ((mem_siftEach hsifts).mp ha).1).unique
      (mem_storedRows.mp ((mem_siftEach hsifts).mp hb).1) hkey
    subst hsame
    simp only [Nat.lt_irrefl, List.lt_irrefl, and_false, or_self] at hbefore

def unshelvedSchema : Schema := { Turn.bookSchema with indexes := [] }

theorem findRows_by_branch_books :
    let anyBook := anyBook.ready shelved
    unshelvedSchema.indexes = [] ∧ Readable shelved unshelvedSchema ∧ Bare anyBook ∧
      ((∃ rows, (findRows shelved unshelvedSchema anyBook ⟨[], [], .start⟩).1 = .ok rows) ↔
        ∀ row : Row, row.Stored shelved unshelvedSchema → ∃ holds,
          (Evaluation.matchesQuery shelved unshelvedSchema anyBook row ⟨[], [], .start⟩).1 =
            .ok holds) := by
  have hreadable : Readable shelved unshelvedSchema := readable_iff.mpr (by decide +kernel)
  have hbare : Bare (anyBook.ready shelved) := by
    refine ⟨by decide +kernel, rfl, rfl, rfl, fun b hb => ?_⟩
    rcases branches_anyBook hb with rfl | rfl | rfl <;> rfl
  exact ⟨rfl, hreadable, hbare, (findRows_by_branch rfl hreadable anyBook hbare _).1⟩

-- The second book stands on the shelf that the first branch asks for.
example :
    (findRows shelved unshelvedSchema (anyBook.ready shelved) ⟨[], [], .start⟩).1.toOption.map
        (List.map Row.key) = some [(shelvedRow 2 2 "b").key, (shelvedRow 1 1 "a").key] := by
  decide +kernel

end Search

end DocStore
