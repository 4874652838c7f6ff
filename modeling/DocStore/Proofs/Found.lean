import Mathlib.Data.List.TakeWhile
import DocStore.Proofs.Drains
import DocStore.Proofs.Steady
import DocStore.Records

/-!
# What a search finds

Every row of a search is a stored record that the search has read, and no record is found twice
(`findRows_found`). This holds for any view, and whatever the tests do in between; so work that goes
on to change the rows it has found changes each of them once, and notices if they change meanwhile.
-/

namespace DocStore

variable {codec : Codec} {view : Data} {schema : Schema} {reads reads' : List Bytes}

theorem Data.mem_of_mem_page {start : Bytes} {after : Option Bytes} {limit : Nat}
    {pair : Bytes × Bytes} (h : pair ∈ view.page start after limit) :
    view.get? pair.1 = some pair.2 ∧ start <+: pair.1 := by
  have hmem := List.mem_of_mem_take h
  constructor
  · rw [Table.get?_eq_some_iff]
    exact (List.dropWhile_sublist _).subset ((List.takeWhile_sublist _).subset hmem)
  · have hprefix : start.isPrefixOf pair.1 = true := by
      simpa using List.mem_takeWhile_imp hmem
    exact List.isPrefixOf_iff_prefix.mp hprefix

theorem Data.mem_of_mem_scan {start : Bytes} {pair : Bytes × Bytes} (h : pair ∈ view.scan start) :
    view.get? pair.1 = some pair.2 ∧ start <+: pair.1 := by
  constructor
  · rw [Table.get?_eq_some_iff]
    exact (List.dropWhile_sublist _).subset ((List.takeWhile_sublist _).subset h)
  · have hprefix : start.isPrefixOf pair.1 = true := by
      simpa using List.mem_takeWhile_imp h
    exact List.isPrefixOf_iff_prefix.mp hprefix

-- ---------------------------------------------------------------------------
-- Candidates
-- ---------------------------------------------------------------------------

structure Candidate.Fetched (view : Data) (schema : Schema) (reads : List Bytes)
    (c : Candidate) : Prop where
  stored : view.get? (Records.recordKey schema c.key) = some c.value
  read : Records.recordKey schema c.key ∈ reads

theorem Candidate.Fetched.mono {c : Candidate} (h : c.Fetched view schema reads)
    (hreads : ∀ key ∈ reads, key ∈ reads') : c.Fetched view schema reads' :=
  ⟨h.stored, hreads _ h.read⟩

namespace Cursor

variable {ε : Type} {c : Cursor ε}

theorem withRecords_fetched (hsource : c.source.typeName = schema.typeName) {keys : List Bytes}
    (hreads : ∀ key ∈ keys, c.recordKey key ∈ reads) {found : List Candidate}
    (h : c.withRecords view keys = .ok found) :
    ∀ candidate ∈ found, candidate.Fetched view schema reads := by
  induction keys generalizing found with
  | nil =>
    cases h
    simp
  | cons key rest ih =>
    have hkey : Records.recordKey schema key = c.recordKey key := by
      rw [recordKey, hsource]
      rfl
    obtain ⟨value, more, hvalue, hmore, rfl⟩ := withRecords_cons_ok h
    intro candidate hmem
    rcases List.mem_cons.mp hmem with rfl | hmem
    · exact ⟨hkey ▸ hvalue, hkey ▸ hreads key List.mem_cons_self⟩
    · exact ih (fun key hkey => hreads key (List.mem_cons_of_mem _ hkey)) hmore candidate hmem

theorem candidates_fetched (hsource : c.source.typeName = schema.typeName) {after : Option Bytes}
    {limit : Nat} {found : List Candidate}
    (hpage : ∀ pair ∈ view.page c.source.start after limit, pair.1 ∈ reads)
    (hreads : ∀ key ∈ (c.candidates codec view (view.page c.source.start after limit)).2,
      key ∈ reads)
    (h : (c.candidates codec view (view.page c.source.start after limit)).1 = .ok found) :
    ∀ candidate ∈ found, candidate.Fetched view schema reads := by
  cases hkind : c.source with
  | records typeName =>
    have hname : typeName = schema.typeName := by rw [← hsource, hkind, Source.typeName]
    simp only [candidates, hkind, Except.ok.injEq] at h
    subst h
    intro candidate hmem
    obtain ⟨⟨key, value⟩, hpair, rfl⟩ := List.mem_map.mp hmem
    have hread := hpage (key, value) (by rw [hkind]; exact hpair)
    obtain ⟨hstored, rest, rfl⟩ := Data.mem_of_mem_page hpair
    have hkey : Records.recordKey schema rest = (Source.records typeName).start ++ rest := by
      rw [hname]
      rfl
    simp only [List.drop_left]
    exact ⟨by rw [hkey]; exact hstored, by rw [hkey]; exact hread⟩
  | index typeName indexName =>
    rw [hkind] at hpage hreads h
    simp only [candidates, hkind] at hreads h
    split at h
    · cases h
    · rename_i keys hkeys
      simp only [hkeys] at hreads
      exact withRecords_fetched hsource (fun key hkey => hreads _ (List.mem_map_of_mem hkey)) h

theorem fill_fetched (hsource : c.source.typeName = schema.typeName) {b filled : Bookmark}
    (hbatch : ∀ candidate ∈ b.batch, candidate.Fetched view schema reads)
    (hreads : ∀ key ∈ (c.fill codec view b).2, key ∈ reads)
    (h : (c.fill codec view b).1 = .ok filled) :
    ∀ candidate ∈ filled.batch, candidate.Fetched view schema reads := by
  simp only [fill] at h hreads
  cases hfound : (c.candidates codec view (view.page c.source.start b.seek c.pageSize)).1 with
  | error e => simp [hfound, Except.map] at h
  | ok found =>
    simp only [hfound, Except.map, Except.ok.injEq] at h
    subst h
    intro candidate hmem
    rcases List.mem_append.mp hmem with hmem | hmem
    · exact hbatch candidate hmem
    · exact candidates_fetched hsource
        (fun pair hpair => hreads _ (List.mem_append_left _ (List.mem_map_of_mem hpair)))
        (fun key hkey => hreads _ (List.mem_append_right _ hkey)) hfound candidate hmem

/-- What a cursor hands out has been fetched, and so has what its bookmark holds. -/
theorem nextWith_fetched (hsource : c.source.typeName = schema.typeName) (fuel : Nat)
    {b : Bookmark} (hbatch : ∀ candidate ∈ b.batch, candidate.Fetched view schema reads)
    (hreads : ∀ key ∈ (c.nextWith codec view fuel b).2.2, key ∈ reads) :
    (∀ candidate, (c.nextWith codec view fuel b).1 = .ok (some candidate) →
        candidate.Fetched view schema reads) ∧
      ∀ candidate ∈ (c.nextWith codec view fuel b).2.1.batch,
        candidate.Fetched view schema reads := by
  induction fuel generalizing b with
  | zero =>
    refine ⟨fun _ h => ?_, hbatch⟩
    cases h
  | succ fuel ih =>
    obtain ⟨batch, seek, exhausted⟩ := b
    cases batch with
    | cons candidate rest =>
      refine ⟨fun other hother => ?_, fun other hother => ?_⟩
      · cases hother
        exact hbatch candidate List.mem_cons_self
      · exact hbatch other (List.mem_cons_of_mem _ hother)
    | nil =>
      simp only [nextWith] at hreads ⊢
      cases exhausted with
      | true =>
        refine ⟨fun _ h => ?_, fun _ h => ?_⟩ <;> cases h
      | false =>
        simp only [Bool.false_eq_true, if_false] at hreads ⊢
        rcases hfill : c.fill codec view ⟨[], seek, false⟩ with ⟨_ | filled, more⟩
        · refine ⟨fun _ h => ?_, fun _ h => ?_⟩ <;> cases h
        · simp only [hfill] at hreads ⊢
          refine ih (fill_fetched hsource hbatch ?_ (by rw [hfill])) fun key hkey =>
            hreads key (List.mem_append_right _ hkey)
          rw [hfill]
          exact fun key hkey => hreads key (List.mem_append_left _ hkey)

theorem next_fetched (hsource : c.source.typeName = schema.typeName) {b : Bookmark}
    (hbatch : ∀ candidate ∈ b.batch, candidate.Fetched view schema reads)
    (hreads : ∀ key ∈ (c.next codec view b).2.2, key ∈ reads) :
    (∀ candidate, (c.next codec view b).1 = .ok (some candidate) →
        candidate.Fetched view schema reads) ∧
      ∀ candidate ∈ (c.next codec view b).2.1.batch, candidate.Fetched view schema reads :=
  nextWith_fetched hsource _ hbatch hreads

end Cursor

-- ---------------------------------------------------------------------------
-- Rows
-- ---------------------------------------------------------------------------

/-- The row is a stored record as a search reads it, with its key field set. -/
def Row.Stored (scene : Scene) (schema : Schema) (row : Row) : Prop :=
  ∃ bytes, scene.view.get? (Records.recordKey schema row.key) = some bytes ∧
    Search.decodeRecord scene.codec schema row.key bytes = .ok row.doc

structure Row.Found (scene : Scene) (schema : Schema) (reads : List Bytes) (row : Row) : Prop where
  stored : row.Stored scene schema
  read : Records.recordKey schema row.key ∈ reads

theorem Row.Found.mono {scene : Scene} {row : Row} (h : row.Found scene schema reads)
    (hreads : ∀ key ∈ reads, key ∈ reads') : row.Found scene schema reads' :=
  ⟨h.stored, hreads _ h.read⟩

def Row.PassedBy (scene : Scene) (schema : Schema) (branches : List (Query Test)) (row : Row) : Prop :=
  ∃ b ∈ branches, ∃ trail, (Evaluation.clausesHold scene schema row b.clauses trail).1 = .ok true

namespace Search

/-- What a search that collects rows has gathered so far: found records that a branch has let pass, each
of them once. -/
structure Gathered (scene : Scene) (schema : Schema) (branches : List (Query Test))
    (s : Sweep (List Row)) : Prop where
  found : ∀ row ∈ s.acc, row.Found scene schema s.trail.reads
  passed : ∀ row ∈ s.acc, row.PassedBy scene schema branches
  seen : ∀ row ∈ s.acc, row.key ∈ s.seen
  distinct : (s.acc.map Row.key).Nodup

variable {scene : Scene} {limit : Option Nat} {q : Query Test} {branches : List (Query Test)}
  {s s' : Sweep (List Row)}

theorem Gathered.onward (h : Gathered scene schema branches s) {trail : Trail}
    (hreads : s.trail.reads <:+ trail.reads) : Gathered scene schema branches { s with trail } :=
  ⟨fun row hrow => (h.found row hrow).mono fun _ hkey => hreads.subset hkey, h.passed, h.seen, h.distinct⟩

theorem Gathered.accept (h : Gathered scene schema branches s) {row : Row}
    (hfound : row.Found scene schema s.trail.reads) (hpassed : row.PassedBy scene schema branches)
    (hnew : row.key ∉ s.seen) :
    Gathered scene schema branches (Search.accept collector row s).2 := by
  rw [accept_run]
  split
  · refine ⟨fun other hother => ?_, fun other hother => ?_, fun other hother => ?_, ?_⟩
    · rcases List.mem_cons.mp hother with rfl | hother
      · exact hfound
      · exact h.found other hother
    · rcases List.mem_cons.mp hother with rfl | hother
      · exact hpassed
      · exact h.passed other hother
    · rcases List.mem_cons.mp hother with rfl | hother
      · exact List.mem_cons_self
      · exact List.mem_cons_of_mem _ (h.seen other hother)
    · refine List.nodup_cons.mpr ⟨fun hmem => ?_, h.distinct⟩
      obtain ⟨other, hother, heq⟩ := List.mem_map.mp hmem
      exact hnew (heq ▸ h.seen other hother)
  · exact ⟨h.found, h.passed, fun other hother => List.mem_cons_of_mem _ (h.seen other hother), h.distinct⟩

variable (hbranch : q ∈ branches) (hq : ∀ c ∈ q.clauses, c.Steady)
include hbranch hq

theorem Gathered.consider (h : Gathered scene schema branches s) {candidate : Candidate}
    (hfetched : candidate.Fetched scene.view schema s.trail.reads) :
    Gathered scene schema branches (Search.consider scene schema collector q candidate s).2 := by
  rw [consider_run]
  split
  · exact h
  · rename_i hnew
    cases hdecode : decodeRecord scene.codec schema candidate.key candidate.value with
    | error e => exact h
    | ok doc =>
      dsimp only
      have hsteady : Steady (Evaluation.clausesHold scene schema ⟨candidate.key, doc⟩ q.clauses) :=
        clausesHold_steady hq _
      have hreads := hsteady.reads s.trail
      rcases hrun : Evaluation.clausesHold scene schema ⟨candidate.key, doc⟩ q.clauses s.trail with
        ⟨_ | _ | _, trail⟩
      all_goals rw [hrun] at hreads
      · exact h.onward hreads
      · exact h.onward hreads
      · have hrow : Row.Found scene schema trail.reads ⟨candidate.key, doc⟩ :=
          ⟨⟨candidate.value, hfetched.stored, hdecode⟩, hreads.subset hfetched.read⟩
        have hpassed : Row.PassedBy scene schema branches ⟨candidate.key, doc⟩ :=
          ⟨q, hbranch, s.trail, by rw [hrun]⟩
        exact (h.onward hreads).accept hrow hpassed (by simpa using hnew)

structure GoneOn (scene : Scene) (schema : Schema) (branches : List (Query Test))
    (s s' : Sweep (List Row)) : Prop where
  gathered : Gathered scene schema branches s'
  reads : s.trail.reads <:+ s'.trail.reads
  bookmark : s'.trail.bookmark = s.trail.bookmark

theorem consider_gathers (h : Gathered scene schema branches s) {candidate : Candidate}
    (hfetched : candidate.Fetched scene.view schema s.trail.reads) :
    Triple (Search.consider scene schema collector q candidate) s
      (fun _ s' => GoneOn scene schema branches s s') (fun _ => True) := by
  have hsteady : (Search.consider scene schema collector q candidate).Steady :=
    consider_steady hq candidate
  have hgathered := h.consider hbranch hq hfetched
  have hreads := hsteady.reads s
  have hbookmark := hsteady.bookmark s
  rcases hrun : Search.consider scene schema collector q candidate s with ⟨_ | _, last⟩
  · exact Triple.of_run_error hrun trivial
  · rw [hrun] at hgathered hreads hbookmark
    exact Triple.of_run hrun ⟨hgathered, hreads, hbookmark⟩

theorem considerEach_gathers (h : Gathered scene schema branches s) (spec : IndexSpec)
    {found : List (Bytes × Option Bytes)}
    (hfound : ∀ key value, (key, some value) ∈ found →
      Candidate.Fetched scene.view schema s.trail.reads ⟨key, value⟩) :
    Triple (considerEach scene schema collector limit q spec found) s
      (fun _ s' => Gathered scene schema branches s') (fun _ => True) := by
  induction found generalizing s with
  | nil => exact Triple.pure h
  | cons pair rest ih =>
    obtain ⟨key, value⟩ := pair
    refine Triple.bind_of_run (isFull_run s) ?_
    split
    · exact Triple.pure h
    · cases value with
      | none => exact Triple.throw trivial
      | some value =>
        refine Triple.bind (consider_gathers hbranch hq h (hfound key value List.mem_cons_self)) ?_
        intro _ s' hs'
        refine ih hs'.gathered fun key value hmem => ?_
        exact (hfound key value (List.mem_cons_of_mem _ hmem)).mono fun _ hkey =>
          hs'.reads.subset hkey

theorem considerDrawn_gathers {cursor : Cursor Failure}
    (hsource : cursor.source.typeName = schema.typeName) (fuel : Nat)
    (h : Gathered scene schema branches s)
    (hbatch : ∀ c ∈ s.trail.bookmark.batch, c.Fetched scene.view schema s.trail.reads) :
    Triple (considerDrawn scene schema collector limit q cursor fuel) s
      (fun _ s' => Gathered scene schema branches s') (fun _ => True) := by
  induction fuel generalizing s with
  | zero => exact Triple.pure h
  | succ fuel ih =>
    refine Triple.bind_of_run (isFull_run s) ?_
    split
    · exact Triple.pure h
    · rcases hnext : cursor.next scene.codec scene.view s.trail.bookmark with
        ⟨result, bookmark, reads⟩
      have hdraw : Sweeping.draw scene cursor s = (result, { s with
          trail := { s.trail with bookmark, reads := reads.reverse ++ s.trail.reads } }) := by
        simp only [Sweeping.draw, hnext]
      have honward : Gathered scene schema branches { s with
          trail := { s.trail with bookmark, reads := reads.reverse ++ s.trail.reads } } :=
        h.onward (List.suffix_append _ _)
      have hread : ∀ key ∈ (cursor.next scene.codec scene.view s.trail.bookmark).2.2,
          key ∈ reads.reverse ++ s.trail.reads := by
        rw [hnext]
        exact fun key hkey => List.mem_append_left _ (List.mem_reverse.mpr hkey)
      have hfetched := Cursor.next_fetched hsource
        (fun c hc => (hbatch c hc).mono fun _ hkey => List.mem_append_right _ hkey) hread
      rw [hnext] at hfetched
      cases result with
      | error e => exact Triple.of_run_error (by rw [run_bind, hdraw]) trivial
      | ok drawn =>
        refine Triple.bind_of_run hdraw ?_
        cases drawn with
        | none => exact Triple.pure honward
        | some candidate =>
          refine Triple.bind (consider_gathers hbranch hq honward (hfetched.1 candidate rfl)) ?_
          intro _ s' hs'
          refine ih hs'.gathered fun c hc => ?_
          rw [hs'.bookmark] at hc
          exact (hfetched.2 c hc).mono fun _ hkey => hs'.reads.subset hkey

theorem scan_gathers {source : Source} (hsource : source.typeName = schema.typeName)
    (filter : Option (Value → Except Failure Bool)) (h : Gathered scene schema branches s) :
    Triple (scan scene schema collector limit q source filter) s
      (fun _ s' => Gathered scene schema branches s') (fun _ => True) := by
  let cursor : Cursor Failure :=
    { source, batchSize := scene.batchSize, filter, raise := .ofEngine }
  let first : Sweep (List Row) := { s with trail := { s.trail with bookmark := .start } }
  have hfirst : Gathered scene schema branches first := h.onward (List.suffix_refl s.trail.reads)
  have hdrawn : Triple (considerDrawn scene schema collector limit q cursor
      (scene.view.candidateBound + 1)) first (fun _ s' => Gathered scene schema branches s')
      (fun _ => True) :=
    considerDrawn_gathers hbranch hq hsource _ hfirst fun c hc => nomatch hc
  unfold Triple at hdrawn
  unfold scan Sweeping.parked Triple
  split at hdrawn
  · rename_i last hrun
    simp only [first, cursor] at hrun
    simp only [hrun]
    exact hdrawn.onward (List.suffix_refl last.trail.reads)
  · rename_i last hrun
    simp only [first, cursor] at hrun
    simp only [hrun]

omit hbranch hq in
theorem exec_gathers {α : Type} {work : Exec α} (hwork : Steady work)
    (h : Gathered scene schema branches s) :
    Triple (Sweeping.ofExec work) s
      (fun a s' => work s.trail = (.ok a, s'.trail) ∧ Gathered scene schema branches s')
      (fun _ => True) := by
  have hreads := hwork.reads s.trail
  rcases hrun : work s.trail with ⟨_ | a, trail⟩
  · exact Triple.of_run_error (by rw [Sweeping.ofExec, hrun]) trivial
  · rw [hrun] at hreads
    exact Triple.of_run (by rw [Sweeping.ofExec, hrun]) ⟨rfl, h.onward hreads⟩

theorem pass_gathers (h : Gathered scene schema branches s) :
    Triple (pass scene schema collector limit q) s (fun _ s' => Gathered scene schema branches s')
      (fun _ => True) := by
  refine Triple.bind (exec_gathers (.ofExcept _) h) fun plan s₁ ⟨_, h₁⟩ => ?_
  refine Triple.bind (exec_gathers (.report _) h₁) fun _ s₂ ⟨_, h₂⟩ => ?_
  cases plan with
  | lookup spec values =>
    have hlookup := Steady.ofReading (Index.lookup_steady scene.codec schema spec values) scene.view
    refine Triple.bind (exec_gathers hlookup h₂) fun keys s₃ ⟨_, h₃⟩ => ?_
    refine Triple.bind (exec_gathers (.ofReading (.multiGet _) _) h₃) fun found s₄ ⟨hfound, h₄⟩ => ?_
    refine considerEach_gathers hbranch hq h₄ spec fun key value hmem => ?_
    obtain ⟨hkeys, hreads⟩ := Prod.mk.inj hfound
    have hkeys := Except.ok.inj hkeys
    rw [← hkeys, List.map_map, ← List.map_prod_left_eq_zip] at hmem
    obtain ⟨key', hkey, heq⟩ := List.mem_map.mp hmem
    obtain ⟨rfl, hvalue⟩ := Prod.mk.inj heq
    refine ⟨hvalue, ?_⟩
    rw [← hreads]
    exact List.mem_append_left _ (List.mem_reverse.mpr (List.mem_map_of_mem hkey))
  | indexScan spec filtered => exact scan_gathers hbranch hq rfl _ h₂
  | recordScan => exact scan_gathers hbranch hq rfl _ h₂

omit hbranch hq

variable (hsteady : ∀ b ∈ branches, ∀ c ∈ b.clauses, c.Steady)
include hsteady

theorem passEach_gathers {rest : List (Query Test)} (hrest : ∀ b ∈ rest, b ∈ branches)
    (h : Gathered scene schema branches s) :
    Triple (passEach scene schema collector limit rest) s
      (fun _ s' => Gathered scene schema branches s') (fun _ => True) := by
  induction rest generalizing s with
  | nil => exact Triple.pure h
  | cons b rest ih =>
    refine Triple.bind_of_run (isFull_run s) ?_
    split
    · exact Triple.pure h
    · have hb : b ∈ branches := hrest b List.mem_cons_self
      refine Triple.bind (pass_gathers hb (hsteady b hb) h) fun _ s' hs' => ?_
      exact ih (fun b' hb' => hrest b' (List.mem_cons_of_mem _ hb')) hs'

theorem passAll_gathers (h : Gathered scene schema branches s) :
    Triple (passAll scene schema collector limit branches) s
      (fun _ s' => Gathered scene schema branches s') (fun _ => True) := by
  cases branches with
  | nil => exact Triple.pure h
  | cons b rest =>
    refine Triple.bind (pass_gathers List.mem_cons_self (hsteady b List.mem_cons_self) h)
      fun _ s' hs' => ?_
    exact passEach_gathers hsteady (fun b' hb' => List.mem_cons_of_mem _ hb') hs'

omit hsteady

/-- The rows that a search returns: stored records that it has read and that a branch has let pass, each
of them once. -/
structure RowsFound (scene : Scene) (schema : Schema) (branches : List (Query Test)) (reads : List Bytes)
    (rows : List Row) : Prop where
  found : ∀ row ∈ rows, row.Found scene schema reads
  passed : ∀ row ∈ rows, row.PassedBy scene schema branches
  distinct : (rows.map Row.key).Nodup

theorem sweepRows_found (hq : q.Steady) (trail : Trail) {rows : List Row}
    (h : (sweepRows scene schema q trail).1 = .ok rows) :
    RowsFound scene schema q.branches (sweepRows scene schema q trail).2.reads rows := by
  have hfirst : Gathered scene schema q.branches (⟨trail, [], q.skipCount, 0, []⟩ : Sweep (List Row)) :=
    ⟨by simp, by simp, by simp, List.nodup_nil⟩
  have hlast : Triple (passAll scene schema collector q.limit q.branches)
      ⟨trail, [], q.skipCount, 0, []⟩ (fun _ s' => Gathered scene schema q.branches s') (fun _ => True) :=
    passAll_gathers hq hfirst
  unfold Triple at hlast
  simp only [sweepRows, sweep] at h ⊢
  split at hlast
  · rename_i last hrun
    simp only [hrun, Except.map, Except.ok.injEq] at h ⊢
    subst h
    refine ⟨fun row hrow => hlast.found row (List.mem_reverse.mp hrow),
      fun row hrow => hlast.passed row (List.mem_reverse.mp hrow), ?_⟩
    rw [List.map_reverse]
    exact (List.reverse_perm _).nodup_iff.mpr hlast.distinct
  · rename_i hrun
    simp only [hrun, Except.map, reduceCtorEq] at h

theorem RowsFound.sublist_perm {reads : List Bytes} {rows rows' sorted : List Row}
    (h : RowsFound scene schema branches reads rows) (hperm : sorted.Perm rows)
    (hsub : rows'.Sublist sorted) : RowsFound scene schema branches reads rows' := by
  refine ⟨fun row hrow => h.found row (hperm.subset (hsub.subset hrow)),
    fun row hrow => h.passed row (hperm.subset (hsub.subset hrow)), ?_⟩
  exact ((hperm.map Row.key).nodup_iff.mpr h.distinct).sublist (hsub.map Row.key)

theorem slice_sublist (q : Query Test) (rows : List Row) : (slice q rows).Sublist rows := by
  unfold slice
  cases q.limit with
  | none => exact List.drop_sublist _ _
  | some limit => exact (List.take_sublist _ _).trans (List.drop_sublist _ _)

theorem feed_collector (rows acc : List Row) :
    feed collector rows acc = (.ok (), rows.reverse ++ acc) := by
  induction rows generalizing acc with
  | nil => rfl
  | cons row rest ih =>
    change (collector row >>= fun _ => feed collector rest) acc = _
    rw [run_bind]
    exact (ih (row :: acc)).trans (by simp)

theorem sortedRows_ok {trail : Trail} {rows : List Row}
    (h : (sortedRows scene schema q trail).1 = .ok rows) :
    ∃ swept, (sweepRows scene schema q.unpaged trail).1 = .ok swept ∧ rows.Perm swept ∧
      (sortedRows scene schema q trail).2 = (sweepRows scene schema q.unpaged trail).2 := by
  simp only [sortedRows, run_bind] at h ⊢
  rcases hswept : sweepRows scene schema q.unpaged trail with ⟨_ | swept, last⟩
  · simp only [hswept, reduceCtorEq] at h
  · simp only [hswept, Exec.ofExcept] at h ⊢
    cases hcheck : checkSortFields schema q.sortFields swept with
    | error e => simp only [hcheck, reduceCtorEq] at h
    | ok _ =>
      simp only [hcheck, run_pure, Except.ok.injEq] at h ⊢
      subst h
      exact ⟨swept, rfl, stableSort_perm _ _, trivial⟩

theorem passedBy_of_unpaged {row : Row} (h : row.PassedBy scene schema q.unpaged.branches) :
    row.PassedBy scene schema q.branches := by
  obtain ⟨clauses, ors, indexName, sortFields, reversed, skip, limit, error⟩ := q
  obtain ⟨b, hb, htrail⟩ := h
  rcases List.mem_cons.mp hb with rfl | hb
  · exact ⟨_, List.mem_cons_self, htrail⟩
  · exact ⟨b, List.mem_cons_of_mem _ hb, htrail⟩

theorem validate_of_findRows {trail : Trail} {rows : List Row}
    (h : (findRows scene schema q trail).1 = .ok rows) : q.validate = .ok () := by
  cases hvalid : q.validate with
  | ok _ => rfl
  | error e =>
    simp only [findRows, walk_invalid hvalid] at h
    cases h

/-- A search finds stored records that it has read and that pass, and finds each of them once. -/
theorem findRows_found (hq : q.Steady) (trail : Trail) {rows : List Row}
    (h : (findRows scene schema q trail).1 = .ok rows) :
    RowsFound scene schema q.branches (findRows scene schema q trail).2.reads rows := by
  have hvalid := validate_of_findRows h
  cases hsort : q.sortFields.isEmpty with
  | true =>
    simp only [findRows, walk_unsorted hvalid hsort] at h ⊢
    exact sweepRows_found hq trail h
  | false =>
    simp only [findRows, walk_sorted hvalid hsort] at h ⊢
    cases hsorted : (sortedRows scene schema q trail).1 with
    | error e => simp only [hsorted, feedSorted, Except.map, reduceCtorEq] at h
    | ok sorted =>
      simp only [hsorted, feedSorted, feed_collector, Except.map, List.append_nil,
        List.reverse_reverse, Except.ok.injEq] at h
      obtain ⟨swept, hswept, hperm, htrail⟩ := sortedRows_ok hsorted
      rw [htrail, ← h]
      have hfound : RowsFound scene schema q.unpaged.branches
          (sweepRows scene schema q.unpaged trail).2.reads (slice q sorted) :=
        (sweepRows_found hq.unpaged trail hswept).sublist_perm hperm (slice_sublist q sorted)
      exact { hfound with passed := fun row hrow => passedBy_of_unpaged (hfound.passed row hrow) }

end Search

end DocStore
