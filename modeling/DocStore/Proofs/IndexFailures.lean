import DocStore.Proofs.EqualKeys

/-!
# Failures at an index

A record is tested clause by clause, and the first clause that does not hold ends the test, so clauses
behind it may be such that they would fail. An index tests the clauses on its own field by themselves,
and so it may fail where no record does (`filter_fails_first`). Nor can an index be asked for a value
that has no key, and records that it misses are left to later branches. With these cases set aside,
which are the ones that `Passable` names, a search succeeds whatever ways it takes, as long as testing
each record does (`findRows_succeeds`).
-/

namespace DocStore

open OrderedKey (widened)

variable {scene : Scene} {schema : Schema}

namespace Search

open Evaluation

variable {row : Row} {b : Query Test} {rest : List (Query Test)} {keys : List Bytes}

-- ---------------------------------------------------------------------------
-- Clauses one by one
-- ---------------------------------------------------------------------------

theorem answers_each {clauses : List (Clause Test)} (hsteady : ∀ c ∈ clauses, c.Steady)
    (h : Answers scene schema row clauses true) :
    ∀ c ∈ clauses, Answers scene schema row [c] true := by
  induction clauses with
  | nil => exact nofun
  | cons c rest ih =>
    have hfirst : ∀ trail, ∃ value last, resolveField scene schema row c.field = .ok value ∧
        criterionHolds scene schema row c.field value c.criterion trail = (.ok true, last) ∧
        (clausesHold scene schema row rest last).1 = .ok true := by
      intro trail
      have hrun := h trail
      rw [clausesHold_cons_run] at hrun
      split at hrun
      · cases hrun
      · rename_i value hvalue
        split at hrun
        · cases hrun
        · rename_i last hlast
          exact ⟨value, last, hvalue, hlast, hrun⟩
        · cases hrun
    have hrest : ∀ c ∈ rest, c.Steady := fun c hc => hsteady c (List.mem_cons_of_mem _ hc)
    refine List.forall_mem_cons.mpr ⟨fun trail => ?_, ih hrest fun trail => ?_⟩
    · obtain ⟨value, last, hvalue, hlast, -⟩ := hfirst trail
      simp only [clausesHold_cons_run, hvalue, hlast]
      rfl
    · obtain ⟨-, last, -, -, hlast⟩ := hfirst trail
      exact ((clausesHold_steady hrest row).answer trail last).trans hlast

-- ---------------------------------------------------------------------------
-- What a pass comes upon
-- ---------------------------------------------------------------------------

structure Passable (scene : Scene) (schema : Schema) (b : Query Test) : Prop where
  /-- Where values are tested in an index, this does not fail on those of stored records. -/
  filtered : ∀ spec, Plan.make scene.codec schema b = .ok (.indexScan spec true) →
    ∀ row : Row, row.Stored scene schema → ∀ key,
      scene.codec.encodeKey (row.doc.lookupOrNull spec.field) = .ok key →
        ∃ value passes, scene.codec.decodeKey key = .ok value ∧
          indexFilter schema b spec.field value = .ok passes
  /-- Where values are looked up, they have keys. -/
  encoded : ∀ spec values, Plan.make scene.codec schema b = .ok (.lookup spec values) →
    ∀ value ∈ values, ∃ key, scene.codec.encodeKey value = .ok key

/-- The branch accepts the record, but the pass for it does not come upon it. -/
def Misses (scene : Scene) (schema : Schema) (b : Query Test) (row : Row) : Prop :=
  Answers scene schema row b.clauses true ∧ ∃ keys, Visits scene schema b keys ∧ row.key ∉ keys

theorem Finds.unique {plan : Plan} {keys' : List Bytes} (h : Finds scene schema b plan keys)
    (h' : Finds scene schema b plan keys') : keys = keys' := by
  have hscan {source : Source} {filter : Option (Value → Except Failure Bool)}
      (h : ScanFinds scene schema source filter keys)
      (h' : ScanFinds scene schema source filter keys') : keys = keys' := by
    obtain ⟨found, hfound, -, rfl⟩ := h
    obtain ⟨found', hfound', -, rfl⟩ := h'
    cases hfound.symm.trans hfound'
    rfl
  cases plan with
  | lookup spec values =>
    obtain ⟨last, hlast⟩ := h.1 []
    obtain ⟨last', hlast'⟩ := h'.1 []
    cases hlast.symm.trans hlast'
    rfl
  | indexScan spec filtered => exact hscan h h'
  | recordScan => exact hscan h h'

section Visits

variable (hmirrored : scene.Mirrored schema)
include hmirrored

theorem Passable.indexScan_finds {spec : IndexSpec} {filtered : Bool} (h : Passable scene schema b)
    (hspec : spec ∈ schema.indexes)
    (hplan : Plan.make scene.codec schema b = .ok (.indexScan spec filtered)) :
    ∃ keys, Finds scene schema b (.indexScan spec filtered) keys ∧
      ∀ row : Row, row.Stored scene schema →
        (∀ key value, scene.codec.encodeKey (row.doc.lookupOrNull spec.field) = .ok key →
          scene.codec.decodeKey key = .ok value → indexFilter schema b spec.field value = .ok true) →
        row.key ∈ keys := by
  have hanswers : ∀ row : Row, row.Stored scene schema → ∀ key,
      scene.codec.encodeKey (row.doc.lookupOrNull spec.field) = .ok key →
      ∃ passes, Cursor.passes scene.codec ⟨.index schema.typeName spec.name, scene.batchSize,
          if filtered then some (indexFilter schema b spec.field) else none, Failure.ofEngine⟩
          (Index.entryAt schema spec key) = .ok passes ∧
        ((∀ value, scene.codec.decodeKey key = .ok value →
          indexFilter schema b spec.field value = .ok true) → passes = true) := by
    intro row hrow key hkey
    cases filtered with
    | false => exact ⟨true, rfl, fun _ => rfl⟩
    | true =>
      obtain ⟨value, passes, hdecode, hpasses⟩ := h.filtered spec hplan row hrow key hkey
      refine ⟨passes, (passes_decoded hdecode).trans hpasses, fun htrue => ?_⟩
      exact Except.ok.inj (hpasses.symm.trans (htrue value hdecode))
  obtain ⟨keys, hkeys, hfound⟩ := Search.indexScan_finds hmirrored hspec fun row hrow key hkey =>
    (hanswers row hrow key hkey).imp fun _ hpasses => hpasses.1
  refine ⟨keys, hkeys, fun row hrow hpasses => ?_⟩
  obtain ⟨key, hkey⟩ := hmirrored.valued spec hspec row hrow
  obtain ⟨passes, hpass, htrue⟩ := hanswers row hrow key hkey
  rw [htrue fun value hdecode => hpasses key value hkey hdecode] at hpass
  exact hfound row hrow key hkey hpass

variable (hcodec : scene.codec = .bson)
include hcodec

theorem Passable.visits (h : Passable scene schema b)
    (hnamed : ∀ name, b.indexName = some name → (schema.findIndex name).isSome) :
    ∃ keys, Visits scene schema b keys := by
  obtain ⟨plan, hplan, hcases⟩ := Plan.make_cases hnamed
  rcases hcases with rfl | ⟨spec, hspec, ⟨values, rfl, -⟩ | ⟨filtered, rfl⟩⟩
  · have hcovers : Covers scene schema b .recordScan := recordScan_covers
    obtain ⟨keys, hkeys, -⟩ := hcovers.finds
    exact ⟨keys, _, hplan, hkeys⟩
  · obtain ⟨keys, hkeys, -⟩ := lookup_finds hcodec hmirrored hspec (h.encoded spec values hplan)
    exact ⟨keys, _, hplan, hkeys⟩
  · obtain ⟨keys, hkeys, -⟩ := h.indexScan_finds hmirrored hspec hplan
    exact ⟨keys, _, hplan, hkeys⟩

/-- Only a lookup misses a record that its branch accepts, one whose value is the same as a value that
is looked up and yet apart from it. -/
theorem apart_of_misses (hfields : ∀ spec ∈ schema.indexes, spec.field ≠ keyName)
    (hrestores : Restores scene schema) (hpassable : Passable scene schema b)
    (hnamed : ∀ name, b.indexName = some name → (schema.findIndex name).isSome)
    (hsteady : ∀ c ∈ b.clauses, c.Steady) (hrow : row.Stored scene schema)
    (h : Misses scene schema b row) :
    ∃ spec values, Plan.make scene.codec schema b = .ok (.lookup spec values) ∧
      ∃ value ∈ values, (row.doc.lookupOrNull spec.field).same value = true ∧
        value.Apart (row.doc.lookupOrNull spec.field) := by
  obtain ⟨hanswers, keys, ⟨plan, hplan, hfinds⟩, hmissed⟩ := h
  have heach : ∀ c ∈ b.clauses, Answers scene schema row [c] true := answers_each hsteady hanswers
  obtain ⟨plan', hplan', hcases⟩ := Plan.make_cases hnamed
  cases hplan.symm.trans hplan'
  rcases hcases with rfl | ⟨spec, hspec, ⟨values, rfl, hvalues⟩ | ⟨filtered, rfl⟩⟩
  · have hcovers : Covers scene schema b .recordScan := recordScan_covers
    obtain ⟨keys', hkeys', hsuffices⟩ := hcovers.finds
    cases hfinds.unique hkeys'
    exact absurd (hsuffices row hrow hanswers) hmissed
  · obtain ⟨value, hvalue, hsame⟩ := same_of_answers (hfields spec hspec) hvalues heach
    obtain ⟨keys', hkeys', hiff⟩ :=
      lookup_finds hcodec hmirrored hspec (hpassable.encoded spec values hplan)
    cases hfinds.unique hkeys'
    refine ⟨spec, values, hplan, value, hvalue, hsame, ?_⟩
    by_contra hapart
    exact hmissed ((hiff row hrow).mpr ⟨value, hvalue, Value.exists_variant_of_same hsame hapart⟩)
  · obtain ⟨keys', hkeys', hfound⟩ := hpassable.indexScan_finds hmirrored hspec hplan
    cases hfinds.unique hkeys'
    refine absurd (hfound row hrow fun key value hkey hdecode => ?_) hmissed
    have hwidened := decodeKey_widened hcodec (hrestores spec hspec row hrow) hkey
    cases hdecode.symm.trans hwidened
    obtain ⟨passes, hpasses, himplies⟩ :=
      indexFilter_answers (hfields spec hspec) fun c hc => ⟨true, heach c hc⟩
    rw [hpasses, himplies hanswers]

end Visits

-- ---------------------------------------------------------------------------
-- Searches
-- ---------------------------------------------------------------------------

theorem answered_of_matches {branches : List (Query Test × List Bytes)}
    (hsteady : ∀ b ∈ branches, ∀ c ∈ b.1.clauses, c.Steady)
    (hvisits : ∀ b ∈ branches, Visits scene schema b.1 b.2)
    (hmissed : ∀ b rest, b :: rest <:+ branches.map Prod.fst → Misses scene schema b row →
      ∃ trail holds, (anyBranchHolds scene schema row rest trail).1 = .ok holds)
    (hmatches : ∃ trail holds,
      (anyBranchHolds scene schema row (branches.map Prod.fst) trail).1 = .ok holds) :
    Answered scene schema row branches := by
  induction branches with
  | nil => trivial
  | cons head rest ih =>
    obtain ⟨b, keys⟩ := head
    obtain ⟨trail, holds, hholds⟩ := hmatches
    have hrest := ih (fun b hb => hsteady b (List.mem_cons_of_mem _ hb))
      (fun b hb => hvisits b (List.mem_cons_of_mem _ hb))
      fun b rest' hsuffix => hmissed b rest' (hsuffix.trans (List.suffix_cons _ _))
    have hanswer : DocStore.Steady (clausesHold scene schema row b.clauses) :=
      clausesHold_steady (hsteady _ List.mem_cons_self) row
    rcases hrun : clausesHold scene schema row b.clauses trail with ⟨_ | accepts, last⟩
    · simp only [List.map_cons, anyBranchHolds, run_bind, hrun, reduceCtorEq] at hholds
    have hanswers : Answers scene schema row b.clauses accepts := fun other => by
      rw [hanswer.answer other trail, hrun]
    refine ⟨fun _ => ⟨accepts, hanswers⟩, fun hnot => hrest ?_⟩
    cases accepts with
    | false =>
      simp only [List.map_cons, anyBranchHolds, run_bind, hrun] at hholds
      exact ⟨last, holds, hholds⟩
    | true =>
      -- The test of the record has ended here, but the pass does not come upon it.
      have hmisses : Misses scene schema b row :=
        ⟨hanswers, keys, hvisits _ List.mem_cons_self, fun hkey => hnot ⟨hkey, hanswers⟩⟩
      exact hmissed b _ (List.suffix_refl _) hmisses

/-- A search succeeds if the query can be tested on each of the records and its ways can be gone to
their ends, as long as the records that a branch misses can be tested for the rest of them. -/
theorem findRows_succeeds (hcodec : scene.codec = .bson) (hmirrored : scene.Mirrored schema)
    (q : Query Predicate) (hvalid : (q.ready scene).validate = .ok ())
    (hsort : (q.ready scene).sortFields = []) (hskip : (q.ready scene).skip = none)
    (hlimit : (q.ready scene).limit = none)
    (hnamed : ∀ b ∈ (q.ready scene).branches, ∀ name, b.indexName = some name →
      (schema.findIndex name).isSome)
    (hpassable : ∀ b ∈ (q.ready scene).branches, Passable scene schema b)
    (hmissed : ∀ b rest, b :: rest <:+ (q.ready scene).branches → ∀ row : Row,
      row.Stored scene schema → Misses scene schema b row →
        ∃ trail holds, (anyBranchHolds scene schema row rest trail).1 = .ok holds)
    (trail : Trail)
    (hmatches : ∀ row : Row, row.Stored scene schema → ∃ holds,
      (matchesQuery scene schema (q.ready scene) row trail).1 = .ok holds) :
    ∃ rows, (findRows scene schema (q.ready scene) trail).1 = .ok rows := by
  have hsteady : (q.ready scene).Steady := q.ready_steady scene
  obtain ⟨branches, hbranches, hvisits⟩ : ∃ branches : List (Query Test × List Bytes),
      branches.map Prod.fst = (q.ready scene).branches ∧
        ∀ b ∈ branches, Visits scene schema b.1 b.2 :=
    exists_keys fun b hb => (hpassable b hb).visits hmirrored hcodec (hnamed b hb)
  have hanswered : ∀ row : Row, row.Stored scene schema → Answered scene schema row branches := by
    intro row hrow
    refine answered_of_matches (fun b hb => ?_) hvisits (fun b rest hsuffix => ?_) ⟨trail, ?_⟩
    · exact hsteady b.1 (hbranches ▸ List.mem_map_of_mem hb)
    · exact hmissed b rest (hbranches ▸ hsuffix) row hrow
    · rw [hbranches]
      exact hmatches row hrow
  obtain ⟨rows, hrows, -⟩ := findRows_of_answered hmirrored.readable hsteady hvalid hsort hskip hlimit
    hbranches hvisits hanswered trail
  exact ⟨rows, hrows⟩

-- ---------------------------------------------------------------------------
-- Books on high shelves
-- ---------------------------------------------------------------------------

def highShelf (index : String) : Query Predicate :=
  ((Query.and .all "place.shelf" (.condition (.ge (.value (.int32 3))))).and "code"
    (.condition (.gt (.value (.int32 5))))).index index

def anyShelf : Query Predicate := ((highShelf "shelf").or (Turn.onShelf 1)).or numbered

theorem branches_anyShelf {b : Query Test} (h : b ∈ (anyShelf.ready shelved).branches) :
    b = anyShelf.ready shelved ∨ b = (Turn.onShelf 1).ready shelved ∨ b = numbered.ready shelved := by
  have hbranches : b ∈ [anyShelf.ready shelved, (Turn.onShelf 1).ready shelved,
      numbered.ready shelved] := h
  simpa only [List.mem_cons, List.not_mem_nil, or_false] using hbranches

theorem named_anyShelf {b : Query Test} (h : b ∈ (anyShelf.ready shelved).branches) {name : String}
    (hname : b.indexName = some name) : (Turn.bookSchema.findIndex name).isSome := by
  rcases branches_anyShelf h with rfl | rfl | rfl
  · cases hname
    rfl
  · cases hname
  · cases hname

theorem passable_anyShelf {b : Query Test} (h : b ∈ (anyShelf.ready shelved).branches) :
    Passable shelved Turn.bookSchema b := by
  rcases branches_anyShelf h with rfl | rfl | rfl
  · refine ⟨fun spec hplan row hrow key hkey => ?_, fun spec values hplan => ?_⟩
    · cases hplan
      rcases mem_shelvedRows hrow with rfl | rfl <;>
        · cases hkey
          exact ⟨_, _, rfl, rfl⟩
    · cases hplan
  · refine ⟨fun spec hplan => ?_, fun spec values hplan => ?_⟩
    · cases hplan
    · cases hplan
      exact List.forall_mem_singleton.mpr ⟨_, rfl⟩
  · refine ⟨fun spec hplan => ?_, fun spec values hplan => ?_⟩ <;> cases hplan

theorem not_misses_anyShelf {b : Query Test} (h : b ∈ (anyShelf.ready shelved).branches)
    (hrow : row.Stored shelved Turn.bookSchema) : ¬ Misses shelved Turn.bookSchema b row := by
  intro hmisses
  obtain ⟨spec, values, hplan, value, hvalue, -, hapart⟩ :=
    apart_of_misses mirrored_shelved rfl (fun _ => Schema.field_ne_of_check rfl) restores_shelved
      (passable_anyShelf h) (fun _ => named_anyShelf h) (anyShelf.ready_steady shelved b h) hrow hmisses
  rcases branches_anyShelf h with rfl | rfl | rfl
  · cases hplan
  · cases hplan
    cases List.mem_singleton.mp hvalue
    rcases mem_shelvedRows hrow with rfl | rfl <;> exact hapart
  · cases hplan

/-- No book is on a high shelf, so no code is compared, neither at a record nor at an index. -/
theorem findRows_succeeds_books :
    let q := anyShelf.ready shelved
    shelved.Mirrored Turn.bookSchema ∧ (∀ b ∈ q.branches, Passable shelved Turn.bookSchema b) ∧
      (∀ row : Row, row.Stored shelved Turn.bookSchema →
        ∃ holds, (matchesQuery shelved Turn.bookSchema q row ⟨[], [], .start⟩).1 = .ok holds) ∧
      ∃ rows, (findRows shelved Turn.bookSchema q ⟨[], [], .start⟩).1 = .ok rows := by
  have hmatches : ∀ row : Row, row.Stored shelved Turn.bookSchema → ∃ holds, (matchesQuery shelved
      Turn.bookSchema (anyShelf.ready shelved) row ⟨[], [], .start⟩).1 = .ok holds := by
    intro row hrow
    rcases mem_shelvedRows hrow with rfl | rfl <;> exact ⟨_, rfl⟩
  refine ⟨mirrored_shelved, fun b => passable_anyShelf, hmatches, ?_⟩
  refine findRows_succeeds rfl mirrored_shelved anyShelf (by decide +kernel) rfl rfl rfl
    (fun b hb _ => named_anyShelf hb) (fun b => passable_anyShelf) (fun b rest hsuffix row hrow h => ?_)
    _ hmatches
  exact absurd h (not_misses_anyShelf (hsuffix.subset List.mem_cons_self) hrow)

/-- Through the index of codes, all codes are compared before any shelf is looked at. -/
theorem filter_fails_first :
    let q := (highShelf "code").ready shelved
    let unindexed := { q with indexName := none }
    shelved.Mirrored Turn.bookSchema ∧
      (∀ spec ∈ Turn.bookSchema.indexes, spec.field ≠ keyName ∧
        Turn.bookSchema.keyField ≠ some spec.field) ∧
      q.validate = .ok () ∧ q.sortFields = [] ∧ q.skip = none ∧ q.limit = none ∧
      (Turn.bookSchema.findIndex "code").isSome ∧
      (∀ row : Row, row.Stored shelved Turn.bookSchema →
        (matchesQuery shelved Turn.bookSchema q row ⟨[], [], .start⟩).1 = .ok false) ∧
      (findRows shelved Turn.bookSchema q ⟨[], [], .start⟩).1.map (List.map Row.key) =
        .error (.typeMismatch "code" "string" "int32") ∧
      (findRows shelved Turn.bookSchema unindexed ⟨[], [], .start⟩).1.map (List.map Row.key) =
        .ok [] := by
  refine ⟨mirrored_shelved, by decide +kernel, by decide +kernel, rfl, rfl, rfl, rfl,
    fun row hrow => ?_, by decide +kernel, by decide +kernel⟩
  rcases mem_shelvedRows hrow with rfl | rfl <;> rfl

end Search

end DocStore
