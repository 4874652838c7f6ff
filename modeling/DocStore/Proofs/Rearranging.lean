import DocStore.Proofs.Alternatives
import DocStore.Proofs.Building
import DocStore.Proofs.IndexOrder

/-!
# Rearranging the steps of a query

Steps for criteria may be moved to any place in a chain, and steps for alternatives as well, also inside
of alternatives. The former makes no difference to what is found nor to its order, and the latter none
to the set of the rows, as long as each criterion answers on every record (`find_rearranged`).
-/

namespace DocStore

variable {π : Type}

-- ---------------------------------------------------------------------------
-- Chains
-- ---------------------------------------------------------------------------

namespace QueryStep

def isAnd : QueryStep π → Bool
  | .and _ _ => true
  | _ => false

def isOr : QueryStep π → Bool
  | .or _ => true
  | _ => false

/-- Chains of the same steps. Those that are `movable` may stand elsewhere among the others, and so they
may in the chains of alternatives. -/
inductive Rearranged (movable : QueryStep π → Bool) : List (QueryStep π) → List (QueryStep π) → Prop where
  | nil : Rearranged movable [] []
  | cons (c : QueryStep π) {rest rest' : List (QueryStep π)} (h : Rearranged movable rest rest') :
      Rearranged movable (c :: rest) (c :: rest')
  | branch {steps steps' rest rest' : List (QueryStep π)} (hsteps : Rearranged movable steps steps')
      (h : Rearranged movable rest rest') : Rearranged movable (.or steps :: rest) (.or steps' :: rest')
  | swap (c d : QueryStep π) (rest : List (QueryStep π)) (h : (movable c || movable d) = true) :
      Rearranged movable (c :: d :: rest) (d :: c :: rest)
  | trans {steps steps' steps'' : List (QueryStep π)} (h : Rearranged movable steps steps')
      (h' : Rearranged movable steps' steps'') : Rearranged movable steps steps''

variable {movable : QueryStep π → Bool}

theorem Rearranged.refl (steps : List (QueryStep π)) : Rearranged movable steps steps := by
  induction steps with
  | nil => exact .nil
  | cons c rest ih => exact .cons c ih

theorem Rearranged.of_perm {steps steps' : List (QueryStep π)} (hperm : steps.Perm steps')
    (hmovable : ∀ c ∈ steps, movable c = true) (rest : List (QueryStep π)) :
    Rearranged movable (steps ++ rest) (steps' ++ rest) := by
  induction hperm with
  | nil => exact .refl rest
  | cons c _ ih => exact .cons c (ih fun d hd => hmovable d (List.mem_cons_of_mem _ hd))
  | swap c d _ => exact .swap d c _ (by rw [hmovable d List.mem_cons_self, Bool.true_or])
  | trans hfirst _ ih ih' =>
    exact (ih hmovable).trans (ih' fun c hc => hmovable c (hfirst.mem_iff.mpr hc))

end QueryStep

-- ---------------------------------------------------------------------------
-- Queries
-- ---------------------------------------------------------------------------

namespace Query

structure Pairing (same : List (Query π) → List (Query π) → Prop) : Prop where
  alike : ∀ {branches branches'}, List.Forall₂ Alike branches branches' → same branches branches'
  append : ∀ {branches branches' more more'}, same branches branches' → same more more' →
    same (branches ++ more) (branches' ++ more')
  symm : ∀ {branches branches'}, same branches branches' → same branches' branches
  trans : ∀ {branches branches' branches''}, same branches branches' → same branches' branches'' →
    same branches branches''

theorem pairing_inOrder : Pairing (List.Forall₂ (Alike (π := π))) where
  alike h := h
  append h h' := List.rel_append h h'
  symm h := h.flip.imp fun _ _ halike => halike.symm
  trans {_ _ branches''} h h' := by
    induction h generalizing branches'' with
    | nil => exact h'
    | cons halike _ ih =>
      cases h' with
      | cons halike' hrest => exact .cons (halike.trans halike') (ih hrest)

theorem pairing_matched : Pairing (Matched (π := π)) where
  alike h := matched_of_forall₂ h
  append h h' := h.append h'
  symm h := h.symm
  trans h h' := h.trans h'

variable {same : List (Query π) → List (Query π) → Prop} (hsame : Pairing same)
  {q q' q'' other other' : Query π}
include hsame

theorem Reordered.of_eq (h : { q with error := none } = { q' with error := none })
    (herror : q.error = none ↔ q'.error = none) : q.Reordered same q' := by
  obtain ⟨_, _, _, _, _, _, _, _⟩ := q
  obtain ⟨_, _, _, _, _, _, _, _⟩ := q'
  cases h
  exact ⟨⟨.refl _, rfl, .rfl⟩, hsame.alike (List.forall₂_same.mpr fun b _ => .refl b), rfl, rfl, rfl,
    rfl, herror⟩

theorem Reordered.refl (q : Query π) : q.Reordered same q := .of_eq hsame rfl .rfl

theorem Reordered.symm (h : q.Reordered same q') : q'.Reordered same q :=
  ⟨h.root.symm, hsame.symm h.alternatives, h.sortFields.symm, h.reversed.symm, h.skip.symm,
    h.limit.symm, h.error.symm⟩

theorem Reordered.trans (h : q.Reordered same q') (h' : q'.Reordered same q'') :
    q.Reordered same q'' :=
  ⟨h.root.trans h'.root, hsame.trans h.alternatives h'.alternatives, h.sortFields.trans h'.sortFields,
    h.reversed.trans h'.reversed, h.skip.trans h'.skip, h.limit.trans h'.limit,
    h.error.trans h'.error⟩

omit hsame in
theorem place_perm (clause : Clause π) (clauses : List (Clause π)) :
    (place clause clauses).Perm (clause :: clauses) := by
  induction clauses with
  | nil => exact .refl _
  | cons c rest ih =>
    unfold place
    split
    · exact .swap clause c rest
    · exact (ih.cons c).trans (.swap clause c rest)

-- ---------------------------------------------------------------------------
-- Steps
-- ---------------------------------------------------------------------------

omit hsame in
theorem error_comm {error misuse misuse' : Option QueryError} :
    (error.or misuse).or misuse' = none ↔ (error.or misuse').or misuse = none := by
  simp only [Option.or_eq_none_iff, and_right_comm]

omit hsame in
theorem note_error (herror : q.error = none ↔ q'.error = none) (misuse : Option QueryError) :
    (q.note misuse).error = none ↔ (q'.note misuse).error = none := by
  simp only [note, Option.or_eq_none_iff, herror]

theorem Reordered.or (h : q.Reordered same q') (hother : other.Reordered same other') :
    (q.or other).Reordered same (q'.or other') := by
  have hroots : same [other] [other'] := hsame.alike (.cons hother.root .nil)
  rw [or_eq, or_eq, hother.skip, hother.limit]
  refine { h with root := { h.root with ors := by simp }, alternatives := ?_, error := ?_ }
  · rw [branchesOf_append, branchesOf_append, branchesOf_singleton, branchesOf_singleton]
    exact hsame.append h.alternatives (hsame.append hroots hother.alternatives)
  · simp only [note, Option.or_eq_none_iff, h.error, hother.error]

theorem Reordered.apply (c : QueryStep π) (h : q.Reordered same q') :
    (c.apply q).Reordered same (c.apply q') := by
  cases c with
  | and field criterion =>
    rw [QueryStep.apply, QueryStep.apply, and_eq _ _ _ [], and_eq _ _ _ []]
    have hplaced := (h.root.clauses.cons _).trans (place_perm ⟨field, criterion⟩ q'.clauses).symm
    exact { h with
      root := { h.root with clauses := (place_perm _ _).trans hplaced }
      error := note_error h.error _ }
  | or steps => exact h.or hsame (.refl hsame _)
  | index name =>
    rw [QueryStep.apply, QueryStep.apply, index_eq _ _ [], index_eq _ _ []]
    exact { h with root := { h.root with indexName := rfl }, error := note_error h.error _ }
  | sortBy fields =>
    rw [QueryStep.apply, QueryStep.apply, sortBy_eq _ _ [], sortBy_eq _ _ [], h.sortFields]
    exact { h with root := { h.root with }, sortFields := rfl, error := note_error h.error _ }
  | reverse => exact { h with root := { h.root with }, reversed := congrArg not h.reversed }
  | skip count =>
    rw [QueryStep.apply, QueryStep.apply, skipping_eq, skipping_eq, h.skip]
    exact { h with root := { h.root with }, skip := rfl, error := note_error h.error _ }
  | limit count =>
    rw [QueryStep.apply, QueryStep.apply, limitTo_eq, limitTo_eq, h.limit]
    exact { h with root := { h.root with }, limit := rfl, error := note_error h.error _ }

theorem Reordered.applyAll (steps : List (QueryStep π)) (h : q.Reordered same q') :
    (QueryStep.applyAll steps q).Reordered same (QueryStep.applyAll steps q') := by
  induction steps generalizing q q' with
  | nil => exact h
  | cons c rest ih => exact ih (h.apply hsame c)

theorem and_comm_step (q : Query π) (field : String) (criterion : Criterion π) (c : QueryStep π) :
    (c.apply (q.and field criterion)).Reordered same ((c.apply q).and field criterion) := by
  cases c with
  | and field' criterion' =>
    simp only [QueryStep.apply, and_eq _ _ _ []]
    have hboth (first second : Clause π) : (place first (place second q.clauses)).Perm
        (first :: second :: q.clauses) := (place_perm _ _).trans ((place_perm _ _).cons _)
    exact ⟨⟨(hboth _ _).trans ((List.Perm.swap _ _ _).trans (hboth _ _).symm), rfl, .rfl⟩,
      hsame.alike (List.forall₂_same.mpr fun b _ => .refl b), rfl, rfl, rfl, rfl, error_comm⟩
  | reverse =>
    simp only [QueryStep.apply, and_eq _ _ _ []]
    exact .of_eq hsame rfl .rfl
  | or | index | sortBy | skip | limit =>
    simp only [QueryStep.apply, and_eq _ _ _ [], or_eq, index_eq _ _ [], sortBy_eq _ _ [], skipping_eq,
      limitTo_eq]
    exact .of_eq hsame rfl error_comm

omit hsame in
/-- So may an alternative, if the order of the alternatives does not matter. -/
theorem or_comm_step (q other : Query π) (c : QueryStep π) :
    (c.apply (q.or other)).Reordered Matched ((c.apply q).or other) := by
  cases c with
  | or steps =>
    simp only [QueryStep.apply, or_eq]
    refine ⟨⟨.refl _, rfl, by simp⟩, matched_of_perm ?_, rfl, rfl, rfl, rfl, error_comm⟩
    simp only [branchesOf_append, List.append_assoc]
    exact List.perm_append_comm.append_left _
  | reverse =>
    simp only [QueryStep.apply, or_eq]
    exact .of_eq pairing_matched rfl .rfl
  | and | index | sortBy | skip | limit =>
    simp only [QueryStep.apply, and_eq _ _ _ [], or_eq, index_eq _ _ [], sortBy_eq _ _ [], skipping_eq,
      limitTo_eq]
    exact .of_eq pairing_matched rfl error_comm

end Query

namespace QueryStep

open Query

/-- If movable steps commute with all steps, chains that have been rearranged build the same query. -/
theorem Rearranged.reordered {same : List (Query π) → List (Query π) → Prop} (hsame : Pairing same)
    (hswap : ∀ c d : QueryStep π, movable c = true → ∀ q,
      (d.apply (c.apply q)).Reordered same (c.apply (d.apply q)))
    {steps steps' : List (QueryStep π)} (h : Rearranged movable steps steps') {q q' : Query π}
    (hq : q.Reordered same q') : (applyAll steps q).Reordered same (applyAll steps' q') := by
  induction h generalizing q q' with
  | nil => exact hq
  | cons c _ ih => exact ih (hq.apply hsame c)
  | branch _ _ ihsteps ih => exact ih (hq.or hsame (ihsteps (.refl hsame _)))
  | swap c d rest hmovable =>
    have hfirst : (d.apply (c.apply q)).Reordered same (d.apply (c.apply q')) :=
      (hq.apply hsame c).apply hsame d
    refine Reordered.applyAll hsame rest (hfirst.trans hsame ?_)
    rcases (Bool.or_eq_true _ _).mp hmovable with hc | hd
    · exact hswap c d hc q'
    · exact (hswap d c hd q').symm hsame
  | trans _ _ ih ih' => exact (ih hq).trans hsame (ih' (.refl hsame _))

variable {steps steps' : List (QueryStep π)}

theorem Rearranged.build_inOrder (h : Rearranged isAnd steps steps') :
    (build steps).Reordered (List.Forall₂ Alike) (build steps') := by
  refine h.reordered pairing_inOrder (fun c d hc q => ?_) (.refl pairing_inOrder _)
  cases c with
  | and field criterion => exact and_comm_step pairing_inOrder q field criterion d
  | _ => cases hc

theorem Rearranged.build_matched (h : Rearranged isOr steps steps') :
    (build steps).Reordered Matched (build steps') := by
  refine h.reordered pairing_matched (fun c d hc q => ?_) (.refl pairing_matched _)
  cases c with
  | or steps => exact or_comm_step q _ d
  | _ => cases hc

end QueryStep

-- ---------------------------------------------------------------------------
-- Searches
-- ---------------------------------------------------------------------------

namespace Search

open Evaluation

/-- A valid query that names known indexes only. Each of its criteria, tested by itself on any record,
does not fail. -/
structure Searchable (scene : Scene) (schema : Schema) (q : Query Test) : Prop where
  valid : q.validate = .ok ()
  named : ∀ b ∈ q.branches, ∀ name, b.indexName = some name → (schema.findIndex name).isSome
  answered : ∀ b ∈ q.branches, ∀ c ∈ b.clauses, ∀ row : Row, row.Stored scene schema → ∀ trail,
    ∃ holds, (clausesHold scene schema row [c] trail).1 = .ok holds

/-- What the query looks up has keys, and what it matches has the fields that it sorts by. -/
structure Findable (scene : Scene) (schema : Schema) (q : Query Test) : Prop where
  encoded : ∀ b ∈ q.branches, ∀ spec values,
    Plan.make scene.codec schema b = .ok (.lookup spec values) →
      ∀ value ∈ values, ∃ key, scene.codec.encodeKey value = .ok key
  sortable : ∀ row : Row, row.Stored scene schema → ∀ trail,
    (matchesQuery scene schema q row trail).1 = .ok true →
      ∀ field ∈ q.sortFields, (row.doc.lookup field).isSome

variable {scene : Scene} {schema : Schema} {q : Query Test}

theorem Searchable.decided (h : Searchable scene schema q) (hsteady : q.Steady) :
    ∀ b ∈ q.branches, b.Decided scene schema := fun b hb =>
  Query.decided_of_steady (hsteady b hb) (h.answered b hb)

theorem Searchable.findRows_ok (hcodec : scene.codec = .bson)
    (hfields : ∀ spec ∈ schema.indexes, spec.field ≠ keyName) (hmirrored : scene.Mirrored schema)
    (hrestores : Restores scene schema) (hsteady : q.Steady) (h : Searchable scene schema q)
    (hfindable : Findable scene schema q) (trail : Trail) :
    ∃ rows, (findRows scene schema q trail).1 = .ok rows := by
  have hdecided := h.decided hsteady
  have hpassable : ∀ b ∈ q.branches, Passable scene schema b := by
    refine fun b hb => ⟨fun spec hplan row hrow key hkey => ?_, hfindable.encoded b hb⟩
    have hspec : spec ∈ schema.indexes := Plan.mem_indexes hplan rfl
    have hdecode := decodeKey_widened hcodec (hrestores spec hspec row hrow) hkey
    obtain ⟨passes, hpasses, -⟩ := indexFilter_answers (hfields spec hspec) fun c hc =>
      hdecided b hb c hc row hrow
    exact ⟨_, passes, hdecode, hpasses⟩
  refine Search.findRows_ok hcodec hfields hmirrored hrestores hsteady h.valid hdecided
    (fun b hb => (hpassable b hb).visits hmirrored hcodec (h.named b hb)) (fun row hrow hit => ?_) trail
  obtain ⟨b, hb, -, -, -, hanswers⟩ := hit
  exact hfindable.sortable row hrow trail
    ((matchesQuery_iff hdecided hrow trail).mpr ⟨b, hb, hanswers⟩)

end Search

namespace Records

open Search QueryStep

variable {settings : Settings} {session session' : Session} {schema : Schema}

theorem find_eq_read {entity : Entity} (hschema : entity.validSchema = .ok schema)
    (q : Query Predicate) :
    (find settings entity q session).1 = (findRows settings schema q session).1.bind fun rows =>
      rows.mapM fun row => entity.read row.doc := by
  simp only [find, Records.schema, run_bind, Work.ofExcept, hschema]
  rcases findRows settings schema q session with ⟨_ | _, _⟩ <;> rfl

/-- The second query finds the same rows as the first one in the same order, or fails for the same
reason. -/
structure SameOutcome (settings : Settings) (schema : Schema) (session session' : Session)
    (q q' : Query Predicate) : Prop where
  rows : (findRows settings schema q' session').1 = (findRows settings schema q session).1
  documents : ∀ entity : Entity, entity.validSchema = .ok schema →
    (find settings entity q' session').1 = (find settings entity q session).1

/-- What the first query finds the second one finds as well, though maybe in another order. -/
structure SameRows (settings : Settings) (schema : Schema) (session session' : Session)
    (q q' : Query Predicate) : Prop where
  rows : ∀ found, (findRows settings schema q session).1 = .ok found →
    ∃ found', (findRows settings schema q' session').1 = .ok found' ∧ found'.Perm found
  documents : ∀ entity : Entity, entity.validSchema = .ok schema → ∀ docs,
    (find settings entity q session).1 = .ok docs →
      ∃ docs', (find settings entity q' session').1 = .ok docs' ∧ docs'.Perm docs

theorem SameOutcome.of_rows {q q' : Query Predicate}
    (h : (findRows settings schema q' session').1 = (findRows settings schema q session).1) :
    SameOutcome settings schema session session' q q' where
  rows := h
  documents entity hschema := by rw [find_eq_read hschema, find_eq_read hschema, h]

theorem SameRows.of_rows {q q' : Query Predicate}
    (h : ∀ found, (findRows settings schema q session).1 = .ok found →
      ∃ found', (findRows settings schema q' session').1 = .ok found' ∧ found'.Perm found) :
    SameRows settings schema session session' q q' where
  rows := h
  documents entity hschema docs hdocs := by
    rw [find_eq_read hschema] at hdocs
    cases hfound : (findRows settings schema q session).1 with
    | error e =>
      rw [hfound] at hdocs
      cases hdocs
    | ok found =>
      rw [hfound] at hdocs
      obtain ⟨rfl, hread⟩ := docs_of_read (mapM_eq_ok_iff.mp hdocs)
      obtain ⟨found', hfound', hperm⟩ := h found hfound
      refine ⟨found'.map Row.doc, ?_, hperm.map _⟩
      rw [find_eq_read hschema, hfound']
      refine mapM_eq_ok_iff.mpr ?_
      rw [List.map_map]
      exact List.map_congr_left fun row hrow => hread row (hperm.subset hrow)

section Rearranged

variable {steps steps' : List (QueryStep Predicate)}

theorem ready_inOrder (h : Rearranged isAnd steps steps') (scene : Scene) :
    ((Query.build steps).ready scene).Reordered (List.Forall₂ Query.Alike)
      ((Query.build steps').ready scene) := by
  rw [Query.ready_eq_map, Query.ready_eq_map]
  exact h.build_inOrder.map fun halike => List.forall₂_map_left_iff.mpr
    (List.forall₂_map_right_iff.mpr (halike.imp fun _ _ hlike => hlike.map _))

theorem ready_matched (h : Rearranged isOr steps steps') (scene : Scene) :
    ((Query.build steps).ready scene).Reordered Query.Matched
      ((Query.build steps').ready scene) := by
  rw [Query.ready_eq_map, Query.ready_eq_map]
  exact h.build_matched.map fun hmatched => hmatched.map _

/-- Criteria may be given in any order: what a search finds stays the same, also the order of the rows,
and so does the reason for which it fails. Alternatives may be given in any order as well, if the search
is not paged: the rows stay the same then, though not their order. It succeeds if what it looks up has
keys and what it matches has the fields that it sorts by. -/
theorem find_rearranged (hcodec : settings.codec = .bson)
    (hfields : ∀ spec ∈ schema.indexes, spec.field ≠ keyName)
    (hmirrored : (scene settings session).Mirrored schema)
    (hrestores : Restores (scene settings session) schema)
    (hq : Searchable (scene settings session) schema
      ((Query.build steps).ready (scene settings session)))
    (hview : session'.txn.view = session.txn.view) :
    (∀ steps', Rearranged isAnd steps steps' →
      SameOutcome settings schema session session' (Query.build steps) (Query.build steps')) ∧
    ((Query.build steps).skip = none → (Query.build steps).limit = none →
      ∀ steps', Rearranged isOr steps steps' →
        SameRows settings schema session session' (Query.build steps) (Query.build steps')) ∧
    (Findable (scene settings session) schema ((Query.build steps).ready (scene settings session)) →
      ∃ rows, (findRows settings schema (Query.build steps) session).1 = .ok rows ∧
        ∀ entity : Entity, entity.validSchema = .ok schema →
          (find settings entity (Query.build steps) session).1 =
            rows.mapM fun row => entity.read row.doc) := by
  have hscene : scene settings session' = scene settings session := by rw [scene, hview, scene]
  have hsteady : ((Query.build steps).ready (scene settings session)).Steady := Query.ready_steady _ _
  have hdecided := hq.decided hsteady
  refine ⟨fun steps' h => .of_rows ?criteria, fun hskip hlimit steps' h => .of_rows ?alternatives,
    fun hfindable => ?succeeds⟩
  case criteria =>
    have hsteady' : ((Query.build steps').ready (scene settings session)).Steady :=
      Query.ready_steady _ _
    have hsame := findRows_reordered hcodec hfields hmirrored hrestores (ready_inOrder h _) hq.valid
      hdecided hsteady (trail session)
    simp only [findRows, searching_run, hscene, hsame]
    exact (findRows_steady hsteady').answer _ _
  case alternatives =>
    intro found hfound
    have hready : ((Query.build steps).ready (scene settings session)).skip = none ∧
        ((Query.build steps).ready (scene settings session)).limit = none := by
      cases hbuild : Query.build steps
      rw [hbuild] at hskip hlimit
      exact ⟨hskip, hlimit⟩
    simp only [findRows, searching_run, hscene] at hfound ⊢
    exact findRows_matched hcodec hfields hmirrored hrestores (ready_matched h _) hsteady hready.1
      hready.2 hdecided hfound (trail session')
  case succeeds =>
    obtain ⟨rows, hrows⟩ :=
      hq.findRows_ok hcodec hfields hmirrored hrestores hsteady hfindable (trail session)
    have hfound : (findRows settings schema (Query.build steps) session).1 = .ok rows := by
      simp only [findRows, searching_run, hrows]
    refine ⟨rows, hfound, fun entity hschema => ?_⟩
    rw [find_eq_read hschema, hfound]
    rfl

end Rearranged

def shelfSteps : List (QueryStep Predicate) :=
  [.and "place.shelf" (.condition (.ge (.value (.int32 1)))),
    .and "code" (.condition (.ne (.value (.string "z")))),
    .and "place.shelf" (.condition (.lt (.value (.int32 2)))),
    .or [.and "code" (.condition (.eq (.value (.string "b"))))],
    .or [.and keyName (.condition (.gt (.value (.int32 1))))],
    .sortBy ["code"]]

theorem branches_shelfSteps {b : Query Test}
    (h : b ∈ ((Query.build shelfSteps).ready shelved).branches) :
    b = (Query.build shelfSteps).ready shelved ∨
      b = (Query.build [.and "code" (.condition (.eq (.value (.string "b"))))]).ready shelved ∨
      b = (Query.build [.and keyName (.condition (.gt (.value (.int32 1))))]).ready shelved := by
  rw [Query.branches_eq] at h
  have hbranches : b ∈ [(Query.build shelfSteps).ready shelved,
      (Query.build [.and "code" (.condition (.eq (.value (.string "b"))))]).ready shelved,
      (Query.build [.and keyName (.condition (.gt (.value (.int32 1))))]).ready shelved] := h
  simpa only [List.mem_cons, List.not_mem_nil, or_false] using hbranches

theorem searchable_shelfSteps :
    Searchable shelved Turn.bookSchema ((Query.build shelfSteps).ready shelved) where
  valid := by decide +kernel
  named b hb name hname := by
    rcases branches_shelfSteps hb with rfl | rfl | rfl <;> cases hname
  answered b hb c hc row hrow trail := by
    have hclauses : ((Query.build shelfSteps).ready shelved).clauses =
        [⟨"place.shelf", .condition (.ge (.value (.int32 1)))⟩,
          ⟨"place.shelf", .condition (.lt (.value (.int32 2)))⟩,
          ⟨"code", .condition (.ne (.value (.string "z")))⟩] := rfl
    rcases branches_shelfSteps hb with rfl | rfl | rfl
    · simp only [hclauses, List.mem_cons, List.not_mem_nil, or_false] at hc
      rcases hc with rfl | rfl | rfl <;> rcases mem_shelvedRows hrow with rfl | rfl <;> exact ⟨_, rfl⟩
    all_goals
      cases List.mem_singleton.mp hc
      rcases mem_shelvedRows hrow with rfl | rfl <;> exact ⟨_, rfl⟩

theorem findable_shelfSteps :
    Findable shelved Turn.bookSchema ((Query.build shelfSteps).ready shelved) where
  encoded b hb spec values hplan := by
    rcases branches_shelfSteps hb with rfl | rfl | rfl
    · cases hplan
    · cases hplan
      exact List.forall_mem_singleton.mpr ⟨_, rfl⟩
    · cases hplan
  sortable row hrow _ _ field hfield := by
    cases List.mem_singleton.mp hfield
    rcases mem_shelvedRows hrow with rfl | rfl <;> rfl

theorem find_rearranged_shelves :
    let regrouped := (shelfSteps.take 3).reverse ++ shelfSteps.drop 3
    let swapped := shelfSteps.take 3 ++ [shelfSteps[4], shelfSteps[3], shelfSteps[5]]
    shelved.Mirrored Turn.bookSchema ∧ Restores shelved Turn.bookSchema ∧
      Searchable shelved Turn.bookSchema ((Query.build shelfSteps).ready shelved) ∧
      Findable shelved Turn.bookSchema ((Query.build shelfSteps).ready shelved) ∧
      ∃ rows rows', (findRows Turn.bookSettings Turn.bookSchema (Query.build regrouped)
          shelvedBooks).1 = .ok rows ∧
        (findRows Turn.bookSettings Turn.bookSchema (Query.build swapped) shelvedBooks).1 = .ok rows' ∧
          rows'.Perm rows := by
  intro regrouped swapped
  have hregrouped : Rearranged isAnd shelfSteps regrouped :=
    .of_perm (List.reverse_perm (shelfSteps.take 3)).symm (by decide +kernel) (shelfSteps.drop 3)
  have hswapped : Rearranged isOr shelfSteps swapped := .cons _ (.cons _ (.cons _ (.swap _ _ _ rfl)))
  have hscene : scene Turn.bookSettings shelvedBooks = shelved := scene_shelvedBooks
  have hfields : ∀ spec ∈ Turn.bookSchema.indexes, spec.field ≠ keyName := fun _ =>
    Schema.field_ne_of_check rfl
  have hmirrored : (scene Turn.bookSettings shelvedBooks).Mirrored Turn.bookSchema := by
    rw [hscene]
    exact mirrored_shelved
  have hrestores : Restores (scene Turn.bookSettings shelvedBooks) Turn.bookSchema := by
    rw [hscene]
    exact restores_shelved
  have hsearchable : Searchable (scene Turn.bookSettings shelvedBooks) Turn.bookSchema
      ((Query.build shelfSteps).ready (scene Turn.bookSettings shelvedBooks)) := by
    rw [hscene]
    exact searchable_shelfSteps
  obtain ⟨hcriteria, halternatives, hsucceeds⟩ := find_rearranged rfl hfields hmirrored hrestores
    hsearchable (rfl : shelvedBooks.txn.view = _)
  rw [hscene] at hsucceeds
  obtain ⟨rows, hrows, -⟩ := hsucceeds findable_shelfSteps
  obtain ⟨rows', hrows', hperm⟩ := (halternatives rfl rfl swapped hswapped).rows rows hrows
  refine ⟨mirrored_shelved, restores_shelved, searchable_shelfSteps, findable_shelfSteps, rows, rows', ?_,
    hrows', hperm⟩
  exact (hcriteria regrouped hregrouped).rows.trans hrows

def titledSteps : List (QueryStep Predicate) := [.sortBy ["title"]]

/-- Looks a document up that has no key, for the name of its field. -/
def unkeyedSteps : List (QueryStep Predicate) :=
  [.and "code" (.condition (.eq (.value (.document [("x\x00", .int32 1)]))))]

theorem searchable_titledSteps :
    Searchable shelved Turn.bookSchema ((Query.build titledSteps).ready shelved) where
  valid := by decide +kernel
  named b hb name hname := by
    cases List.mem_singleton.mp hb
    cases hname
  answered b hb c hc := by
    cases List.mem_singleton.mp hb
    cases hc

theorem searchable_unkeyedSteps :
    Searchable shelved Turn.bookSchema ((Query.build unkeyedSteps).ready shelved) where
  valid := by decide +kernel
  named b hb name hname := by
    cases List.mem_singleton.mp hb
    cases hname
  answered b hb c hc row hrow trail := by
    cases List.mem_singleton.mp hb
    cases List.mem_singleton.mp hc
    rcases mem_shelvedRows hrow with rfl | rfl <;> exact ⟨_, rfl⟩

/-- All criteria answer on all books, and yet the one search fails when it sorts and the other one when
it looks up. -/
theorem searchable_fails :
    shelved.codec = .bson ∧ (∀ spec ∈ Turn.bookSchema.indexes, spec.field ≠ keyName) ∧
      shelved.Mirrored Turn.bookSchema ∧ Restores shelved Turn.bookSchema ∧
      Searchable shelved Turn.bookSchema ((Query.build titledSteps).ready shelved) ∧
      (findRows Turn.bookSettings Turn.bookSchema (Query.build titledSteps) shelvedBooks).1 =
        .error (.unknownField "book" "title") ∧
      Searchable shelved Turn.bookSchema ((Query.build unkeyedSteps).ready shelved) ∧
      (findRows Turn.bookSettings Turn.bookSchema (Query.build unkeyedSteps) shelvedBooks).1 =
        .error (.codec (.unencodable "x\x00")) := by
  refine ⟨rfl, fun _ => Schema.field_ne_of_check rfl, mirrored_shelved, restores_shelved,
    searchable_titledSteps, ?_, searchable_unkeyedSteps, ?_⟩ <;>
    exact eq_error_of_map (f := List.map Row.key) (by decide +kernel)

end Records

end DocStore
