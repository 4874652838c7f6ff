import DocStore.Proofs.AccessPaths
import DocStore.Proofs.Exchange
import DocStore.Proofs.QueryTrees

/-!
# The order of criteria

A query keeps its criteria in the order in which they were given, the planner looks at the list to tell
which single field they are on, and an index tests the literal ones among them by themselves. None of
this lets the order show, as long as each criterion answers on every record: branches that differ in
the order only are planned alike, get the same candidates in the same order, and accept the same ones
(`pass_alike`).
-/

namespace DocStore

open OrderedKey (widened)

variable {π π' σ : Type}

-- ---------------------------------------------------------------------------
-- Plans
-- ---------------------------------------------------------------------------

namespace Query

/-- Branches that have the same criteria in some order. A lookup is planned only where there are no
alternatives, so these are to be absent from both or from none. -/
structure Alike (b b' : Query π) : Prop where
  clauses : b.clauses.Perm b'.clauses
  indexName : b.indexName = b'.indexName
  ors : b.ors = [] ↔ b'.ors = []

variable {b b' b'' : Query π}

theorem Alike.refl (b : Query π) : b.Alike b := ⟨.refl _, rfl, .rfl⟩

theorem Alike.symm (h : b.Alike b') : b'.Alike b := ⟨h.clauses.symm, h.indexName.symm, h.ors.symm⟩

theorem Alike.trans (h : b.Alike b') (h' : b'.Alike b'') : b.Alike b'' :=
  ⟨h.clauses.trans h'.clauses, h.indexName.trans h'.indexName, h.ors.trans h'.ors⟩

theorem Alike.criteriaFor (h : b.Alike b') (field : String) :
    (b.criteriaFor field).Perm (b'.criteriaFor field) := (h.clauses.filter _).map _

theorem onlyField?_eq_some {field : String} :
    b.onlyField? = some field ↔ b.clauses ≠ [] ∧ ∀ c ∈ b.clauses, c.field = field := by
  unfold onlyField?
  cases b.clauses with
  | nil => simp
  | cons c rest =>
    simp only [List.all_eq_true, beq_iff_eq, Option.ite_none_right_eq_some, Option.some.injEq,
      List.forall_mem_cons, ne_eq, reduceCtorEq, not_false_eq_true, true_and]
    constructor
    · rintro ⟨hrest, rfl⟩
      exact ⟨rfl, hrest⟩
    · rintro ⟨rfl, hrest⟩
      exact ⟨hrest, rfl⟩

theorem Alike.onlyField? (h : b.Alike b') : b.onlyField? = b'.onlyField? := by
  refine Option.ext fun field => ?_
  rw [onlyField?_eq_some, onlyField?_eq_some]
  refine and_congr (not_congr ⟨fun hnil => ?_, fun hnil => ?_⟩) ?_
  · exact List.perm_nil.mp (hnil ▸ h.clauses.symm)
  · exact List.perm_nil.mp (hnil ▸ h.clauses)
  · exact forall_congr' fun c => imp_congr_left h.clauses.mem_iff

theorem Alike.map (h : b.Alike b') (f : π → π') : (b.map f).Alike (b'.map f) where
  clauses := by
    rw [clauses_map, clauses_map]
    exact h.clauses.map _
  indexName := by rw [indexName_map, indexName_map, h.indexName]
  ors := by
    have hors (q : Query π) : (q.map f).ors = [] ↔ q.ors = [] := by
      obtain ⟨_, _ | _, _, _, _, _, _, _⟩ := q <;> simp [Query.map, Query.mapOrs]
    rw [hors, hors, h.ors]

def Within (branches branches' : List (Query π)) : Prop := ∀ b ∈ branches, ∃ b' ∈ branches', b.Alike b'

structure Matched (branches branches' : List (Query π)) : Prop where
  left : Within branches branches'
  right : Within branches' branches

variable {branches branches' branches'' more more' : List (Query π)}

theorem Within.trans (h : Within branches branches') (h' : Within branches' branches'') :
    Within branches branches'' := by
  intro b hb
  obtain ⟨c, hc, halike⟩ := h b hb
  obtain ⟨d, hd, halike'⟩ := h' c hc
  exact ⟨d, hd, halike.trans halike'⟩

theorem Within.append (h : Within branches branches') (h' : Within more more') :
    Within (branches ++ more) (branches' ++ more') :=
  List.forall_mem_append.mpr
    ⟨fun b hb => (h b hb).imp fun _ ⟨hmem, halike⟩ => ⟨List.mem_append_left _ hmem, halike⟩,
      fun b hb => (h' b hb).imp fun _ ⟨hmem, halike⟩ => ⟨List.mem_append_right _ hmem, halike⟩⟩

theorem Within.map (h : Within branches branches') (f : π → π') :
    Within (branches.map (Query.map f)) (branches'.map (Query.map f)) :=
  List.forall_mem_map.mpr fun b hb =>
    (h b hb).elim fun _ ⟨hmem, halike⟩ => ⟨_, List.mem_map_of_mem hmem, halike.map f⟩

theorem within_of_subset (h : branches ⊆ branches') : Within branches branches' := fun b hb =>
  ⟨b, h hb, .refl b⟩

theorem Matched.symm (h : Matched branches branches') : Matched branches' branches :=
  ⟨h.right, h.left⟩

theorem Matched.trans (h : Matched branches branches') (h' : Matched branches' branches'') :
    Matched branches branches'' := ⟨h.left.trans h'.left, h'.right.trans h.right⟩

theorem Matched.append (h : Matched branches branches') (h' : Matched more more') :
    Matched (branches ++ more) (branches' ++ more') :=
  ⟨h.left.append h'.left, h.right.append h'.right⟩

theorem Matched.map (h : Matched branches branches') (f : π → π') :
    Matched (branches.map (Query.map f)) (branches'.map (Query.map f)) :=
  ⟨h.left.map f, h.right.map f⟩

theorem matched_of_perm (h : branches.Perm branches') : Matched branches branches' :=
  ⟨within_of_subset h.subset, within_of_subset h.symm.subset⟩

theorem Matched.cons (halike : b.Alike b') (h : Matched branches branches') :
    Matched (b :: branches) (b' :: branches') := by
  have hfirst : Matched [b] [b'] :=
    ⟨List.forall_mem_singleton.mpr ⟨b', List.mem_singleton_self _, halike⟩,
      List.forall_mem_singleton.mpr ⟨b, List.mem_singleton_self _, halike.symm⟩⟩
  exact hfirst.append h

theorem matched_of_forall₂ (h : List.Forall₂ Alike branches branches') : Matched branches branches' := by
  induction h with
  | nil => exact ⟨nofun, nofun⟩
  | cons halike _ ih => exact ih.cons halike

/-- Queries with the same criteria in some order, whose alternatives are the `same` in some sense. All
the rest is equal, and either both are valid or none is. -/
structure Reordered (same : List (Query π) → List (Query π) → Prop) (q q' : Query π) : Prop where
  root : q.Alike q'
  alternatives : same (branchesOf q.ors) (branchesOf q'.ors)
  sortFields : q.sortFields = q'.sortFields
  reversed : q.reversed = q'.reversed
  skip : q.skip = q'.skip
  limit : q.limit = q'.limit
  error : q.error = none ↔ q'.error = none

variable {q q' : Query π} {same : List (Query π) → List (Query π) → Prop}

theorem Reordered.map {f : π → π'} {same' : List (Query π') → List (Query π') → Prop}
    (h : q.Reordered same q') (hsame : ∀ {branches branches'}, same branches branches' →
      same' (branches.map (Query.map f)) (branches'.map (Query.map f))) :
    (q.map f).Reordered same' (q'.map f) := by
  obtain ⟨hroot, halternatives, hsortFields, hreversed, hskip, hlimit, herror⟩ := h
  have hroot := hroot.map f
  have halternatives := hsame halternatives
  rw [← branchesOf_map, ← branchesOf_map] at halternatives
  cases q
  cases q'
  exact ⟨hroot, halternatives, hsortFields, hreversed, hskip, hlimit, herror⟩

theorem Reordered.inOrder (h : q.Reordered (List.Forall₂ Alike) q') :
    List.Forall₂ Alike q.branches q'.branches := by
  rw [branches_eq, branches_eq]
  exact .cons h.root h.alternatives

theorem Reordered.matched (h : q.Reordered Matched q') : Matched q.branches q'.branches := by
  rw [branches_eq, branches_eq]
  exact h.alternatives.cons h.root

theorem Reordered.unpaged (h : q.Reordered same q') : q.unpaged.Reordered same q'.unpaged where
  root := ⟨h.root.clauses, h.root.indexName, h.root.ors⟩
  alternatives := h.alternatives
  sortFields := rfl
  reversed := rfl
  skip := rfl
  limit := rfl
  error := h.error

theorem validate_eq_ok_iff : q.validate = .ok () ↔ q.error = none := by
  unfold validate
  cases q.error <;> simp

theorem Reordered.valid (h : q.Reordered same q') (hvalid : q.validate = .ok ()) :
    q'.validate = .ok () :=
  validate_eq_ok_iff.mpr (h.error.mp (validate_eq_ok_iff.mp hvalid))

/-- Sorting and paging say nothing about how the rows of a branch are found. -/
theorem matched_paged (q : Query π) (sortFields : List String) (reversed : Bool)
    (skip limit : Option Nat) :
    Matched q.branches { q with sortFields, reversed, skip, limit }.branches := by
  rw [branches_eq, branches_eq]
  exact .cons ⟨.refl _, rfl, .rfl⟩ (matched_of_forall₂ (List.forall₂_same.mpr fun b _ => .refl b))

end Query

namespace Plan

variable {b b' : Query π}

theorem lookupValues?_alike (h : b.Alike b') (spec : IndexSpec) :
    lookupValues? spec b = lookupValues? spec b' := by
  have hcriteria := h.criteriaFor spec.field
  unfold lookupValues?
  cases hors : b.ors with
  | cons q rest =>
    cases hors' : b'.ors with
    | nil => exact nomatch hors ▸ h.ors.mpr hors'
    | cons q' rest' => rfl
  | nil =>
    rw [h.ors.mp hors]
    generalize b.criteriaFor spec.field = these at hcriteria ⊢
    generalize b'.criteriaFor spec.field = those at hcriteria ⊢
    rcases these with _ | ⟨c, _ | ⟨d, rest⟩⟩
    · rw [List.nil_perm.mp hcriteria]
    · rw [List.singleton_perm.mp hcriteria]
    · rcases those with _ | ⟨c', _ | ⟨d', rest'⟩⟩
      · cases hcriteria.length_eq
      · cases hcriteria.length_eq
      · rfl

/-- The planner does not see the order of the criteria. -/
theorem make_alike (h : b.Alike b') (codec : Codec) (schema : Schema) :
    make codec schema b = make codec schema b' := by
  have hempty (field : String) : (b.criteriaFor field).isEmpty = (b'.criteriaFor field).isEmpty :=
    (h.criteriaFor field).isEmpty_eq
  have hfor : indexFor schema b = indexFor schema b' := by
    unfold indexFor
    rw [h.indexName, h.onlyField?]
  simp only [make, hfor, lookupValues?_alike h, hempty]

end Plan

-- ---------------------------------------------------------------------------
-- Tests
-- ---------------------------------------------------------------------------

namespace Evaluation

variable {scene : Scene} {schema : Schema} {row : Row}

theorem allHold_perm {field : String} {value : Value} {conditions conditions' : List Condition}
    (hperm : conditions.Perm conditions')
    (hanswers : ∀ c ∈ conditions, ∃ holds,
      c.holds schema Operand.resolveAlone field value = .ok holds) :
    allHold schema field value conditions = allHold schema field value conditions' := by
  induction hperm with
  | nil => rfl
  | cons c _ ih =>
    simp only [allHold, ih fun c' hc' => hanswers c' (List.mem_cons_of_mem _ hc')]
  | swap c d rest =>
    obtain ⟨holds, hholds⟩ := hanswers d List.mem_cons_self
    obtain ⟨holds', hholds'⟩ := hanswers c (List.mem_cons_of_mem _ List.mem_cons_self)
    simp only [allHold, hholds, hholds', bind, Except.bind]
    cases holds <;> cases holds' <;> rfl
  | trans hfirst _ ih ih' =>
    exact (ih hanswers).trans (ih' fun c hc => hanswers c (hfirst.mem_iff.mpr hc))

variable {b b' : Query Test}

theorem indexFilter_alike (h : b.Alike b') {field : String} (hfield : field ≠ keyName)
    (hdecided : ∀ c ∈ b.clauses, ∃ holds, Answers scene schema row [c] holds) :
    indexFilter schema b field (widened (row.doc.lookupOrNull field)) =
      indexFilter schema b' field (widened (row.doc.lookupOrNull field)) := by
  refine allHold_perm ((h.criteriaFor field).filterMap _) fun condition hcondition => ?_
  obtain ⟨criterion, hcriterion, hliteral⟩ := List.mem_filterMap.mp hcondition
  obtain ⟨c, hc, rfl⟩ := List.mem_map.mp hcriterion
  obtain ⟨hmem, hcfield⟩ := List.mem_filter.mp hc
  have hcfield : c.field = field := by simpa using hcfield
  obtain ⟨hkind, hplain⟩ := Criterion.literal?_eq_some hliteral
  obtain ⟨holds, hanswers⟩ := hdecided c hmem
  subst hcfield
  exact ⟨holds, holds_in_index hfield hkind hplain hanswers⟩

theorem Answers.perm {clauses clauses' : List (Clause Test)} {holds : Bool}
    (hperm : clauses.Perm clauses')
    (hdecided : ∀ c ∈ clauses, ∃ holds, Answers scene schema row [c] holds)
    (h : Answers scene schema row clauses holds) : Answers scene schema row clauses' holds := by
  obtain ⟨first, hfirst, hiff⟩ := answers_of_each hdecided
  obtain ⟨second, hsecond, hiff'⟩ :=
    answers_of_each fun c hc => hdecided c (hperm.mem_iff.mpr hc)
  have hsame : (∀ c ∈ clauses, Answers scene schema row [c] true) ↔
      ∀ c ∈ clauses', Answers scene schema row [c] true :=
    forall_congr' fun c => imp_congr_left hperm.mem_iff
  have heq : first = second := Bool.eq_iff_iff.mpr (hiff.trans (hsame.trans hiff'.symm))
  rw [h.unique hfirst, heq]
  exact hsecond

end Evaluation

theorem Query.Alike.decided {scene : Scene} {schema : Schema} {b b' : Query Test} (h : b.Alike b')
    (hdecided : b.Decided scene schema) : b'.Decided scene schema := fun c hc =>
  hdecided c (h.clauses.mem_iff.mpr hc)

theorem Query.Matched.steady {q q' : Query Test} (h : Matched q.branches q'.branches)
    (hsteady : q.Steady) : q'.Steady := by
  intro b' hb'
  obtain ⟨b, hb, halike⟩ := h.right b' hb'
  exact fun c hc => hsteady b hb c (halike.clauses.mem_iff.mp hc)

theorem Query.Matched.decided {scene : Scene} {schema : Schema} {branches branches' : List (Query Test)}
    (h : Matched branches branches') (hdecided : ∀ b ∈ branches, b.Decided scene schema) :
    ∀ b ∈ branches', b.Decided scene schema := by
  intro b' hb'
  obtain ⟨b, hb, halike⟩ := h.right b' hb'
  exact halike.symm.decided (hdecided b hb)

-- ---------------------------------------------------------------------------
-- Candidates
-- ---------------------------------------------------------------------------

namespace Cursor

variable {ε : Type} {codec : Codec} {view : Data} {source : Source} {batchSize : Nat}
  {filter filter' : Option (Value → Except ε Bool)} {raise : EngineError → ε}

theorem withRecords_refiltered (filter' : Option (Value → Except ε Bool)) (keys : List Bytes) :
    withRecords view ⟨source, batchSize, filter, raise⟩ keys =
      withRecords view ⟨source, batchSize, filter', raise⟩ keys := by
  induction keys with
  | nil => rfl
  | cons key rest ih =>
    simp only [withRecords, ih]
    rfl

theorem listedKeys_refiltered {pairs : List (Bytes × Bytes)}
    (h : ∀ pair ∈ pairs, passes codec ⟨source, batchSize, filter, raise⟩ pair.1 =
      passes codec ⟨source, batchSize, filter', raise⟩ pair.1) :
    listedKeys codec ⟨source, batchSize, filter, raise⟩ pairs =
      listedKeys codec ⟨source, batchSize, filter', raise⟩ pairs := by
  induction pairs with
  | nil => rfl
  | cons pair rest ih =>
    obtain ⟨entry, list⟩ := pair
    rw [listedKeys_cons, listedKeys_cons, ih fun pair hpair => h pair (List.mem_cons_of_mem _ hpair),
      h (entry, list) List.mem_cons_self]
    rfl

theorem candidates_refiltered {pairs : List (Bytes × Bytes)}
    (h : ∀ pair ∈ pairs, passes codec ⟨source, batchSize, filter, raise⟩ pair.1 =
      passes codec ⟨source, batchSize, filter', raise⟩ pair.1) :
    candidates codec view ⟨source, batchSize, filter, raise⟩ pairs =
      candidates codec view ⟨source, batchSize, filter', raise⟩ pairs := by
  simp only [candidates, listedKeys_refiltered h, withRecords_refiltered filter']
  rfl

end Cursor

namespace Search

open Evaluation

variable {scene : Scene} {schema : Schema} {b b' : Query Test} {sink : Sink σ} {limit : Option Nat}

section Tests

variable (halike : b.Alike b') (hdecided : b.Decided scene schema)
include halike hdecided

theorem clausesHold_alike {row : Row} (hrow : row.Stored scene schema) :
    (clausesHold scene schema row b.clauses).Echo true
      (clausesHold scene schema row b'.clauses) := by
  obtain ⟨holds, hanswers⟩ := hdecided.answers hrow
  have hanswers' := hanswers.perm halike.clauses fun c hc => hdecided c hc row hrow
  exact fun trail _ => (hanswers trail).trans (hanswers' trail).symm

theorem consider_alike {c : Candidate} (hcurrent : Candidate.Current scene schema c) :
    (consider scene schema sink b c).Echo true (consider scene schema sink b' c) := by
  refine .after _ fun _ s _ _ => ?_
  split
  · exact .refl _
  refine .after _ fun _ doc _ hdecode => .bind (.ofExec ?_) (fun holds => .refl _) fun holds => ?_
  · have hdoc : decodeRecord scene.codec schema c.key c.value = .ok doc := (Prod.mk.inj hdecode).1
    exact clausesHold_alike halike hdecided ⟨c.value, hcurrent, hdoc⟩
  · cases holds with
    | false => exact .pure _
    | true => exact accept_steady _

variable (hsteady : ∀ c ∈ b.clauses, c.Steady)
include hsteady

theorem considerAll_alike (stop : Option Failure) {left : List Candidate}
    (hcurrent : ∀ c ∈ left, Candidate.Current scene schema c) :
    (considerAll scene schema sink limit b (halt stop) left).Echo true
      (considerAll scene schema sink limit b' (halt stop) left) := by
  induction left with
  | nil =>
    rw [considerAll, considerAll]
    exact .guarded (.refl (halt stop)) limit
  | cons c rest ih =>
    rw [considerAll, considerAll]
    have hfirst : (consider scene schema sink b c).Echo true (consider scene schema sink b' c) :=
      consider_alike halike hdecided (hcurrent c List.mem_cons_self)
    refine .guarded (hfirst.bind (fun _ => ih fun c hc => hcurrent c (List.mem_cons_of_mem _ hc))
      fun _ => ?_) limit
    exact considerAll_steady hsteady (halt_steady stop) rest

end Tests

-- ---------------------------------------------------------------------------
-- Passes
-- ---------------------------------------------------------------------------

theorem current_of_listing (spec : IndexSpec) (keys : List Bytes) :
    ∀ c ∈ (listing schema spec (keys.zip ((keys.map fun key =>
        Key.encode (.record schema.typeName key)).map scene.view.get?))).1,
      Candidate.Current scene schema c := by
  induction keys with
  | nil => exact nofun
  | cons key rest ih =>
    rw [List.map_cons, List.map_cons, List.zip_cons_cons]
    cases hvalue : scene.view.get? (Key.encode (.record schema.typeName key)) with
    | none => exact nofun
    | some value => exact List.forall_mem_cons.mpr ⟨hvalue, ih⟩

section Passes

variable (hcodec : scene.codec = .bson) (hfields : ∀ spec ∈ schema.indexes, spec.field ≠ keyName)
  (hmirrored : scene.Mirrored schema) (hrestores : Restores scene schema)
  (halike : b.Alike b') (hdecided : b.Decided scene schema)
include hcodec hfields hmirrored hrestores halike hdecided

theorem candidates_alike {spec : IndexSpec} (hspec : spec ∈ schema.indexes) (filtered : Bool) :
    let source : Source := .index schema.typeName spec.name
    let filter (b : Query Test) := if filtered then some (indexFilter schema b spec.field) else none
    Cursor.candidates scene.codec scene.view ⟨source, scene.batchSize, filter b, Failure.ofEngine⟩
        (scene.view.rest source.start none) =
      Cursor.candidates scene.codec scene.view ⟨source, scene.batchSize, filter b', .ofEngine⟩
        (scene.view.rest source.start none) := by
  refine Cursor.candidates_refiltered fun pair hpair => ?_
  cases filtered with
  | false => rfl
  | true =>
    obtain ⟨value, keys, hentry, -, hne, hlisted⟩ := entry_listed hmirrored hspec hpair
    obtain ⟨pk, hpk⟩ := List.exists_mem_of_ne_nil keys hne
    obtain ⟨doc, hrow, hvalue⟩ := (hlisted pk).mp hpk
    have hdecode := decodeKey_widened hcodec (hrestores spec hspec ⟨pk, doc⟩ hrow) hvalue
    simp only [if_true, hentry, passes_decoded hdecode]
    exact indexFilter_alike halike (hfields spec hspec) fun c hc => hdecided c hc ⟨pk, doc⟩ hrow

theorem finds_alike {plan : Plan} {keys : List Bytes}
    (hplan : Plan.make scene.codec schema b = .ok plan) (h : Finds scene schema b plan keys) :
    Finds scene schema b' plan keys := by
  cases plan with
  | lookup spec values => exact h
  | recordScan => exact h
  | indexScan spec filtered =>
    obtain ⟨found, hfound, hrest⟩ := h
    have hspec : spec ∈ schema.indexes := Plan.mem_indexes hplan rfl
    rw [candidates_alike hcodec hfields hmirrored hrestores halike hdecided hspec filtered] at hfound
    exact ⟨found, hfound, hrest⟩

theorem visits_alike {keys : List Bytes} (h : Visits scene schema b keys) :
    Visits scene schema b' keys := by
  obtain ⟨plan, hplan, hfinds⟩ := h
  exact ⟨plan, Plan.make_alike halike scene.codec schema ▸ hplan,
    finds_alike hcodec hfields hmirrored hrestores halike hdecided hplan hfinds⟩

variable (hsteady : ∀ c ∈ b.clauses, c.Steady)
include hsteady

omit hcodec hfields hmirrored hrestores in
theorem scan_alike {source : Source} {filter filter' : Option (Value → Except Failure Bool)}
    {keys : List Bytes} (hsteady' : ∀ c ∈ b'.clauses, c.Steady)
    (hfinds : ScanFinds scene schema source filter keys)
    (hsame : Cursor.candidates scene.codec scene.view
        ⟨source, scene.batchSize, filter, Failure.ofEngine⟩ (scene.view.rest source.start none) =
      Cursor.candidates scene.codec scene.view
        ⟨source, scene.batchSize, filter', .ofEngine⟩ (scene.view.rest source.start none)) :
    (scan scene schema sink limit b source filter).Echo true
      (scan scene schema sink limit b' source filter') := by
  obtain ⟨found, hfound, hcurrent, -⟩ := hfinds
  have hfound' := hfound
  rw [hsame] at hfound'
  have hscan : (scan scene schema sink limit b source filter).Echo true
      (considerAll scene schema sink limit b (halt none) found) :=
    scan_considers hsteady (Cursor.yields_start hfound)
  have hscan' : (scan scene schema sink limit b' source filter').Echo true
      (considerAll scene schema sink limit b' (halt none) found) :=
    scan_considers hsteady' (Cursor.yields_start hfound')
  exact (hscan.trans (considerAll_alike halike hdecided hsteady none hcurrent)).trans hscan'.symm

/-- Passes for branches that are alike do the same, to the last row and to the same failure. -/
theorem pass_alike :
    (pass scene schema sink limit b).Echo true (pass scene schema sink limit b') := by
  have hsteady' : ∀ c ∈ b'.clauses, c.Steady := fun c hc =>
    hsteady c (halike.clauses.mem_iff.mpr hc)
  unfold pass
  rw [← Plan.make_alike halike]
  refine .after _ fun _ plan _ hmake => .after _ fun _ _ _ _ => ?_
  have hplan : Plan.make scene.codec schema b = .ok plan := (Prod.mk.inj hmake).1
  cases plan with
  | lookup spec values =>
    refine .after _ fun _ keys _ _ => .after _ fun _ found _ hfound => ?_
    obtain rfl : (keys.map fun key => Key.encode (.record schema.typeName key)).map
        scene.view.get? = found := Except.ok.inj (Prod.mk.inj hfound).1
    rw [considerEach_considers, considerEach_considers]
    exact considerAll_alike halike hdecided hsteady _ (current_of_listing spec keys)
  | indexScan spec filtered =>
    have hspec : spec ∈ schema.indexes := Plan.mem_indexes hplan rfl
    obtain ⟨keys, hkeys, -⟩ :=
      (indexPlan_covers hcodec hfields hmirrored hrestores hspec hdecided filtered).finds
    exact scan_alike halike hdecided hsteady hsteady' hkeys
      (candidates_alike hcodec hfields hmirrored hrestores halike hdecided hspec filtered)
  | recordScan =>
    obtain ⟨keys, hkeys, -⟩ := (recordScan_covers (q := b)).finds
    exact scan_alike halike hdecided hsteady hsteady' hkeys rfl

end Passes

-- ---------------------------------------------------------------------------
-- Searches
-- ---------------------------------------------------------------------------

section Searches

variable (hcodec : scene.codec = .bson) (hfields : ∀ spec ∈ schema.indexes, spec.field ≠ keyName)
  (hmirrored : scene.Mirrored schema) (hrestores : Restores scene schema)
include hcodec hfields hmirrored hrestores

theorem passEach_alike {branches branches' : List (Query Test)}
    (halike : List.Forall₂ Query.Alike branches branches')
    (hdecided : ∀ b ∈ branches, b.Decided scene schema)
    (hsteady : ∀ b ∈ branches, ∀ c ∈ b.clauses, c.Steady) :
    (passEach scene schema sink limit branches).Echo true
      (passEach scene schema sink limit branches') := by
  induction halike with
  | nil => exact .refl (pure ())
  | cons hfirst _ ih =>
    rw [passEach, passEach]
    have hrest := fun b hb => hsteady b (List.mem_cons_of_mem _ hb)
    refine .guarded (.bind (pass_alike hcodec hfields hmirrored hrestores hfirst
      (hdecided _ List.mem_cons_self) (hsteady _ List.mem_cons_self)) (fun _ => ?_)
      fun _ => passEach_steady hrest) limit
    exact ih (fun b hb => hdecided b (List.mem_cons_of_mem _ hb)) hrest

theorem passAll_alike {branches branches' : List (Query Test)}
    (halike : List.Forall₂ Query.Alike branches branches')
    (hdecided : ∀ b ∈ branches, b.Decided scene schema)
    (hsteady : ∀ b ∈ branches, ∀ c ∈ b.clauses, c.Steady) :
    (passAll scene schema sink limit branches).Echo true
      (passAll scene schema sink limit branches') := by
  cases halike with
  | nil => exact .refl (pure ())
  | cons hfirst hrest =>
    rw [passAll, passAll]
    have hsteady' := fun b hb => hsteady b (List.mem_cons_of_mem _ hb)
    refine .bind (pass_alike hcodec hfields hmirrored hrestores hfirst
      (hdecided _ List.mem_cons_self) (hsteady _ List.mem_cons_self)) (fun _ => ?_)
      fun _ => passEach_steady hsteady'
    exact passEach_alike hcodec hfields hmirrored hrestores hrest
      (fun b hb => hdecided b (List.mem_cons_of_mem _ hb)) hsteady'

variable {q q' : Query Test}

theorem sweep_reordered (h : q.Reordered (List.Forall₂ Query.Alike) q')
    (hdecided : ∀ b ∈ q.branches, b.Decided scene schema) (hsteady : q.Steady) (acc : σ) (trail : Trail) :
    let swept := sweep scene schema sink q acc trail
    let swept' := sweep scene schema sink q' acc trail
    swept.1 = swept'.1 ∧ swept.2.1 = swept'.2.1 := by
  have hpasses : (passAll scene schema sink q.limit q.branches).Echo true
      (passAll scene schema sink q.limit q'.branches) :=
    passAll_alike hcodec hfields hmirrored hrestores h.inOrder hdecided hsteady
  have hskip : q'.skipCount = q.skipCount := by rw [Query.skipCount, ← h.skip, Query.skipCount]
  obtain ⟨hanswer, hlast⟩ := hpasses ⟨trail, [], q.skipCount, 0, acc⟩ (.inl rfl)
  simp only [sweep, hskip, ← h.limit]
  exact ⟨hanswer, hlast.acc⟩

theorem sweepRows_reordered (h : q.Reordered (List.Forall₂ Query.Alike) q')
    (hdecided : ∀ b ∈ q.branches, b.Decided scene schema) (hsteady : q.Steady) :
    (sweepRows scene schema q).Echo true (sweepRows scene schema q') := by
  intro trail _
  obtain ⟨hanswer, hacc⟩ : (sweep scene schema collector q [] trail).1 =
      (sweep scene schema collector q' [] trail).1 ∧
        (sweep scene schema collector q [] trail).2.1 =
          (sweep scene schema collector q' [] trail).2.1 :=
    sweep_reordered hcodec hfields hmirrored hrestores h hdecided hsteady [] trail
  simp only [sweepRows, hanswer, hacc]

theorem sortedRows_reordered (h : q.Reordered (List.Forall₂ Query.Alike) q')
    (hdecided : ∀ b ∈ q.branches, b.Decided scene schema) (hsteady : q.Steady) :
    (sortedRows scene schema q).Echo true (sortedRows scene schema q') := by
  unfold sortedRows
  rw [← h.sortFields, ← h.reversed]
  refine Exec.Echo.bind ?_ (fun _ _ _ => rfl) fun _ => .bind (.ofExcept _) fun _ => .pure _
  exact sweepRows_reordered hcodec hfields hmirrored hrestores h.unpaged
    ((q.matched_paged [] false none none).decided hdecided) hsteady.unpaged

theorem walk_reordered (h : q.Reordered (List.Forall₂ Query.Alike) q') (hvalid : q.validate = .ok ())
    (hdecided : ∀ b ∈ q.branches, b.Decided scene schema) (hsteady : q.Steady) (acc : σ)
    (trail : Trail) :
    let walked := walk scene schema sink q acc trail
    let walked' := walk scene schema sink q' acc trail
    walked.1 = walked'.1 ∧ walked.2.1 = walked'.2.1 := by
  have hvalid' := h.valid hvalid
  cases hsort : q.sortFields.isEmpty with
  | true =>
    have hsort' : q'.sortFields.isEmpty = true := h.sortFields ▸ hsort
    simp only [walk_unsorted hvalid hsort, walk_unsorted hvalid' hsort']
    exact sweep_reordered hcodec hfields hmirrored hrestores h hdecided hsteady acc trail
  | false =>
    have hsort' : q'.sortFields.isEmpty = false := h.sortFields ▸ hsort
    have hslice (rows : List Row) : slice q rows = slice q' rows := by
      unfold slice Query.skipCount
      rw [h.skip, h.limit]
    have hsorted := sortedRows_reordered hcodec hfields hmirrored hrestores h hdecided hsteady trail
      (.inl rfl)
    simp only [walk_sorted hvalid hsort, walk_sorted hvalid' hsort', ← hsorted]
    cases (sortedRows scene schema q trail).1 with
    | error e => exact ⟨rfl, rfl⟩
    | ok rows => simp only [feedSorted, hslice, and_self]

theorem findRows_reordered (h : q.Reordered (List.Forall₂ Query.Alike) q') (hvalid : q.validate = .ok ())
    (hdecided : ∀ b ∈ q.branches, b.Decided scene schema) (hsteady : q.Steady) (trail : Trail) :
    (findRows scene schema q trail).1 = (findRows scene schema q' trail).1 := by
  obtain ⟨hanswer, hacc⟩ : (walk scene schema collector q [] trail).1 =
      (walk scene schema collector q' [] trail).1 ∧
        (walk scene schema collector q [] trail).2.1 =
          (walk scene schema collector q' [] trail).2.1 :=
    walk_reordered hcodec hfields hmirrored hrestores h hvalid hdecided hsteady [] trail
  simp only [findRows, hanswer, hacc]

end Searches

end Search

end DocStore
