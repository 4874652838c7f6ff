import DocStore.Proofs.AccessPaths
import DocStore.Proofs.SortedKeys
import DocStore.Proofs.Sorting

/-!
# The order of rows without sorting

The rows that a search finds are some of its candidates, in their order (`considerAll_adds`); what is
skipped, cut off or does not match leaves gaps. A scan of an index has its candidates from the entries
in the order of their keys, and these stand to each other as the values do, so the values of the rows
do not go down. A lookup has its candidates in the order of the primary keys.
-/

namespace DocStore

-- ---------------------------------------------------------------------------
-- Values of one kind
-- ---------------------------------------------------------------------------

namespace Value

variable {v w : Value} {order order' : Ordering}

theorem Ranked.compares (h : v.Ranked w order) : ∃ o, v.compare w = some o := by
  cases h with
  | integers hv hw => exact ⟨_, compare_integers hv hw⟩
  | _ => exact ⟨_, rfl⟩

theorem Ranked.isLE_of_keys (h : v.Ranked w order) (h' : w.Ranked v order') {a b : Bytes}
    (ha : OrderedKey.encode v = .ok a) (hb : OrderedKey.encode w = .ok b) (hle : ¬ b < a) :
    ∃ o, v.compare w = some o ∧ o.isLE := by
  obtain ⟨o, ho⟩ := h.compares
  refine ⟨o, ho, ?_⟩
  cases o with
  | lt => rfl
  | eq => rfl
  | gt =>
    have hback : w.compare v = some .lt := by rw [compare_swap v w, ho, Option.map_some]; rfl
    obtain ⟨b', a', hb', ha', horder⟩ := OrderedKey.encode_ranked h'
    cases ha.symm.trans ha'
    cases hb.symm.trans hb'
    rw [h'.lt_of_compare hback] at horder
    exact absurd (Bytes.compare_eq_lt.mp horder) hle

end Value

-- ---------------------------------------------------------------------------
-- Candidates in order
-- ---------------------------------------------------------------------------

def KeyList.listedIn (pair : Bytes × Bytes) : List Bytes := (decode? pair.2).getD []

namespace Cursor

variable {ε : Type} {codec : Codec} {view : Data} {c : Cursor ε}

theorem withRecords_keys {keys : List Bytes} {found : List Candidate}
    (h : c.withRecords view keys = .ok found) : found.map Candidate.key = keys := by
  induction keys generalizing found with
  | nil =>
    cases h
    rfl
  | cons key rest ih =>
    obtain ⟨value, more, -, hmore, rfl⟩ := withRecords_cons_ok h
    rw [List.map_cons, ih hmore]

theorem listedKeys_sublist {pairs : List (Bytes × Bytes)} {keys : List Bytes}
    (h : c.listedKeys codec pairs = .ok keys) : keys.Sublist (pairs.flatMap KeyList.listedIn) := by
  induction pairs generalizing keys with
  | nil =>
    cases h
    exact .slnil
  | cons pair rest ih =>
    obtain ⟨entry, list⟩ := pair
    rw [List.flatMap_cons]
    obtain ⟨-, hrest⟩ | ⟨listed, more, -, hlisted, hmore, rfl⟩ := listedKeys_cons_ok h
    · exact (ih hrest).trans (List.sublist_append_right _ _)
    · have hlist : KeyList.listedIn (entry, list) = listed := by rw [KeyList.listedIn, hlisted]; rfl
      rw [hlist]
      exact (ih hmore).append_left listed

/-- A cursor on an index hands out keys in the order in which the entries list them. -/
theorem Yields.keys_sublist {typeName indexName : String} (hsource : c.source = .index typeName indexName)
    {left : List Candidate} {stop : Option ε} (h : c.Yields codec view .start left stop) :
    (left.map Candidate.key).Sublist
      ((view.rest (Key.indexPrefix typeName indexName) none).flatMap KeyList.listedIn) := by
  obtain ⟨part, found, hfound, hleft, hstop⟩ := h.read
  have hahead : part <+: view.rest (Key.indexPrefix typeName indexName) none := by
    have hstart : ahead view c .start = view.rest (Key.indexPrefix typeName indexName) none := by
      rw [ahead, hsource]
      rfl
    rw [← hstart]
    cases stop with
    | none => exact hstop ▸ List.prefix_refl _
    | some e =>
      obtain ⟨page, hpage, -⟩ := hstop
      exact (List.prefix_append part page).trans hpage
  obtain ⟨more, hmore⟩ := hahead
  unfold candidates at hfound
  simp only [hsource] at hfound
  cases hkeys : c.listedKeys codec part with
  | error e => simp only [hkeys, reduceCtorEq] at hfound
  | ok keys =>
    simp only [hkeys] at hfound
    have hleftKeys : left.map Candidate.key = keys := hleft ▸ withRecords_keys hfound
    rw [← hmore, List.flatMap_append, hleftKeys]
    exact (listedKeys_sublist hkeys).trans (List.sublist_append_left _ _)

end Cursor

theorem Index.lookup_ascending {codec : Codec} {schema : Schema} {spec : IndexSpec}
    {values : List Value} {view : Data} {reads : List Bytes} {keys : List Bytes}
    (h : (lookup codec schema spec values view reads).1 = .ok keys) : keys.Pairwise (· < ·) := by
  simp only [lookup, Reading.run_bind] at h
  rcases hcollect : collect codec schema spec (values.flatMap variants) view reads with ⟨_ | found, last⟩
  · rw [hcollect] at h
    cases h
  · rw [hcollect] at h
    cases h
    exact ascending_sortKeys found

-- ---------------------------------------------------------------------------
-- Rows in the order of the candidates
-- ---------------------------------------------------------------------------

namespace Search

variable {scene : Scene} {schema : Schema} {q : Query Test} {spec : IndexSpec} {limit : Option Nat}
  {keys more : List Bytes} {s s' s'' : Sweep (List Row)}

/-- The search has gone on to collect the rows of some of these keys, in their order. -/
def Added (keys : List Bytes) (s s' : Sweep (List Row)) : Prop :=
  ∃ rows : List Row, s'.acc = rows.reverse ++ s.acc ∧ (rows.map Row.key).Sublist keys

theorem Added.none (hacc : s'.acc = s.acc) : Added keys s s' := ⟨[], hacc, List.nil_sublist _⟩

theorem Added.trans (h : Added keys s s') (h' : Added more s' s'') : Added (keys ++ more) s s'' := by
  obtain ⟨rows, hacc, hkeys⟩ := h
  obtain ⟨rows', hacc', hkeys'⟩ := h'
  refine ⟨rows ++ rows', ?_, ?_⟩
  · rw [hacc', hacc, List.reverse_append, List.append_assoc]
  · rw [List.map_append]
    exact hkeys.append hkeys'

theorem Added.mono (h : Added keys s s') (hsub : keys.Sublist more) : Added more s s' := by
  obtain ⟨rows, hacc, hkeys⟩ := h
  exact ⟨rows, hacc, hkeys.trans hsub⟩

theorem consider_adds (c : Candidate) (s : Sweep (List Row)) :
    Triple (consider scene schema collector q c) s (fun _ s' => Added [c.key] s s') (fun _ => True) := by
  have hrun : consider scene schema collector q c s = _ := consider_run c s
  split at hrun
  · exact Triple.of_run hrun (.none rfl)
  · cases hdecode : decodeRecord scene.codec schema c.key c.value with
    | error e =>
      rw [hdecode] at hrun
      exact Triple.of_run_error hrun trivial
    | ok doc =>
      rw [hdecode] at hrun
      rcases htest : Evaluation.clausesHold scene schema ⟨c.key, doc⟩ q.clauses s.trail with
        ⟨_ | _ | _, trail⟩
      all_goals simp only [htest] at hrun
      · exact Triple.of_run_error hrun trivial
      · exact Triple.of_run hrun (.none rfl)
      · rw [accept_run] at hrun
        split at hrun
        · exact Triple.of_run hrun ⟨[⟨c.key, doc⟩], rfl, List.Sublist.refl _⟩
        · exact Triple.of_run hrun (.none rfl)

theorem considerAll_adds (stop : Option Failure) (left : List Candidate) (s : Sweep (List Row)) :
    Triple (considerAll scene schema collector limit q (halt stop) left) s
      (fun _ s' => Added (left.map Candidate.key) s s') (fun _ => True) := by
  induction left generalizing s with
  | nil =>
    refine Triple.bind_of_run (isFull_run s) ?_
    split
    · exact Triple.pure (.none rfl)
    · cases stop with
      | none => exact Triple.pure (.none rfl)
      | some e => exact Triple.throw trivial
  | cons c rest ih =>
    refine Triple.bind_of_run (isFull_run s) ?_
    split
    · exact Triple.pure (.none rfl)
    · refine Triple.bind (consider_adds c s) fun _ s' h => ?_
      exact (ih s').mono (fun _ s'' h' => h.trans h') fun _ => id

theorem indexScan_adds (hsteady : ∀ c ∈ q.clauses, c.Steady) (indexName : String)
    (filter : Option (Value → Except Failure Bool)) (s : Sweep (List Row)) :
    Triple (scan scene schema collector limit q (.index schema.typeName indexName) filter) s
      (fun _ s' => Added ((scene.view.rest (Key.indexPrefix schema.typeName indexName) none).flatMap
        KeyList.listedIn) s s') (fun _ => True) := by
  let cursor : Cursor Failure :=
    ⟨.index schema.typeName indexName, scene.batchSize, filter, .ofEngine⟩
  obtain ⟨left, stop, hleft⟩ : ∃ left stop, cursor.Yields scene.codec scene.view .start left stop :=
    Cursor.exists_yields _
  have hadds : Triple (considerAll scene schema collector limit q (halt stop) left) s _ _ :=
    (considerAll_adds stop left s).mono (fun _ _ h => h.mono (hleft.keys_sublist rfl)) fun _ => id
  refine (scan_considers hsteady hleft).triple hadds (fun _ t t' hagree h => ?_) fun _ _ _ _ => trivial
  obtain ⟨rows, hacc, hkeys⟩ := h
  exact ⟨rows, hagree.acc.trans hacc, hkeys⟩

theorem listing_keys (spec : IndexSpec) (found : List (Bytes × Option Bytes)) :
    ((listing schema spec found).1.map Candidate.key).Sublist (found.map Prod.fst) := by
  induction found with
  | nil => exact .slnil
  | cons pair rest ih =>
    obtain ⟨key, value⟩ := pair
    cases value with
    | none => exact List.nil_sublist _
    | some value => exact ih.cons_cons key

theorem lookup_adds (spec : IndexSpec) (values : List Value) (s : Sweep (List Row)) :
    Triple (do
      let keys ← Sweeping.ofExec <| Exec.ofReading scene.view <|
        Index.lookup scene.codec schema spec values
      let found ← Sweeping.ofExec <| Exec.ofReading scene.view <| Reading.multiGet <|
        keys.map fun key => Key.encode (.record schema.typeName key)
      considerEach scene schema collector limit q spec (keys.zip found)) s
      (fun _ s' => ∃ keys, keys.Pairwise (· < ·) ∧ Added keys s s') (fun _ => True) := by
  have hfirst : (Sweeping.ofExec (Exec.ofReading scene.view
      (Index.lookup scene.codec schema spec values)) : Sweeping (List Row) (List Bytes)) s =
        ((Index.lookup scene.codec schema spec values scene.view s.trail.reads).1.mapError .ofEngine,
          { s with trail := { s.trail with
            reads := (Index.lookup scene.codec schema spec values scene.view s.trail.reads).2 } }) := rfl
  cases hkeys : (Index.lookup scene.codec schema spec values scene.view s.trail.reads).1 with
  | error e =>
    rw [hkeys] at hfirst
    exact Triple.bind_of_run_error hfirst trivial
  | ok keys =>
    rw [hkeys] at hfirst
    refine Triple.bind_of_run hfirst (Triple.bind_of_run rfl ?_)
    rw [considerEach_considers]
    refine (considerAll_adds _ _ _).mono (fun _ s' h => ?_) fun _ => id
    refine ⟨keys, Index.lookup_ascending hkeys, h.mono ((listing_keys spec _).trans ?_)⟩
    rw [List.map_fst_zip (by simp)]

def InOrder (scene : Scene) (schema : Schema) (keys : List Bytes) : Plan → Prop
  | .lookup _ _ => keys.Pairwise (· < ·)
  | .indexScan spec _ => keys =
      (scene.view.rest (Key.indexPrefix schema.typeName spec.name) none).flatMap KeyList.listedIn
  | .recordScan => True

theorem pass_adds {plan : Plan} (hsteady : ∀ c ∈ q.clauses, c.Steady)
    (hplan : Plan.make scene.codec schema q = .ok plan) (hindexed : plan ≠ .recordScan)
    (s : Sweep (List Row)) :
    Triple (pass scene schema collector limit q) s
      (fun _ s' => ∃ keys, InOrder scene schema keys plan ∧ Added keys s s') (fun _ => True) := by
  have hmake : (Sweeping.ofExec (Exec.ofExcept (Plan.make scene.codec schema q)) :
      Sweeping (List Row) Plan) s = (.ok plan, s) := by
    rw [hplan]
    rfl
  refine Triple.bind_of_run hmake (Triple.bind_of_run rfl ?_)
  cases plan with
  | lookup spec values => exact lookup_adds spec values _
  | indexScan spec filtered =>
    exact (indexScan_adds hsteady spec.name _ _).mono (fun _ s' h => ⟨_, rfl, h⟩) fun _ => id
  | recordScan => exact absurd rfl hindexed

/-- A query with one branch finds rows in the order of its candidates. -/
theorem findRows_adds {plan : Plan} (hsteady : q.Steady) (hors : q.ors = []) (hsort : q.sortFields = [])
    (hplan : Plan.make scene.codec schema q = .ok plan) (hindexed : plan ≠ .recordScan) {trail : Trail}
    {rows : List Row} (hrows : (findRows scene schema q trail).1 = .ok rows) :
    ∃ keys, InOrder scene schema keys plan ∧ (rows.map Row.key).Sublist keys := by
  have hvalid := validate_of_findRows hrows
  have hbranches : q.branches = [q] := by rw [Query.branches_eq, hors]; rfl
  have hclauses : ∀ c ∈ q.clauses, c.Steady := hsteady q (hbranches ▸ List.mem_cons_self)
  simp only [findRows, walk_unsorted hvalid (List.isEmpty_iff.mpr hsort), sweep, hbranches] at hrows
  let first : Sweep (List Row) := ⟨trail, [], q.skipCount, 0, []⟩
  have hpasses : Triple (passAll scene schema collector q.limit [q]) first
      (fun _ s' => ∃ keys, InOrder scene schema keys plan ∧ Added keys first s') (fun _ => True) :=
    (pass_adds hclauses hplan hindexed first).bind fun _ s' h => Triple.pure h
  rcases hrun : passAll scene schema collector q.limit [q] first with ⟨_ | _, last⟩
  · simp only [first] at hrun
    simp only [hrun] at hrows
    cases hrows
  · obtain ⟨keys, hkeys, found, hacc, hsub⟩ := hpasses.post_of_run hrun
    simp only [first] at hrun
    simp only [hrun, Except.map, Except.ok.injEq] at hrows
    refine ⟨keys, hkeys, ?_⟩
    rw [← hrows, hacc]
    simpa [first] using hsub

/-- The records with these two keys have values, and the value of the second does not come before that
of the first. -/
def InValueOrder (scene : Scene) (schema : Schema) (spec : IndexSpec) (pk pk' : Bytes) : Prop :=
  ∃ value value', scene.HasValue schema spec pk value ∧ scene.HasValue schema spec pk' value' ∧
    ¬ value' < value

theorem listed_inValueOrder (hlists : scene.view.Lists schema spec (scene.HasValue schema spec)) :
    ((scene.view.rest (Key.indexPrefix schema.typeName spec.name) none).flatMap
      KeyList.listedIn).Pairwise (InValueOrder scene schema spec) := by
  have hentry : ∀ pair ∈ scene.view.rest (Key.indexPrefix schema.typeName spec.name) none,
      ∀ pk ∈ KeyList.listedIn pair, scene.HasValue schema spec pk
        (pair.1.drop (Key.indexPrefix schema.typeName spec.name).length) := by
    intro pair hpair pk hpk
    obtain ⟨value, keys, hkey, hkeys, -, hhas⟩ := entry_of_lists hlists hpair
    have hvalue : pair.1.drop (Key.indexPrefix schema.typeName spec.name).length = value := by
      rw [hkey]
      exact List.drop_left
    rw [KeyList.listedIn, hkeys] at hpk
    exact hvalue ▸ (hhas pk).mp hpk
  refine List.pairwise_flatMap.mpr ⟨fun pair hpair => ?_, ?_⟩
  · -- Records of one entry have the same value.
    refine List.pairwise_of_forall_mem_list fun pk hpk pk' hpk' => ?_
    exact ⟨_, _, hentry pair hpair pk hpk, hentry pair hpair pk' hpk', List.lt_irrefl _⟩
  · refine (Data.ascending_rest scene.view _ none).imp_of_mem fun {a b} ha hb hlt pk hpk pk' hpk' => ?_
    exact ⟨_, _, hentry a ha pk hpk, hentry b hb pk' hpk', List.lt_asymm hlt⟩

/-- A scan of an index on values of one kind finds rows whose values do not go down. -/
theorem findRows_inValueOrder {filtered : Bool} (hcodec : scene.codec = .bson) (hsteady : q.Steady)
    (hors : q.ors = []) (hsort : q.sortFields = [])
    (hplan : Plan.make scene.codec schema q = .ok (.indexScan spec filtered))
    (hlists : scene.view.Lists schema spec (scene.HasValue schema spec))
    (hkind : ∀ row row' : Row, row.Stored scene schema → row'.Stored scene schema →
      ∃ o, (row.doc.lookupOrNull spec.field).Ranked (row'.doc.lookupOrNull spec.field) o)
    {trail : Trail} {rows : List Row} (hrows : (findRows scene schema q trail).1 = .ok rows) :
    rows.Pairwise fun a b => ∃ o,
      (a.doc.lookupOrNull spec.field).compare (b.doc.lookupOrNull spec.field) = some o ∧ o.isLE := by
  obtain ⟨keys, rfl, hsub⟩ := findRows_adds hsteady hors hsort hplan nofun hrows
  have hfound := (findRows_found hsteady trail hrows).found
  have hordered := List.pairwise_map.mp ((listed_inValueOrder hlists).sublist hsub)
  refine hordered.imp_of_mem fun {a b} ha hb ⟨v, w, ⟨doc, hdoc, hv⟩, ⟨doc', hdoc', hw⟩, hle⟩ => ?_
  have hastored := (hfound a ha).stored
  have hbstored := (hfound b hb).stored
  have hsame : doc = a.doc := congrArg Row.doc (hdoc.unique hastored rfl)
  have hsame' : doc' = b.doc := congrArg Row.doc (hdoc'.unique hbstored rfl)
  obtain ⟨o, hab⟩ := hkind a b hastored hbstored
  obtain ⟨o', hba⟩ := hkind b a hbstored hastored
  rw [hcodec, hsame] at hv
  rw [hcodec, hsame'] at hw
  exact hab.isLE_of_keys hba hv hw hle

end Search

namespace Records

open Search

variable {settings : Settings} {entity : Entity} {session : Session} {q : Query Predicate}
  {schema : Schema} {docs : List Document}

/-- Without sorting, a query with one branch that goes through an index on values of one kind finds
documents whose values do not go down, and one that looks values up finds the rows in the order of their
keys. -/
theorem find_in_order (hors : q.ors = []) (hsort : q.sortFields = [])
    (hschema : entity.validSchema = .ok schema) (hfind : (find settings entity q session).1 = .ok docs) :
    (∀ spec filtered, settings.codec = .bson →
      Plan.make settings.codec schema q = .ok (.indexScan spec filtered) →
      session.txn.view.Lists schema spec ((scene settings session).HasValue schema spec) →
      (∀ row row' : Row, row.Stored (scene settings session) schema →
        row'.Stored (scene settings session) schema →
        ∃ o, (row.doc.lookupOrNull spec.field).Ranked (row'.doc.lookupOrNull spec.field) o) →
      docs.Pairwise fun a b =>
        ∃ o, (a.lookupOrNull spec.field).compare (b.lookupOrNull spec.field) = some o ∧ o.isLE) ∧
    ∀ spec values, Plan.make settings.codec schema q = .ok (.lookup spec values) →
      ∃ rows, (findRows settings schema q session).1 = .ok rows ∧ docs = rows.map Row.doc ∧
        rows.Pairwise fun a b => a.key < b.key := by
  obtain ⟨schema', rows, hschema', hrows, hread⟩ := find_eq_ok_iff.mp hfind
  cases hschema.symm.trans hschema'
  obtain ⟨hdocs, -⟩ := docs_of_read hread
  have hsteady : (q.ready (scene settings session)).Steady := q.ready_steady _
  have hready : (q.ready (scene settings session)).ors = [] ∧
      (q.ready (scene settings session)).sortFields = [] := by
    rw [Query.ready_eq_map, Query.sortFields_map]
    obtain ⟨clauses, ors, _, _, _, _, _, _⟩ := q
    cases hors
    exact ⟨rfl, hsort⟩
  have hmake : Plan.make settings.codec schema (q.ready (scene settings session)) =
      Plan.make settings.codec schema q := by
    rw [Query.ready_eq_map, Plan.make_map]
  constructor
  · intro spec filtered hcodec hplan hlists hkind
    rw [hdocs]
    exact List.pairwise_map.mpr (findRows_inValueOrder hcodec hsteady hready.1 hready.2
      (hmake.trans hplan) hlists hkind hrows)
  · intro spec values hplan
    have hindexed : Plan.lookup spec values ≠ .recordScan := nofun
    obtain ⟨keys, hkeys, hsub⟩ :=
      findRows_adds hsteady hready.1 hready.2 (hmake.trans hplan) hindexed hrows
    refine ⟨rows, ?_, hdocs, List.pairwise_map.mp (hkeys.sublist hsub)⟩
    simp only [findRows, searching_run, hrows]

def shelvedBooks : Session :=
  ⟨((Turn.reached Turn.bookSettings (Turn.bookTurns.take 11)).store.start true).1, []⟩

theorem scene_start (store : Store) (readOnly : Bool) (events : List Event) :
    scene settings ⟨(store.start readOnly).1, events⟩ =
      ⟨store.current.data, settings.codec, settings.batchSize⟩ := rfl

theorem scene_shelvedBooks : scene Turn.bookSettings shelvedBooks = shelved :=
  scene_start _ true []

/-- Books by shelf, and books on shelves that are named the other way round. -/
theorem find_in_order_shelves :
    let byShelf : Query Predicate := Query.and .all "place.shelf" (.condition (.ge (.value (.int32 1))))
    let onShelves : Query Predicate :=
      Query.and .all "place.shelf" (.condition (.oneOf [.value (.int32 2), .value (.int32 1)]))
    (∃ docs, (find Turn.bookSettings Turn.bookEntity byShelf shelvedBooks).1 = .ok docs ∧
        docs.length = 2 ∧ docs.Pairwise fun a b => ∃ o,
          (a.lookupOrNull "place.shelf").compare (b.lookupOrNull "place.shelf") = some o ∧ o.isLE) ∧
      ∃ rows, (findRows Turn.bookSettings Turn.bookSchema onShelves shelvedBooks).1 = .ok rows ∧
        rows.length = 2 ∧ rows.Pairwise fun a b => a.key < b.key := by
  intro byShelf onShelves
  constructor
  · obtain ⟨docs, hdocs, hlength⟩ := exists_ok_of_any
      (by decide +kernel : (find Turn.bookSettings Turn.bookEntity byShelf
        shelvedBooks).1.toOption.any fun docs => docs.length == 2)
    refine ⟨docs, hdocs, beq_iff_eq.mp hlength, ?_⟩
    have hlists : shelvedBooks.txn.view.Lists Turn.bookSchema Turn.shelfIndex
        ((scene Turn.bookSettings shelvedBooks).HasValue Turn.bookSchema Turn.shelfIndex) := by
      rw [scene_shelvedBooks]
      exact mirrored_shelved.lists Turn.shelfIndex List.mem_cons_self
    have hplan : Plan.make Turn.bookSettings.codec Turn.bookSchema byShelf =
        .ok (.indexScan Turn.shelfIndex true) := rfl
    have hschema : Turn.bookEntity.validSchema = .ok Turn.bookSchema := rfl
    refine (find_in_order (q := byShelf) rfl rfl hschema hdocs).1 Turn.shelfIndex true rfl hplan hlists
      fun row row' hrow hrow' => ?_
    rw [scene_shelvedBooks] at hrow hrow'
    rcases mem_shelvedRows hrow with rfl | rfl <;> rcases mem_shelvedRows hrow' with rfl | rfl <;>
      exact ⟨_, .integers rfl rfl⟩
  · obtain ⟨docs, hdocs, hlength⟩ := exists_ok_of_any
      (by decide +kernel : (find Turn.bookSettings Turn.bookEntity onShelves
        shelvedBooks).1.toOption.any fun docs => docs.length == 2)
    have hplan : Plan.make Turn.bookSettings.codec Turn.bookSchema onShelves =
        .ok (.lookup Turn.shelfIndex [.int32 2, .int32 1]) := rfl
    have hschema : Turn.bookEntity.validSchema = .ok Turn.bookSchema := rfl
    obtain ⟨rows, hrows, rfl, hordered⟩ :=
      (find_in_order (q := onShelves) rfl rfl hschema hdocs).2 Turn.shelfIndex _ hplan
    exact ⟨rows, hrows, by simpa using hlength, hordered⟩

end Records

end DocStore
