import DocStore.Proofs.Exact
import DocStore.Proofs.Keeping
import DocStore.Proofs.Lookups
import DocStore.Proofs.Mirroring

/-!
# Access paths

Whether a branch looks values up, goes through an index or goes through all records, its candidates
include every record that it accepts, if the indexes mirror the records. So which path is taken cannot
be told from the rows that a query finds (`findRows_exact`).
-/

namespace DocStore

open OrderedKey (widened)

variable {scene : Scene} {schema : Schema} {q : Query Test} {spec : IndexSpec}

-- ---------------------------------------------------------------------------
-- Mirrors of what a search reads
-- ---------------------------------------------------------------------------

/-- The record under `pk`, as a search reads it, has a value in the indexed field, or null without
one, that encodes to `value`. -/
def Scene.HasValue (scene : Scene) (schema : Schema) (spec : IndexSpec) (pk value : Bytes) : Prop :=
  ∃ doc, Row.Stored scene schema ⟨pk, doc⟩ ∧
    scene.codec.encodeKey (doc.lookupOrNull spec.field) = .ok value

/-- All records can be read, and all indexes mirror them. -/
structure Scene.Mirrored (scene : Scene) (schema : Schema) : Prop where
  readable : Search.Readable scene schema
  valued : ∀ spec ∈ schema.indexes, ∀ row : Row, row.Stored scene schema →
    ∃ value, scene.codec.encodeKey (row.doc.lookupOrNull spec.field) = .ok value
  lists : ∀ spec ∈ schema.indexes,
    scene.view.Lists schema spec (scene.HasValue schema spec)

/-- Reading a record sets its key field, which no index of a catalog is built on. -/
theorem Scene.hasValue_iff {schemas : List Schema} (hcatalog : Catalog schemas)
    (hschema : schema ∈ schemas) (hreadable : Search.Readable scene schema)
    (hspec : spec ∈ schema.indexes) (pk value : Bytes) :
    scene.HasValue schema spec pk value ↔
      scene.view.HasValue scene.codec schema spec pk value := by
  constructor
  · rintro ⟨found, ⟨bytes, hget, hdecode⟩, hvalue⟩
    obtain ⟨doc, hdoc, hsame⟩ := Search.decodeRecord_ok hcatalog hschema hdecode
    exact ⟨doc, ⟨bytes, hget, hdoc⟩, by rwa [← hsame spec hspec]⟩
  · rintro ⟨doc, ⟨bytes, hget, hdoc⟩, hvalue⟩
    obtain ⟨found, hdecode⟩ := hreadable pk bytes hget
    obtain ⟨doc', hdoc', hsame⟩ := Search.decodeRecord_ok hcatalog hschema hdecode
    have hstored : scene.view.Holds scene.codec schema pk doc := ⟨bytes, hget, hdoc⟩
    cases hstored.unique ⟨bytes, hget, hdoc'⟩
    exact ⟨found, ⟨bytes, hget, hdecode⟩, by rwa [hsame spec hspec]⟩

theorem Scene.mirrored_of_mirrors {schemas : List Schema} (hcatalog : Catalog schemas)
    (hschema : schema ∈ schemas) (hreadable : Search.Readable scene schema)
    (h : ∀ spec ∈ schema.indexes, scene.view.Mirrors scene.codec schema spec) :
    scene.Mirrored schema where
  readable := hreadable
  valued spec hspec row hrow := by
    obtain ⟨bytes, hget, hdecode⟩ := hrow
    obtain ⟨value, hvalue⟩ := (h spec hspec).valued row.key bytes hget
    obtain ⟨doc, hdoc, hkey⟩ := (hasValue_iff hcatalog hschema hreadable hspec _ _).mpr hvalue
    have heq : (⟨row.key, doc⟩ : Row) = row := hdoc.unique ⟨bytes, hget, hdecode⟩ rfl
    rw [← heq]
    exact ⟨value, hkey⟩
  lists spec hspec := by
    have hsame : scene.HasValue schema spec = scene.view.HasValue scene.codec schema spec := by
      funext pk value
      exact propext (hasValue_iff hcatalog hschema hreadable hspec pk value)
    rw [hsame]
    exact (h spec hspec).lists

-- ---------------------------------------------------------------------------
-- Scans
-- ---------------------------------------------------------------------------

namespace Search

open Evaluation

theorem recordScan_covers : ScanCovers scene schema q (.records schema.typeName) none := by
  let start := Key.recordPrefix schema.typeName
  let found := (scene.view.rest start none).map fun pair =>
    (⟨pair.1.drop start.length, pair.2⟩ : Candidate)
  refine ⟨found, rfl, fun c hc => ?_, fun row hrow _ => ?_⟩
  · obtain ⟨pair, hpair, rfl⟩ := List.mem_map.mp hc
    obtain ⟨hget, rest, hrest⟩ := Data.mem_rest_none.mp hpair
    have hkey : Records.recordKey schema (pair.1.drop start.length) = pair.1 := by
      rw [← hrest, List.drop_left]
      rfl
    simp only [Candidate.Current, hkey, hget]
  · obtain ⟨bytes, hget, -⟩ := hrow
    have hpair : (Records.recordKey schema row.key, bytes) ∈ scene.view.rest start none :=
      Data.mem_rest_none.mpr ⟨hget, List.prefix_append _ _⟩
    refine List.mem_map.mpr ⟨⟨row.key, bytes⟩, List.mem_map.mpr ⟨_, hpair, ?_⟩, rfl⟩
    have hkey : (Records.recordKey schema row.key).drop start.length = row.key := List.drop_left
    rw [hkey]

theorem entry_of_lists {has : Bytes → Bytes → Prop} (hlists : scene.view.Lists schema spec has)
    {pair : Bytes × Bytes}
    (hpair : pair ∈ scene.view.rest (Key.indexPrefix schema.typeName spec.name) none) :
    ∃ value keys, pair.1 = Index.entryAt schema spec value ∧
      KeyList.decode? pair.2 = some keys ∧ keys ≠ [] ∧ ∀ pk, pk ∈ keys ↔ has pk value := by
  obtain ⟨hget, value, hvalue⟩ := Data.mem_rest_none.mp hpair
  have hentry : pair.1 = Index.entryAt schema spec value := hvalue.symm
  rw [hentry] at hget
  obtain ⟨keys, hkeys, -, hiff, -⟩ := hlists.listed value pair.2 hget
  obtain ⟨pk, hpk⟩ := (hlists.present value).mp (by rw [hget]; rfl)
  exact ⟨value, keys, hentry, hkeys, List.ne_nil_of_mem ((hiff pk).mpr hpk), hiff⟩

section Indexed

variable (hmirrored : scene.Mirrored schema) (hspec : spec ∈ schema.indexes)
include hmirrored hspec

theorem entry_listed {pair : Bytes × Bytes}
    (hpair : pair ∈ scene.view.rest (Key.indexPrefix schema.typeName spec.name) none) :
    ∃ value keys, pair.1 = Index.entryAt schema spec value ∧
      KeyList.decode? pair.2 = some keys ∧ keys ≠ [] ∧
      ∀ pk, pk ∈ keys ↔ scene.HasValue schema spec pk value :=
  entry_of_lists (hmirrored.lists spec hspec) hpair

theorem listed_of_stored {row : Row} (hrow : row.Stored scene schema) :
    ∃ value entry keys, scene.codec.encodeKey (row.doc.lookupOrNull spec.field) = .ok value ∧
      (Index.entryAt schema spec value, entry) ∈
        scene.view.rest (Key.indexPrefix schema.typeName spec.name) none ∧
      KeyList.decode? entry = some keys ∧ row.key ∈ keys := by
  obtain ⟨value, hvalue⟩ := hmirrored.valued spec hspec row hrow
  have hhas : scene.HasValue schema spec row.key value := ⟨row.doc, hrow, hvalue⟩
  obtain ⟨entry, hentry⟩ := Option.isSome_iff_exists.mp
    (((hmirrored.lists spec hspec).present value).mpr ⟨row.key, hhas⟩)
  obtain ⟨keys, hkeys, -, hiff, -⟩ := (hmirrored.lists spec hspec).listed value entry hentry
  exact ⟨value, entry, keys, hvalue, Data.mem_rest_none.mpr ⟨hentry, List.prefix_append _ _⟩, hkeys,
    (hiff row.key).mpr hhas⟩

theorem indexScan_finds {filter : Option (Value → Except Failure Bool)}
    (hpasses : ∀ row : Row, row.Stored scene schema → ∀ value,
      scene.codec.encodeKey (row.doc.lookupOrNull spec.field) = .ok value →
        ∃ passes, Cursor.passes scene.codec
          ⟨.index schema.typeName spec.name, scene.batchSize, filter, Failure.ofEngine⟩
          (Index.entryAt schema spec value) = .ok passes) :
    ∃ keys, ScanFinds scene schema (.index schema.typeName spec.name) filter keys ∧
      ∀ row : Row, row.Stored scene schema → ∀ value,
        scene.codec.encodeKey (row.doc.lookupOrNull spec.field) = .ok value →
        Cursor.passes scene.codec
            ⟨.index schema.typeName spec.name, scene.batchSize, filter, Failure.ofEngine⟩
            (Index.entryAt schema spec value) = .ok true → row.key ∈ keys := by
  let cursor : Cursor Failure :=
    ⟨.index schema.typeName spec.name, scene.batchSize, filter, Failure.ofEngine⟩
  let pairs := scene.view.rest (Key.indexPrefix schema.typeName spec.name) none
  -- Reading the entries through does not fail, neither at a filter nor at a list.
  obtain ⟨keys, hkeys, hiff⟩ : ∃ keys, cursor.listedKeys scene.codec pairs = .ok keys ∧ ∀ pk,
      pk ∈ keys ↔ ∃ pair ∈ pairs, cursor.passes scene.codec pair.1 = .ok true ∧
        ∃ listed, KeyList.decode? pair.2 = some listed ∧ pk ∈ listed := by
    refine Cursor.listedKeys_ok fun pair hpair => ?_
    obtain ⟨value, keys, hentry, hkeys, hne, hlisted⟩ := entry_listed hmirrored hspec hpair
    obtain ⟨pk, hpk⟩ := List.exists_mem_of_ne_nil keys hne
    obtain ⟨doc, hrow, hvalue⟩ := (hlisted pk).mp hpk
    rw [hentry]
    exact ⟨hpasses ⟨pk, doc⟩ hrow value hvalue, keys, hkeys⟩
  have hstored : ∀ pk ∈ keys, ∃ value, scene.view.get? (cursor.recordKey pk) = some value := by
    intro pk hpk
    obtain ⟨pair, hpair, -, listed, hlisted, hmem⟩ := (hiff pk).mp hpk
    obtain ⟨value, keys, -, hkeys, -, hhas⟩ := entry_listed hmirrored hspec hpair
    rw [hlisted] at hkeys
    cases hkeys
    obtain ⟨doc, ⟨bytes, hget, -⟩, -⟩ := (hhas pk).mp hmem
    exact ⟨bytes, hget⟩
  obtain ⟨found, hfound, hfoundKeys, hcurrent⟩ := Cursor.withRecords_ok hstored
  have hcandidates : (cursor.candidates scene.codec scene.view pairs).1 = .ok found := by
    simp only [Cursor.candidates, cursor, hkeys, hfound]
  refine ⟨keys, ⟨found, hcandidates, hcurrent, hfoundKeys⟩, fun row hrow value hvalue hpass => ?_⟩
  obtain ⟨value', entry, listed, hvalue', hpair, hlisted, hmem⟩ :=
    listed_of_stored hmirrored hspec hrow
  cases hvalue.symm.trans hvalue'
  exact (hiff row.key).mpr ⟨_, hpair, hpass, listed, hlisted, hmem⟩

/-- A scan of an index covers the branch if what it tests values for holds of all that match. -/
theorem indexScan_covers {filter : Option (Value → Except Failure Bool)}
    (hpasses : ∀ row : Row, row.Stored scene schema → ∀ value,
      scene.codec.encodeKey (row.doc.lookupOrNull spec.field) = .ok value →
        ∃ passes, Cursor.passes scene.codec
            ⟨.index schema.typeName spec.name, scene.batchSize, filter, Failure.ofEngine⟩
            (Index.entryAt schema spec value) = .ok passes ∧
          (Answers scene schema row q.clauses true → passes = true)) :
    ScanCovers scene schema q (.index schema.typeName spec.name) filter := by
  obtain ⟨keys, ⟨found, hfound, hcurrent, rfl⟩, hpassed⟩ :=
    indexScan_finds hmirrored hspec fun row hrow value hvalue =>
      (hpasses row hrow value hvalue).imp fun _ h => h.1
  refine ⟨found, hfound, hcurrent, fun row hrow hanswers => ?_⟩
  obtain ⟨value, hvalue⟩ := hmirrored.valued spec hspec row hrow
  obtain ⟨passes, hpass, himplies⟩ := hpasses row hrow value hvalue
  rw [himplies hanswers] at hpass
  exact hpassed row hrow value hvalue hpass

end Indexed

theorem passes_decoded {filter : Value → Except Failure Bool} {found : Value} {value : Bytes}
    (hdecode : scene.codec.decodeKey value = .ok found) :
    Cursor.passes scene.codec
      ⟨.index schema.typeName spec.name, scene.batchSize, some filter, Failure.ofEngine⟩
      (Index.entryAt schema spec value) = filter found := by
  have hdrop : (Index.entryAt schema spec value).drop
      (Source.index schema.typeName spec.name).start.length = value := List.drop_left
  simp only [Cursor.passes, hdrop, hdecode]
  rfl

theorem decodeKey_widened (hcodec : scene.codec = .bson) {found : Value} {value : Bytes}
    (hbson : ∀ bytes, Bson.encode found = .ok bytes → Bson.decode bytes = .ok found)
    (hvalue : scene.codec.encodeKey found = .ok value) :
    scene.codec.decodeKey value = .ok (widened found) := by
  rw [hcodec] at hvalue ⊢
  exact OrderedKey.decode_encode hbson hvalue

/-- Composite values come back from their keys. -/
def Restores (scene : Scene) (schema : Schema) : Prop :=
  ∀ spec ∈ schema.indexes, ∀ row : Row, row.Stored scene schema → ∀ bytes,
    Bson.encode (row.doc.lookupOrNull spec.field) = .ok bytes →
      Bson.decode bytes = .ok (row.doc.lookupOrNull spec.field)

/-- Where the branch looks values up they are plain, and no record has a double in their place. -/
def LooksUpPlain (scene : Scene) (schema : Schema) (q : Query Test) : Prop :=
  ∀ spec values, Plan.make scene.codec schema q = .ok (.lookup spec values) →
    (∀ value ∈ values, value.IsPlain) ∧
      ∀ row : Row, row.Stored scene schema → ¬ (row.doc.lookupOrNull spec.field).IsDouble

theorem same_of_answers (hfield : spec.field ≠ keyName) {values : List Value}
    (hvalues : Plan.lookupValues? spec q = some values) {row : Row}
    (heach : ∀ c ∈ q.clauses, Answers scene schema row [c] true) :
    ∃ value ∈ values, (row.doc.lookupOrNull spec.field).same value = true := by
  obtain ⟨c, hc, hcfield, hlookup⟩ := Plan.clause_of_lookup hvalues
  obtain ⟨found, hfound, hcriterion⟩ := (heach c hc).of_singleton
  rw [hcfield] at hfound
  rw [Document.lookupOrNull, resolveField_eq hfield hfound, Option.getD_some]
  cases hkind : c.criterion with
  | predicate test =>
    rw [hkind] at hlookup
    cases hlookup
  | condition condition =>
    rw [hkind] at hlookup hcriterion
    have hresolve : ∀ v, resolve scene schema row (.value v) = .ok v := fun _ => rfl
    exact Condition.lookupValues?_same hresolve hlookup (hcriterion ⟨[], [], .start⟩)

theorem lookup_listed (hmirrored : scene.Mirrored schema) (hspec : spec ∈ schema.indexes)
    {values : List Value}
    (hencoded : ∀ value ∈ values.flatMap Index.variants, ∃ key, scene.codec.encodeKey value = .ok key) :
    ∃ keys, LookupFinds scene schema spec values keys ∧
      ∀ pk, pk ∈ keys ↔ ∃ value ∈ values.flatMap Index.variants, ∃ key,
        scene.codec.encodeKey value = .ok key ∧
          pk ∈ scene.view.keysAt (Index.entryAt schema spec key) := by
  have hlists := hmirrored.lists spec hspec
  obtain ⟨keys, hkeys, hiff⟩ := Index.lookup_run hlists.readable hencoded
  refine ⟨keys, ⟨hkeys, fun pk hpk => ?_⟩, hiff⟩
  obtain ⟨_, _, key, _, hlisted⟩ := (hiff pk).mp hpk
  obtain ⟨doc, ⟨bytes, hget, -⟩, -⟩ := (hlists.mem_keysAt key pk).mp hlisted
  exact ⟨bytes, hget⟩

theorem lookup_covers (hcodec : scene.codec = .bson) (hmirrored : scene.Mirrored schema)
    (hspec : spec ∈ schema.indexes) (hfield : spec.field ≠ keyName)
    (hdecided : q.Decided scene schema) {values : List Value}
    (hvalues : Plan.lookupValues? spec q = some values)
    (hplain : ∀ value ∈ values, value.IsPlain)
    (hdouble : ∀ row : Row, row.Stored scene schema → ¬ (row.doc.lookupOrNull spec.field).IsDouble) :
    LookupCovers scene schema q spec values := by
  have hencoded : ∀ value ∈ values.flatMap Index.variants,
      ∃ key, scene.codec.encodeKey value = .ok key := by
    intro variant hvariant
    obtain ⟨value, hvalue, hmem⟩ := List.mem_flatMap.mp hvariant
    rw [hcodec]
    exact (hplain value hvalue).encode_ok variant hmem
  obtain ⟨found, ⟨hfound, hcurrent⟩, hiff⟩ := lookup_listed hmirrored hspec hencoded
  refine ⟨found, hfound, hcurrent, fun row hrow hanswers => ?_⟩
  -- The record's value need not be the one looked up, but one of its variants has the same key.
  obtain ⟨value, hvalue, hsame⟩ := same_of_answers hfield hvalues (hdecided.each hrow hanswers)
  obtain ⟨variant, hvariant, hencode⟩ :=
    Value.encode_of_same (hplain value hvalue) (hdouble row hrow) hsame
  obtain ⟨key, hkey⟩ := hmirrored.valued spec hspec row hrow
  have hvariantKey : scene.codec.encodeKey variant = .ok key := by
    rw [hcodec] at hkey ⊢
    exact hencode.trans hkey
  rw [hiff]
  refine ⟨variant, List.mem_flatMap.mpr ⟨value, hvalue, hvariant⟩, key, hvariantKey, ?_⟩
  rw [(hmirrored.lists spec hspec).mem_keysAt]
  exact ⟨row.doc, hrow, hkey⟩

-- ---------------------------------------------------------------------------
-- Plans
-- ---------------------------------------------------------------------------

section Plans

variable (hcodec : scene.codec = .bson) (hfields : ∀ spec ∈ schema.indexes, spec.field ≠ keyName)
  (hmirrored : scene.Mirrored schema) (hrestores : Restores scene schema)
include hcodec hfields hmirrored hrestores

theorem indexPlan_covers (hspec : spec ∈ schema.indexes) (hdecided : q.Decided scene schema)
    (filtered : Bool) : Covers scene schema q (.indexScan spec filtered) := by
  refine indexScan_covers hmirrored hspec fun row hrow value hvalue => ?_
  cases filtered with
  | false => exact ⟨true, rfl, fun _ => rfl⟩
  | true =>
    have hdecode := decodeKey_widened hcodec (hrestores spec hspec row hrow) hvalue
    obtain ⟨passes, hfilter, himplies⟩ := indexFilter_answers (q := q) (hfields spec hspec)
      fun c hc => hdecided c hc row hrow
    exact ⟨passes, (passes_decoded hdecode).trans hfilter, himplies⟩

/-- Whichever plan is made for a branch, its candidates include all that it accepts. -/
theorem ready_of_mirrored
    (hnames : ∀ name, q.indexName = some name → (schema.findIndex name).isSome)
    (hdecided : q.Decided scene schema) (hplain : LooksUpPlain scene schema q) :
    Ready scene schema q := by
  obtain ⟨plan, hplan, hcases⟩ := Plan.make_cases hnames
  refine ⟨hdecided, plan, hplan, ?_⟩
  rcases hcases with rfl | ⟨spec, hspec, ⟨values, rfl, hvalues⟩ | ⟨filtered, rfl⟩⟩
  · exact recordScan_covers
  · obtain ⟨hvaluesPlain, hdouble⟩ := hplain spec values hplan
    exact lookup_covers hcodec hmirrored hspec (hfields spec hspec) hdecided hvalues hvaluesPlain
      hdouble
  · exact indexPlan_covers hcodec hfields hmirrored hrestores hspec hdecided filtered

end Plans

/-- A query without sorting and paging that names known indexes only. Each of its criteria, tested by
itself on any record, does not fail, and where values are looked up there are no doubles about. -/
structure Askable (scene : Scene) (schema : Schema) (q : Query Test) : Prop where
  valid : q.validate = .ok ()
  unsorted : q.sortFields = []
  unskipped : q.skip = none
  unlimited : q.limit = none
  named : ∀ b ∈ q.branches, ∀ name, b.indexName = some name → (schema.findIndex name).isSome
  answered : ∀ b ∈ q.branches, ∀ c ∈ b.clauses, ∀ row : Row, row.Stored scene schema → ∀ trail,
    ∃ holds, (clausesHold scene schema row [c] trail).1 = .ok holds
  plain : ∀ b ∈ q.branches, LooksUpPlain scene schema b

/-- A search succeeds and finds exactly the records that match the query, each of them once, whichever
way the planner takes for each of the branches. -/
theorem findRows_exact (hcodec : scene.codec = .bson)
    (hfields : ∀ spec ∈ schema.indexes, spec.field ≠ keyName) (hmirrored : scene.Mirrored schema)
    (hrestores : Restores scene schema) (q : Query Predicate)
    (hq : Askable scene schema (q.ready scene)) (trail : Trail) :
    ∃ rows, (findRows scene schema (q.ready scene) trail).1 = .ok rows ∧ (rows.map Row.key).Nodup ∧
      ∀ row, row ∈ rows ↔ row.Stored scene schema ∧
        (matchesQuery scene schema (q.ready scene) row trail).1 = .ok true := by
  have hsteady : (q.ready scene).Steady := q.ready_steady scene
  refine findRows_of_ready hmirrored.readable hsteady hq.valid hq.unsorted hq.unskipped hq.unlimited
    (fun b hb => ?_) trail
  have hdecided : b.Decided scene schema := Query.decided_of_steady (hsteady b hb) (hq.answered b hb)
  exact ready_of_mirrored hcodec hfields hmirrored hrestores (hq.named b hb) hdecided (hq.plain b hb)

-- ---------------------------------------------------------------------------
-- Books
-- ---------------------------------------------------------------------------

open Turn in
def shelved : Scene := ⟨(reached bookSettings (bookTurns.take 11)).store.current.data, .bson, 2⟩

def shelvedRow (number : Int64) (shelf : Int32) (code : String) : Row :=
  ⟨(OrderedKey.encode (.int64 number)).toOption.getD [],
    (Turn.book shelf code).insert "id" (.int64 number)⟩

def shelvedRows : List Row := [shelvedRow 1 1 "a", shelvedRow 2 2 "b"]

def numbered : Query Predicate := Query.and .all keyName (.condition (.gt (.value (.int32 0))))

def anyBook : Query Predicate :=
  ((Query.and .all "place.shelf" (.condition (.ge (.value (.int32 2))))).or (Turn.onShelf 1)).or
    numbered

theorem read_shelved {pk bytes : Bytes}
    (h : shelved.view.get? (Records.recordKey Turn.bookSchema pk) = some bytes) :
    ∃ row ∈ shelvedRows, row.key = pk ∧
      decodeRecord .bson Turn.bookSchema pk bytes = .ok row.doc := by
  let stored (number : Int64) (shelf : Int32) (code : String) : Bytes × Bytes :=
    (Records.recordKey Turn.bookSchema (shelvedRow number shelf code).key,
      (Codec.bson.encode (.document (Turn.book shelf code).fields)).toOption.getD [])
  have hrest : shelved.view.rest (Key.recordPrefix "book") none =
      [stored 1 1 "a", stored 2 2 "b"] := by
    decide +kernel
  have hmem : (Records.recordKey Turn.bookSchema pk, bytes) ∈
      shelved.view.rest (Key.recordPrefix "book") none :=
    Data.mem_rest_none.mpr ⟨h, List.prefix_append _ _⟩
  simp only [hrest, stored, List.mem_cons, Prod.mk.injEq, List.not_mem_nil, or_false] at hmem
  rcases hmem with ⟨hkey, rfl⟩ | ⟨hkey, rfl⟩
  · have hpk : pk = (shelvedRow 1 1 "a").key := List.append_cancel_left hkey
    exact ⟨shelvedRow 1 1 "a", List.mem_cons_self, hpk.symm, hpk ▸ rfl⟩
  · have hpk : pk = (shelvedRow 2 2 "b").key := List.append_cancel_left hkey
    exact ⟨shelvedRow 2 2 "b", List.mem_cons_of_mem _ List.mem_cons_self, hpk.symm, hpk ▸ rfl⟩

theorem mem_shelvedRows {row : Row} (h : row.Stored shelved Turn.bookSchema) :
    row = shelvedRow 1 1 "a" ∨ row = shelvedRow 2 2 "b" := by
  obtain ⟨bytes, hget, hdecode⟩ := h
  obtain ⟨row', hmem, hkey, hdecode'⟩ := read_shelved hget
  have hdoc : row.doc = row'.doc := Except.ok.inj (hdecode.symm.trans hdecode')
  obtain ⟨key, doc⟩ := row
  cases hkey
  cases hdoc
  simpa only [shelvedRows, List.mem_cons, List.not_mem_nil, or_false] using hmem

theorem mirrored_shelved : shelved.Mirrored Turn.bookSchema := by
  have hreadable : Readable shelved Turn.bookSchema := by
    intro pk bytes hget
    obtain ⟨row, -, -, hdecode⟩ := read_shelved hget
    exact ⟨row.doc, hdecode⟩
  have hkept : Interleaving.Kept .bson [Turn.bookSchema] (Turn.Spare (Turn.bookTurns.take 11))
      (Turn.reached Turn.bookSettings (Turn.bookTurns.take 11)) :=
    Turn.kept_reached Turn.catalog_books
      (fun id m hm => Turn.admissible_bookTurns id m (List.mem_of_mem_take hm))
      fun _ _ _ doc _ => Codec.bson_keysStored.listable _ doc
  have hdata := hkept.data Turn.bookSchema (List.mem_singleton_self _)
  refine Scene.mirrored_of_mirrors Turn.catalog_books (List.mem_singleton_self _) hreadable
    fun spec hspec => ?_
  simp only [shelved]
  exact hdata.mirrors hspec (Turn.spare_books _ spec)

theorem restores_shelved : Restores shelved Turn.bookSchema := by
  intro spec hspec row hrow bytes hbytes
  have hspecs : spec ∈ [Turn.shelfIndex, ⟨"code", "code", true⟩] := hspec
  simp only [List.mem_cons, List.not_mem_nil, or_false] at hspecs
  rcases hspecs with rfl | rfl <;> rcases mem_shelvedRows hrow with rfl | rfl <;>
    · cases hbytes
      rfl

theorem branches_anyBook {b : Query Test} (h : b ∈ (anyBook.ready shelved).branches) :
    b = anyBook.ready shelved ∨ b = (Turn.onShelf 1).ready shelved ∨ b = numbered.ready shelved := by
  have hbranches : b ∈ [anyBook.ready shelved, (Turn.onShelf 1).ready shelved,
      numbered.ready shelved] := h
  simpa only [List.mem_cons, List.not_mem_nil, or_false] using hbranches

theorem askable_anyBook : Askable shelved Turn.bookSchema (anyBook.ready shelved) where
  valid := by decide +kernel
  unsorted := rfl
  unskipped := rfl
  unlimited := rfl
  named b hb name hname := by
    rcases branches_anyBook hb with rfl | rfl | rfl <;> cases hname
  answered b hb c hc row hrow trail := by
    rcases branches_anyBook hb with rfl | rfl | rfl <;>
      · cases List.mem_singleton.mp hc
        rcases mem_shelvedRows hrow with rfl | rfl <;> exact ⟨_, rfl⟩
  plain b hb spec values hplan := by
    rcases branches_anyBook hb with rfl | rfl | rfl
    · cases hplan
    · cases hplan
      refine ⟨by simp [Value.IsPlain], fun row hrow => ?_⟩
      rcases mem_shelvedRows hrow with rfl | rfl <;> exact id
    · cases hplan

theorem findRows_exact_books :
    shelved.Mirrored Turn.bookSchema ∧ Restores shelved Turn.bookSchema ∧
      Askable shelved Turn.bookSchema (anyBook.ready shelved) ∧
      ∃ rows, (findRows shelved Turn.bookSchema (anyBook.ready shelved) ⟨[], [], .start⟩).1 =
          .ok rows ∧ (rows.map Row.key).Nodup ∧
        ∀ row, row ∈ rows ↔ row.Stored shelved Turn.bookSchema ∧
          (matchesQuery shelved Turn.bookSchema (anyBook.ready shelved) row ⟨[], [], .start⟩).1 =
            .ok true :=
  ⟨mirrored_shelved, restores_shelved, askable_anyBook,
    findRows_exact rfl (fun _ => Schema.field_ne_of_check rfl) mirrored_shelved restores_shelved
      anyBook askable_anyBook _⟩

end Search

end DocStore
